import Mathlib
import SeriesStore.Proofs.Store.Frame
import SeriesStore.Proofs.Store.TableOrder

/-!
# Etags a transaction gives out

`Txn.Takes n x` says that every run of the transaction `x` that succeeds gives out at most `n`
etags: the last etag given out grows by at most `n`. Only `nextEtag` gives one out. The steps
that read or write the tables, read the clock or the context, or stamp the change vector give
out none, and the counts of two steps add up under `bind`; as with `Txn.Moves`, a write path is
bounded one building block at a time.

A local deletion of a range gives out one etag for its deleted range, one for each segment it
encodes anew and one for the rollup it schedules: at most two more than the segment rows of its
series (`Txn.deleteRange_takes`).
-/

namespace SeriesStore

namespace Txn

variable {α β : Type}

/-- Every successful run of `x` gives out at most `n` etags. -/
structure Takes (n : Nat) (x : Txn α) : Prop where
  ok : ∀ {ctx t v a t' v'}, exec x ctx t v = (.ok (a, t'), v') → v'.lastEtag ≤ v.lastEtag + n

namespace Takes

variable {n m : Nat}

/-- A step whose successful runs keep the last etag given out. -/
theorem of_eq {x : Txn α}
    (h : ∀ {ctx t v a t' v'}, exec x ctx t v = (.ok (a, t'), v') → v'.lastEtag = v.lastEtag) :
    Takes n x :=
  ⟨fun hx => by rw [h hx]; omega⟩

theorem mono {x : Txn α} (hx : Takes n x) (hnm : n ≤ m) : Takes m x :=
  ⟨fun h => by have := hx.ok h; omega⟩

theorem bind {x : Txn α} {f : α → Txn β} (hx : Takes n x) (hf : ∀ a, Takes m (f a)) :
    Takes (n + m) (x >>= f) := by
  constructor
  intro ctx t v b t' v' h
  obtain ⟨a, t₁, v₁, h₁, h₂⟩ := exec_bind_eq_ok.mp h
  have h₁' := hx.ok h₁
  have h₂' := (hf a).ok h₂
  push_cast
  omega

/-- A step that gives out no etag, then the rest. -/
theorem zero_bind {x : Txn α} {f : α → Txn β} (hx : Takes 0 x) (hf : ∀ a, Takes m (f a)) :
    Takes m (x >>= f) :=
  (hx.bind hf).mono (by omega)

/-- A step, then a rest that gives out no etag. -/
theorem bind_zero {x : Txn α} {f : α → Txn β} (hx : Takes n x) (hf : ∀ a, Takes 0 (f a)) :
    Takes n (x >>= f) :=
  hx.bind hf

theorem pure (a : α) : Takes n (pure a) :=
  of_eq fun h => by
    simp only [exec_pure, Prod.mk.injEq] at h
    rw [← h.2]

theorem throw (e : Error) : Takes n (throw e : Txn α) :=
  ⟨fun h => by simp at h⟩

theorem change (f : Tables → Tables) : Takes n (change f) :=
  of_eq fun h => by
    simp only [exec_change, Prod.mk.injEq] at h
    rw [← h.2]

theorem set (t' : Tables) : Takes n (set t' : Txn PUnit) :=
  of_eq fun h => by
    simp only [exec_set, Prod.mk.injEq] at h
    rw [← h.2]

theorem tables : Takes n tables :=
  of_eq fun h => by
    simp only [exec_tables, Prod.mk.injEq] at h
    rw [← h.2]

theorem now : Takes n now :=
  of_eq fun h => by
    simp only [exec_now, Prod.mk.injEq] at h
    rw [← h.2]

theorem configuration : Takes n configuration :=
  of_eq fun h => by
    simp only [exec_configuration, Prod.mk.injEq] at h
    rw [← h.2]

theorem lift (r : Outcome α) : Takes n (lift r) :=
  of_eq fun h => by
    cases r with
    | ok a =>
      simp only [exec_lift_ok, Prod.mk.injEq] at h
      rw [← h.2]
    | error e => simp at h

theorem nextEtag : Takes 1 nextEtag :=
  ⟨fun h => by
    simp only [exec_nextEtag, Prod.mk.injEq] at h
    rw [← h.2]
    simp⟩

/-- Stamping the change vector gives out no etag: the etag stamped was given out before. -/
theorem newChangeVector (etag : Int) : Takes n (newChangeVector etag) :=
  of_eq fun h => by
    simp only [exec_newChangeVector, Prod.mk.injEq] at h
    rw [← h.2]

theorem observeChangeVector (text : String) : Takes n (observeChangeVector text) :=
  of_eq fun h => by
    rw [exec_observeChangeVector] at h
    split at h
    · simp only [Prod.mk.injEq] at h
      rw [← h.2]
    · simp at h

theorem discard {x : Txn α} (hx : Takes n x) : Takes n (Functor.discard x) := by
  have h : (Functor.discard x : Txn PUnit) = x >>= fun _ => Pure.pure PUnit.unit := by
    rw [Functor.discard, map_const, Function.comp_apply, ← bind_pure_comp]
  rw [h]
  exact hx.bind_zero fun _ => pure _

end Takes

/-! ## The steps of a deletion -/

theorem updateStats_takes (s : SeriesRef) (liveDelta : Int) : Takes 0 (updateStats s liveDelta) := by
  unfold updateStats
  refine Takes.zero_bind Takes.tables fun t => ?_
  extract_lets previous count record
  have hrecord : ∀ bounds, Takes 0 (record bounds) := by
    intro bounds
    unfold record
    split <;> exact Takes.zero_bind (Takes.change _) fun _ => Takes.pure _
  split
  · exact Takes.zero_bind (Takes.lift _) hrecord
  · exact Takes.zero_bind (Takes.pure _) hrecord

theorem removeSeriesName_takes (doc name : String) : Takes 0 (removeSeriesName doc name) := by
  unfold removeSeriesName
  refine Takes.zero_bind Takes.tables fun t => Takes.zero_bind (Takes.lift _) fun p => ?_
  obtain ⟨t', b⟩ := p
  exact Takes.zero_bind (Takes.set t') fun _ => Takes.pure b

/-- Choosing the policy a series rolls up into only reads. -/
theorem rollupTarget_takes (r : SeriesRef) (ms : Int) (dead : Bool) :
    Takes 0 (rollupTarget r ms dead) := by
  unfold rollupTarget
  refine Takes.zero_bind Takes.configuration fun found => ?_
  split <;> [skip; exact Takes.pure _]
  split <;> [skip; exact Takes.pure _]
  split <;> [exact Takes.pure _; skip]
  split <;> [skip; exact Takes.pure _]
  split <;> [skip; exact Takes.pure _]
  extract_lets answer
  split <;> [skip; exact Takes.pure _]
  split <;> [skip; exact Takes.pure _]
  extract_lets retention
  split <;> [skip; exact Takes.pure _]
  refine Takes.zero_bind (Takes.lift _) fun due => ?_
  refine Takes.zero_bind Takes.now fun clock => ?_
  split <;> exact Takes.pure _

/-- Scheduling a rollup gives out the etag of its entry, if it writes one. -/
theorem scheduleRollup_takes (s : SeriesRef) (next : Policy) (ms : Int)
    (changeVector : Option String) : Takes 1 (scheduleRollup s next ms changeVector) := by
  unfold scheduleRollup
  refine Takes.zero_bind (Takes.lift _) fun due => Takes.zero_bind Takes.tables fun t => ?_
  extract_lets schedule
  have hschedule : ∀ u, Takes 1 (schedule u) := by
    intro u
    unfold schedule
    refine Takes.nextEtag.bind_zero fun etag => ?_
    extract_lets put
    have hput : ∀ cv, Takes 0 (put cv) := fun _ => Takes.change _
    split
    · exact Takes.zero_bind (Takes.pure _) hput
    · exact Takes.zero_bind (Takes.newChangeVector _) hput
  split
  · split
    · exact Takes.pure _
    · exact hschedule ()
  · exact hschedule ()

theorem markForPolicy_takes (s : SeriesRef) (ms : Int) (status : Status) :
    Takes 1 (markForPolicy s ms status) := by
  unfold markForPolicy
  refine Takes.zero_bind (rollupTarget_takes s ms _) fun target => ?_
  split
  · exact scheduleRollup_takes s _ ms none
  · exact Takes.pure _

/-- Storing a segment gives out the etag of its row. -/
theorem putSegment_takes (w : SeriesWrite) (key : Key) (seg : Segment) (previous : Option String) :
    Takes 1 (putSegment w key seg previous) := by
  unfold putSegment
  refine Takes.nextEtag.bind_zero fun etag => ?_
  extract_lets listing store
  have hstore : ∀ cv, Takes 0 (store cv) := by
    intro cv
    unfold store
    extract_lets row put
    have hput : ∀ u, Takes 0 (put u) := fun _ =>
      Takes.zero_bind (Takes.change _) fun _ => Takes.pure _
    split
    · exact Takes.zero_bind (Takes.change _) hput
    · exact hput ()
  split
  · exact Takes.zero_bind (Takes.newChangeVector etag) hstore
  · exact Takes.zero_bind (Takes.lift _) hstore
  · exact Takes.zero_bind (Takes.pure _) hstore

/-- Encoding anew the segments under some keys gives out at most one etag a key. -/
theorem deleteInSegments_takes (cv : String) (fromMs toMs : Int) :
    ∀ (keys : List Key) (w : SeriesWrite) (earliest : Option Int),
      Takes keys.length (deleteInSegments cv fromMs toMs keys w earliest)
  | [], w, earliest => by
    unfold deleteInSegments
    exact Takes.pure _
  | key :: keys, w, earliest => by
    have hrest := deleteInSegments_takes cv fromMs toMs keys
    unfold deleteInSegments
    extract_lets baseline
    split
    · exact Takes.pure _
    refine Takes.zero_bind Takes.tables fun t => ?_
    split
    · extract_lets stored stop resume next
      -- `resume`: go on to the next key unless the segment reaches past the range
      have hresume : ∀ we, Takes keys.length (resume we) := by
        rintro ⟨w', e'⟩
        unfold resume
        dsimp only
        split
        · exact Takes.pure _
        · exact hrest w' e'
      -- `next`: the segment under this key, encoded anew or not, takes at most one etag
      have hnext : ∀ untouched, Takes (keys.length + 1) (next untouched) := by
        intro untouched
        unfold next
        split
        · exact (Takes.zero_bind (Takes.pure _) hresume).mono (by omega)
        · refine Takes.zero_bind (Takes.lift _) fun killed => ?_
          split
          · exact (Takes.zero_bind (Takes.pure _) hresume).mono (by omega)
          · exact ((putSegment_takes _ _ _ _).bind fun _ =>
              Takes.zero_bind (Takes.pure _) hresume).mono (by omega)
      split
      · exact Takes.zero_bind (Takes.pure _) hnext
      · exact Takes.zero_bind (Takes.lift _) fun _ => Takes.zero_bind (Takes.pure _) hnext
    · exact Takes.pure _

end Txn

/-- The rows a seek from a key visits under a prefix are among the rows under the prefix. -/
theorem Table.length_seekForward_le {α : Type} (tbl : Table α) (p k : Key) :
    (tbl.seekForward p k).length ≤ (tbl.under p).length := by
  -- the rows visited start with the prefix: a sublist of the rows `under` keeps
  have hsub : ∀ (l : List (Key × Row α)) (P Q Q' : Key × Row α → Bool),
      (∀ r, Q r = true → Q' r = true) → ((l.filter P).takeWhile Q).Sublist (l.filter Q') := by
    intro l P Q Q' hQ
    have hall : ∀ r ∈ (l.filter P).takeWhile Q, Q' r = true :=
      fun r hr => hQ r (List.mem_takeWhile_imp hr)
    rw [← List.filter_eq_self.mpr hall]
    exact ((List.takeWhile_sublist Q).trans List.filter_sublist).filter Q'
  unfold Table.seekForward Table.under
  refine (hsub tbl.rows _ _ _ fun r hr => ?_).length_le
  obtain ⟨k', x⟩ := r
  exact hr

namespace Txn

/-- A deletion of a range from a series gives out at most two etags more than the segment rows
of the series: one for its deleted range, one for each segment it encodes anew, and one for the
rollup it schedules. -/
theorem deleteRange_takes {s : SeriesRef} {fromMs toMs : Int} {remote : Option String}
    {ctx : Context} {t t' : Tables} {v v' : Versions} {res : Option String}
    (h : exec (deleteRange s fromMs toMs remote) ctx t v = (.ok (res, t'), v')) :
    v'.lastEtag ≤ v.lastEtag + ((t.segments.under s.pre).length + 2) := by
  unfold deleteRange at h
  obtain ⟨_, -, h⟩ := exec_lift_bind_eq_ok h
  extract_lets pre fromKey write at h
  split at h
  · simp [exec_bind] at h
  unfold write at h
  obtain ⟨etag, t₁, v₁, h₁, h⟩ := exec_bind_eq_ok.mp h
  simp only [exec_nextEtag, Prod.mk.injEq, Except.ok.injEq] at h₁
  obtain ⟨⟨rfl, rfl⟩, rfl⟩ := h₁
  extract_lets record at h
  -- the change vector is carried or stamped, with no etag given out
  obtain ⟨cv, v₂, hv₂, h⟩ : ∃ cv v₂, v₂.lastEtag = v.lastEtag + 1 ∧
      exec (record cv) ctx t v₂ = (.ok (res, t'), v') := by
    split at h
    · obtain ⟨_, t₂, v₂, h₂, h⟩ := exec_bind_eq_ok.mp h
      rw [exec_observeChangeVector] at h₂
      split at h₂
      · simp only [Prod.mk.injEq, Except.ok.injEq] at h₂
        obtain ⟨⟨-, rfl⟩, rfl⟩ := h₂
        rw [exec_bind, exec_pure] at h
        exact ⟨_, _, rfl, h⟩
      · simp at h₂
    · obtain ⟨cv, t₂, v₂, h₂, h⟩ := exec_bind_eq_ok.mp h
      simp only [exec_newChangeVector, Prod.mk.injEq, Except.ok.injEq] at h₂
      obtain ⟨⟨-, rfl⟩, rfl⟩ := h₂
      exact ⟨_, _, rfl, h⟩
  unfold record at h
  extract_lets tomb at h
  -- the deleted range goes in beside the segments
  obtain ⟨_, t₃, v₃, h₃, h⟩ := exec_bind_eq_ok.mp h
  simp only [exec_change, Prod.mk.injEq, Except.ok.injEq] at h₃
  obtain ⟨⟨-, rfl⟩, rfl⟩ := h₃
  rw [exec_tables_bind] at h
  extract_lets start keys at h
  obtain ⟨we, t₄, v₄, h₄, h⟩ := exec_bind_eq_ok.mp h
  have hdel := (deleteInSegments_takes cv fromMs toMs keys _ none).ok h₄
  -- the keys visited are rows of the series
  have hkeys : keys.length ≤ (t.segments.under s.pre).length := by
    simp only [keys]
    clear_value start
    split
    · rw [List.length_map]
      exact Table.length_seekForward_le _ _ _
    · exact Nat.zero_le _
  obtain ⟨w, earliest⟩ := we
  dsimp -zeta only at h
  extract_lets finish at h
  -- the statistics, names and rollup that follow give out at most the rollup's etag
  have hfinish : ∀ u, Takes 0 (finish u) := fun _ => Takes.pure _
  have htail : v'.lastEtag ≤ v₄.lastEtag + 1 := by
    split at h
    · obtain ⟨count, t₅, v₅, h₅, h⟩ := exec_bind_eq_ok.mp h
      have h₅' := (updateStats_takes s _).ok h₅
      extract_lets mark at h
      have hmark : ∀ u, Takes 1 (mark u) := fun _ =>
        (markForPolicy_takes s _ _).bind_zero fun _ => hfinish ()
      split at h
      · obtain ⟨_, t₆, v₆, h₆, h⟩ := exec_bind_eq_ok.mp h
        have h₆' := (removeSeriesName_takes _ _).discard.ok h₆
        have h' := (hmark ()).ok h
        omega
      · have h' := (hmark ()).ok h
        omega
    · have h' := (hfinish ()).ok h
      omega
  omega

end Txn

end SeriesStore
