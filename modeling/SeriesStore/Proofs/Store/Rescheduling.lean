import Mathlib
import SeriesStore.Proofs.Store.SideTables
import SeriesStore.Proofs.Store.TableIndex

/-!
# What a write does to the pending rollups

Writes touch the table of pending rollups in two ways only: they drop the entry under a key, or
they schedule a series anew, under an etag they give out. `Tables.Rescheduled P e e' t t'` says
that from `t` to `t'`, while the etag counter goes from `e` to `e'`, every pending rollup is
kept, dropped, or put anew under an etag given out in between and of a kind `P` allows. Since
the etags come from a counter that only grows, an entry that carries an etag from before `e`
is one that was there at the start.

`Txn.Reschedules P ctx x` says that every successful run of `x` in the context `ctx` gives out
etags upward and reschedules along `P`. It goes through `bind`, so a write is proved to
reschedule one step at a time: steps that write segments, statistics, documents or deleted
ranges keep every pending rollup, dropping an entry keeps the others, and scheduling a series
puts one entry under the series' own key (`scheduleRollup_reschedules`). Deleting samples and
appending samples then reschedule only the series they write, into the policy its chain rolls
it up into (`deleteRange_reschedules`, `appendSamples_reschedules`).
-/

namespace SeriesStore

namespace Tables

/-- From `t` to `t'`, while the etag counter goes from `e` to `e'`, the table of pending rollups
stays sorted with an exact index, and every pending rollup is kept, dropped, or put anew under an
etag given out in between, as `P` allows at its key. -/
structure Rescheduled (P : Key → Row RollupEntry → Prop) (e e' : Int) (t t' : Tables) : Prop where
  sorted : t.rollups.Sorted → t'.rollups.Sorted
  indexed : t.rollups.IndexExact → t'.rollups.IndexExact
  entry : ∀ k, t'.rollups.get? k = t.rollups.get? k ∨ t'.rollups.get? k = none ∨
    ∃ r, t'.rollups.get? k = some r ∧ e < r.value.etag ∧ r.value.etag ≤ e' ∧ P k r

namespace Rescheduled

variable {P Q : Key → Row RollupEntry → Prop} {e e₁ e' : Int} {t t₁ t' : Tables}

theorem of_rollups (h : t'.rollups = t.rollups) : Rescheduled P e e' t t' :=
  ⟨fun hs => h ▸ hs, fun hi => h ▸ hi, fun _ => .inl (by rw [h])⟩

theorem refl (t : Tables) : Rescheduled P e e' t t := of_rollups rfl

/-- Two reschedulings in turn, the counter growing through both, are one. -/
theorem trans (h₁ : Rescheduled P e e₁ t t₁) (h₂ : Rescheduled P e₁ e' t₁ t') (he : e ≤ e₁)
    (he' : e₁ ≤ e') : Rescheduled P e e' t t' := by
  refine ⟨h₂.sorted ∘ h₁.sorted, h₂.indexed ∘ h₁.indexed, fun k => ?_⟩
  rcases h₂.entry k with h | h | ⟨r, hr, hlo, hhi, hP⟩
  · rcases h₁.entry k with h' | h' | ⟨r, hr, hlo, hhi, hP⟩
    · exact .inl (h.trans h')
    · exact .inr (.inl (h.trans h'))
    · exact .inr (.inr ⟨r, h.trans hr, hlo, hhi.trans he', hP⟩)
  · exact .inr (.inl h)
  · exact .inr (.inr ⟨r, hr, lt_of_le_of_lt he hlo, hhi, hP⟩)

theorem mono (h : Rescheduled P e e' t t') (hPQ : ∀ k r, P k r → Q k r) :
    Rescheduled Q e e' t t' := by
  refine ⟨h.sorted, h.indexed, fun k => ?_⟩
  rcases h.entry k with h | h | ⟨r, hr, hlo, hhi, hP⟩
  · exact .inl h
  · exact .inr (.inl h)
  · exact .inr (.inr ⟨r, hr, hlo, hhi, hPQ k r hP⟩)

/-- Dropping the entry under a key reschedules along anything. -/
theorem remove (t : Tables) (key : Key) :
    Rescheduled P e e' t { t with rollups := (t.rollups.remove key).1 } := by
  refine ⟨fun hs => hs.remove key, fun hi => hi.remove key, fun k => ?_⟩
  by_cases hk : key = k
  · subst hk
    exact .inr (.inl (Table.get?_remove_self _ _))
  · exact .inl (Table.get?_remove_of_ne _ hk)

/-- Putting an entry under a key with an etag given out in between reschedules along `P` when
`P` allows the row at the key. -/
theorem insert (t : Tables) (key : Key) (entry : RollupEntry) (i : Option Int)
    (hlo : e < entry.etag) (hhi : entry.etag ≤ e') (hP : P key ⟨entry, i⟩) :
    Rescheduled P e e' t { t with rollups := (t.rollups.insert key entry i).1 } := by
  refine ⟨fun hs => hs.insert key entry i, fun hi => hi.insert key entry i, fun k => ?_⟩
  by_cases hk : key = k
  · subst hk
    exact .inr (.inr ⟨_, Table.get?_insert_self _ _ _ _, hlo, hhi, hP⟩)
  · exact .inl (Table.get?_insert_of_ne _ hk _ _)

end Rescheduled

theorem addSeriesName_rollups {t t' : Tables} {doc name : String} {b : Bool}
    (h : t.addSeriesName doc name = .ok (t', b)) : t'.rollups = t.rollups := by
  unfold Tables.addSeriesName at h
  split at h
  · cases h
    rfl
  · split at h
    · cases h
      rfl
    · obtain ⟨d, -, h⟩ := Except.bind_eq_ok.mp h
      cases h
      rfl

end Tables

/-- Under `ctx`, a write to `s` rolls up into `next`: the policy after the one that wrote `s` in
its collection's chain, which is configured and not disabled. -/
def Context.RollsInto (ctx : Context) (s : SeriesRef) (next : Policy) : Prop :=
  ∃ cfg chain i, ctx.configuration = some cfg ∧ cfg.collection? s.collection = some chain ∧
    chain.disabled = false ∧ chain.indexBySeries s.name = some i ∧ chain.nextPolicy i = .named next

namespace Txn

open SeriesStore.Tables

variable {α β : Type}

/-- Every successful run of `x` in the context `ctx` gives out etags upward and reschedules the
pending rollups along `P`. -/
structure Reschedules (P : Key → Row RollupEntry → Prop) (ctx : Context) (x : Txn α) : Prop where
  ok : ∀ {t v a t' v'}, exec x ctx t v = (.ok (a, t'), v') →
    v.lastEtag ≤ v'.lastEtag ∧ Rescheduled P v.lastEtag v'.lastEtag t t'

namespace Reschedules

variable {P Q : Key → Row RollupEntry → Prop} {ctx : Context}

/-- A step whose successful runs keep the tables and give out no etag. -/
theorem of_keep {x : Txn α}
    (h : ∀ {t v a t' v'}, exec x ctx t v = (.ok (a, t'), v') → t' = t ∧ v'.lastEtag = v.lastEtag) :
    Reschedules P ctx x := by
  constructor
  intro t v a t' v' hx
  obtain ⟨rfl, hv⟩ := h hx
  exact ⟨hv.ge, Rescheduled.refl _⟩

/-- A step that only reads. -/
theorem of_exec {x : Txn α} (hx : ∀ t v, ∃ a, exec x ctx t v = (.ok (a, t), v)) :
    Reschedules P ctx x :=
  of_keep fun h => by
    obtain ⟨a, hx⟩ := hx _ _
    rw [hx, Prod.mk.injEq, Except.ok.injEq, Prod.mk.injEq] at h
    obtain ⟨⟨-, rfl⟩, rfl⟩ := h
    exact ⟨rfl, rfl⟩

theorem bind {x : Txn α} {f : α → Txn β} (hx : Reschedules P ctx x)
    (hf : ∀ a, Reschedules P ctx (f a)) : Reschedules P ctx (x >>= f) := by
  constructor
  intro t v b t'' v'' h
  obtain ⟨a, t', v', h₁, h₂⟩ := exec_bind_eq_ok.mp h
  obtain ⟨hv₁, hr₁⟩ := hx.ok h₁
  obtain ⟨hv₂, hr₂⟩ := (hf a).ok h₂
  exact ⟨hv₁.trans hv₂, hr₁.trans hr₂ hv₁ hv₂⟩

theorem mono {x : Txn α} (hx : Reschedules P ctx x) (hPQ : ∀ k r, P k r → Q k r) :
    Reschedules Q ctx x :=
  ⟨fun h => ⟨(hx.ok h).1, (hx.ok h).2.mono hPQ⟩⟩

theorem throw (e : Error) : Reschedules P ctx (throw e : Txn α) := by
  constructor
  intro _ _ _ _ _ h
  simp at h

theorem pure (a : α) : Reschedules P ctx (pure a) := of_exec fun _ _ => ⟨a, rfl⟩

theorem tables : Reschedules P ctx tables := of_exec fun t _ => ⟨t, rfl⟩

theorem now : Reschedules P ctx now := of_exec fun _ _ => ⟨_, rfl⟩

theorem configuration : Reschedules P ctx configuration := of_exec fun _ _ => ⟨_, rfl⟩

theorem lift (r : Outcome α) : Reschedules P ctx (lift r) := by
  cases r with
  | ok a => exact of_exec fun _ _ => ⟨a, rfl⟩
  | error e => exact throw e

theorem liftFault (r : Except Fault α) : Reschedules P ctx (liftFault r) := by
  cases r with
  | ok a => exact of_exec fun _ _ => ⟨a, rfl⟩
  | error f => exact throw (.fault f)

theorem nextEtag : Reschedules P ctx nextEtag := by
  constructor
  intro t v a t' v' h
  simp only [exec_nextEtag, Prod.mk.injEq, Except.ok.injEq] at h
  obtain ⟨⟨-, rfl⟩, rfl⟩ := h
  exact ⟨by simp, Rescheduled.refl t⟩

theorem newChangeVector (etag : Int) : Reschedules P ctx (newChangeVector etag) :=
  of_keep fun h => by
    simp only [exec_newChangeVector, Prod.mk.injEq, Except.ok.injEq] at h
    obtain ⟨⟨-, rfl⟩, rfl⟩ := h
    exact ⟨rfl, rfl⟩

theorem observeChangeVector (text : String) : Reschedules P ctx (observeChangeVector text) :=
  of_keep fun h => by
    rw [exec_observeChangeVector] at h
    split at h
    · simp only [Prod.mk.injEq, Except.ok.injEq] at h
      obtain ⟨⟨-, rfl⟩, rfl⟩ := h
      exact ⟨rfl, rfl⟩
    · simp at h

/-- A change that leaves the pending rollups as they are. -/
theorem change {f : Tables → Tables} (hf : ∀ t, (f t).rollups = t.rollups) :
    Reschedules P ctx (change f) := by
  constructor
  intro t v a t' v' h
  simp only [exec_change, Prod.mk.injEq, Except.ok.injEq] at h
  obtain ⟨⟨-, rfl⟩, rfl⟩ := h
  exact ⟨le_refl _, Rescheduled.of_rollups (hf t)⟩

theorem discard {x : Txn α} (hx : Reschedules P ctx x) :
    Reschedules P ctx (Functor.discard x) := by
  have h : (Functor.discard x : Txn PUnit) = x >>= fun _ => Pure.pure PUnit.unit := by
    rw [Functor.discard, map_const, Function.comp_apply, ← bind_pure_comp]
  rw [h]
  exact hx.bind fun _ => pure _

theorem foldlM {γ : Type} {f : β → γ → Txn β} :
    ∀ {l : List γ}, (∀ b, ∀ c ∈ l, Reschedules P ctx (f b c)) → ∀ init,
      Reschedules P ctx (l.foldlM f init)
  | [], _, init => pure init
  | c :: l, hf, init => by
    rw [List.foldlM_cons]
    exact (hf init c List.mem_cons_self).bind fun b =>
      foldlM (fun b' c' hc' => hf b' c' (List.mem_cons_of_mem c hc')) b

theorem forIn {γ : Type} {f : γ → β → Txn (ForInStep β)} :
    ∀ {l : List γ}, (∀ c ∈ l, ∀ b, Reschedules P ctx (f c b)) → ∀ init,
      Reschedules P ctx (ForIn.forIn l init f)
  | [], _, init => by
    rw [List.forIn_nil]
    exact pure init
  | c :: l, hf, init => by
    rw [List.forIn_cons]
    refine (hf c List.mem_cons_self init).bind fun step => ?_
    cases step with
    | done b => exact pure b
    | yield b => exact forIn (fun c' hc' => hf c' (List.mem_cons_of_mem c hc')) b

theorem filterMapM {γ : Type} {f : γ → Txn (Option β)} :
    ∀ {l : List γ}, (∀ c ∈ l, Reschedules P ctx (f c)) → Reschedules P ctx (l.filterMapM f)
  | [], _ => by
    rw [List.filterMapM_nil]
    exact pure _
  | c :: l, hf => by
    rw [List.filterMapM_cons]
    have hrest := filterMapM fun c' hc' => hf c' (List.mem_cons_of_mem c hc')
    refine (hf c List.mem_cons_self).bind fun found => ?_
    cases found with
    | none => exact hrest
    | some b => exact hrest.bind fun _ => pure _

/-- A bind whose rest needs only what the first step can answer. -/
theorem bind_answer {x : Txn α} {f : α → Txn β} {A : α → Prop} (hx : Reschedules P ctx x)
    (hans : ∀ {t v a t' v'}, exec x ctx t v = (.ok (a, t'), v') → A a)
    (hf : ∀ a, A a → Reschedules P ctx (f a)) : Reschedules P ctx (x >>= f) := by
  constructor
  intro t v b t'' v'' h
  obtain ⟨a, t', v', h₁, h₂⟩ := exec_bind_eq_ok.mp h
  obtain ⟨hv₁, hr₁⟩ := hx.ok h₁
  obtain ⟨hv₂, hr₂⟩ := (hf a (hans h₁)).ok h₂
  exact ⟨hv₁.trans hv₂, hr₁.trans hr₂ hv₁ hv₂⟩

end Reschedules

/-! ## Writes that keep every pending rollup -/

section Keep

variable {P : Key → Row RollupEntry → Prop} {ctx : Context}

theorem putSegment_reschedules (w : SeriesWrite) (key : Key) (seg : Segment)
    (previous : Option String) : Reschedules P ctx (putSegment w key seg previous) := by
  unfold putSegment
  refine Reschedules.nextEtag.bind fun etag => ?_
  extract_lets listing store
  have hstore : ∀ cv, Reschedules P ctx (store cv) := by
    intro cv
    unfold store
    extract_lets row put
    have hput : ∀ u, Reschedules P ctx (put u) := fun _ =>
      Reschedules.bind (Reschedules.change fun _ => rfl) fun _ => Reschedules.pure _
    split
    · exact Reschedules.bind (Reschedules.change fun _ => rfl) hput
    · exact hput ()
  split
  · exact (Reschedules.newChangeVector etag).bind hstore
  · exact (Reschedules.lift _).bind hstore
  · exact (Reschedules.pure _).bind hstore

theorem putPacked_reschedules (w : SeriesWrite) (segments : List (Int × Segment))
    (previous : Option String) : Reschedules P ctx (putPacked w segments previous) :=
  Reschedules.foldlM (fun _ _ _ => putSegment_reschedules _ _ _ _) w

theorem writeNewSegments_reschedules (w : SeriesWrite) (ps : List Point) :
    Reschedules P ctx (writeNewSegments w ps) :=
  (Reschedules.lift _).bind fun segs => putPacked_reschedules w segs none

theorem appendInOrder_reschedules (w : SeriesWrite) (key : Key) (row : SegmentRow)
    (baseline : Int) (run : List Point) :
    Reschedules P ctx (appendInOrder w key row baseline run) := by
  unfold appendInOrder
  refine (Reschedules.liftFault _).bind fun r => ?_
  dsimp -zeta only
  extract_lets rest
  have hrest : ∀ w₁, Reschedules P ctx (rest w₁) := by
    intro w₁
    unfold rest
    split
    · exact writeNewSegments_reschedules _ _
    · exact Reschedules.pure _
  split
  · exact (putSegment_reschedules _ _ _ _).bind hrest
  · exact (Reschedules.pure _).bind hrest

theorem splitSegment_reschedules (w : SeriesWrite) (key : Key) (row : SegmentRow)
    (baseline : Int) (run : List Point) :
    Reschedules P ctx (splitSegment w key row baseline run) := by
  unfold splitSegment
  refine (Reschedules.lift _).bind fun stored => ?_
  extract_lets merged
  exact (Reschedules.lift _).bind fun packed =>
    Reschedules.bind (Reschedules.change fun _ => rfl) fun _ => putPacked_reschedules _ _ _

/-- Writing points run by run writes segments only. -/
theorem writeRuns_reschedules (w : SeriesWrite) (ps : List Point) :
    Reschedules P ctx (writeRuns w ps) := by
  induction w, ps using writeRuns.induct with
  | case1 w =>
    rw [writeRuns.eq_1]
    exact Reschedules.pure _
  | case2 w p more ih =>
    rw [writeRuns.eq_2]
    refine Reschedules.tables.bind fun t => ?_
    dsimp -zeta only
    extract_lets holder nextBaseline run
    clear_value holder nextBaseline run
    cases run with
    | nil => exact Reschedules.throw _
    | cons q qs =>
      dsimp -zeta only
      extract_lets jp
      have hjp : ∀ w₁, Reschedules P ctx (jp w₁) := fun w₁ => ih qs w₁
      cases holder with
      | none => exact (writeNewSegments_reschedules _ _).bind hjp
      | some hd =>
        obtain ⟨key, row⟩ := hd
        dsimp -zeta only
        extract_lets baseline
        split
        · exact (appendInOrder_reschedules _ _ _ _ _).bind hjp
        · exact (splitSegment_reschedules _ _ _ _ _).bind hjp

theorem updateStats_reschedules (s : SeriesRef) (liveDelta : Int) :
    Reschedules P ctx (updateStats s liveDelta) := by
  unfold updateStats
  refine Reschedules.tables.bind fun t => ?_
  extract_lets previous count record
  have hrecord : ∀ bounds, Reschedules P ctx (record bounds) := by
    intro bounds
    unfold record
    split
    · exact Reschedules.bind (Reschedules.change fun _ => rfl) fun _ => Reschedules.pure _
    · exact Reschedules.bind (Reschedules.change fun t => removeStats_rollups t s) fun _ => Reschedules.pure _
  split
  · exact (Reschedules.lift _).bind hrecord
  · exact (Reschedules.pure _).bind hrecord

theorem addSeriesName_reschedules (doc name : String) :
    Reschedules P ctx (addSeriesName doc name) := by
  constructor
  intro t v a t' v' h
  unfold addSeriesName at h
  rw [exec_bind, exec_tables] at h
  dsimp only at h
  cases hr : t.addSeriesName doc name with
  | error e => simp [hr, exec_bind] at h
  | ok p =>
    obtain ⟨t₀, b⟩ := p
    simp only [hr, exec_lift_ok, exec_bind, exec_set, exec_pure, Prod.mk.injEq,
      Except.ok.injEq] at h
    obtain ⟨⟨-, rfl⟩, rfl⟩ := h
    exact ⟨le_refl _, Rescheduled.of_rollups (addSeriesName_rollups hr)⟩

theorem removeSeriesName_reschedules (doc name : String) :
    Reschedules P ctx (removeSeriesName doc name) := by
  constructor
  intro t v a t' v' h
  unfold removeSeriesName at h
  rw [exec_bind, exec_tables] at h
  dsimp only at h
  cases hr : t.removeSeriesName doc name with
  | error e => simp [hr, exec_bind] at h
  | ok p =>
    obtain ⟨t₀, b⟩ := p
    simp only [hr, exec_lift_ok, exec_bind, exec_set, exec_pure, Prod.mk.injEq,
      Except.ok.injEq] at h
    obtain ⟨⟨-, rfl⟩, rfl⟩ := h
    exact ⟨le_refl _, Rescheduled.of_rollups (removeSeriesName_frame hr).2.1⟩

theorem syncSeriesName_reschedules (s : SeriesRef) (count : Nat) :
    Reschedules P ctx (syncSeriesName s count) := by
  unfold syncSeriesName
  split
  · exact (addSeriesName_reschedules _ _).discard
  · exact (removeSeriesName_reschedules _ _).discard

theorem suppressDeleted_reschedules (pre : Key) (remote : String) (ps : List Point) :
    Reschedules P ctx (suppressDeleted pre remote ps) := by
  unfold suppressDeleted unseenTombstones
  refine Reschedules.bind (Reschedules.tables.bind fun t => Reschedules.filterMapM fun c _ =>
    (Reschedules.lift _).bind fun _ => Reschedules.pure _) fun ts => ?_
  split <;> exact Reschedules.pure _

/-- Encoding segments anew for a deletion writes segments only. -/
theorem deleteInSegments_reschedules (cv : String) (fromMs toMs : Int) :
    ∀ (keys : List Key) w earliest,
      Reschedules P ctx (deleteInSegments cv fromMs toMs keys w earliest)
  | [], w, earliest => by
    unfold deleteInSegments
    exact Reschedules.pure _
  | key :: keys, w, earliest => by
    have hrest := deleteInSegments_reschedules cv fromMs toMs keys
    unfold deleteInSegments
    extract_lets baseline
    split
    · exact Reschedules.pure _
    refine Reschedules.tables.bind fun t => ?_
    split
    · extract_lets stored stop resume next
      have hresume : ∀ we, Reschedules P ctx (resume we) := by
        rintro ⟨w', e'⟩
        unfold resume
        dsimp only
        split
        · exact Reschedules.pure _
        · exact hrest w' e'
      have hnext : ∀ untouched, Reschedules P ctx (next untouched) := by
        intro untouched
        unfold next
        split
        · exact (Reschedules.pure _).bind hresume
        · refine (Reschedules.lift _).bind fun killed => ?_
          split
          · exact (Reschedules.pure _).bind hresume
          · exact (putSegment_reschedules _ _ _ _).bind fun _ =>
              (Reschedules.pure _).bind hresume
      split
      · exact (Reschedules.pure _).bind hnext
      · exact (Reschedules.lift _).bind fun _ => (Reschedules.pure _).bind hnext
    · exact Reschedules.pure _

end Keep

/-! ## Writes that schedule a series -/

/-- Finding the policy a write rolls up into reads the configuration and the clock only. -/
theorem rollupTarget_reschedules {P : Key → Row RollupEntry → Prop} {ctx : Context}
    (s : SeriesRef) (ms : Int) (dead : Bool) : Reschedules P ctx (rollupTarget s ms dead) := by
  unfold rollupTarget
  refine Reschedules.configuration.bind fun found => ?_
  split <;> [skip; exact Reschedules.pure _]
  split <;> [skip; exact Reschedules.pure _]
  split <;> [exact Reschedules.pure _; skip]
  split <;> [skip; exact Reschedules.pure _]
  split <;> [skip; exact Reschedules.pure _]
  extract_lets answer
  split <;> [skip; exact Reschedules.pure _]
  split <;> [skip; exact Reschedules.pure _]
  extract_lets retention
  split <;> [skip; exact Reschedules.pure _]
  refine (Reschedules.lift _).bind fun due => ?_
  refine Reschedules.now.bind fun clock => ?_
  split <;> exact Reschedules.pure _

theorem rollupTarget_answers {ctx : Context} {s : SeriesRef} {ms : Int} {dead : Bool}
    {next : Policy} {t t' : Tables} {v v' : Versions}
    (h : exec (rollupTarget s ms dead) ctx t v = (.ok (some next, t'), v')) :
    ctx.RollsInto s next := by
  unfold rollupTarget at h
  rw [exec_bind, exec_configuration] at h
  dsimp only at h
  split at h
  · next cfg hcfg =>
    split at h
    · next chain hchain =>
      split at h
      · simp at h
      · next hdis =>
        split at h
        · next i hi =>
          split at h
          · next n hn =>
            -- every exit past the chain answers `none` or `some n`
            have hnext : n = next := by
              split at h
              · split at h
                · split at h
                  · obtain ⟨due, t₁, v₁, -, h⟩ := exec_bind_eq_ok.mp h
                    obtain ⟨clock, t₂, v₂, -, h⟩ := exec_bind_eq_ok.mp h
                    split at h <;> simp_all
                  · simp_all
                · simp_all
              · simp_all
            subst hnext
            exact ⟨cfg, chain, i, hcfg, hchain, by simpa using hdis, hi, hn⟩
          · simp at h
        · simp at h
    · simp at h
  · simp at h


section Schedule

variable {P : Key → Row RollupEntry → Prop} {ctx : Context}

theorem dropRollup_reschedules (key : Key) : Reschedules P ctx (dropRollup key) := by
  constructor
  intro t v a t' v' h
  simp only [dropRollup, exec_change, Prod.mk.injEq, Except.ok.injEq] at h
  obtain ⟨⟨-, rfl⟩, rfl⟩ := h
  exact ⟨le_refl _, Rescheduled.remove t key⟩

/-- The rows that scheduling `s` into `next` from the bucket of `ms` may put: entries of `s` into
`next`, due at their index, the start of the bucket after the one of `ms`. -/
def Scheduled (s : SeriesRef) (next : Policy) (ms : Int) (r : Row RollupEntry) : Prop :=
  ∃ due, nextRollup ms next = .ok due ∧ r.value.series = s ∧ r.value.policy = next.name ∧
    r.index = some due

/-- Scheduling `s` puts at most one entry, under the key of `s`. -/
theorem scheduleRollup_reschedules {s : SeriesRef} {next : Policy} {ms : Int}
    (hP : ∀ r, Scheduled s next ms r → P s.key r) (cv : Option String) :
    Reschedules P ctx (scheduleRollup s next ms cv) := by
  unfold scheduleRollup
  refine Reschedules.bind_answer (A := fun due => nextRollup ms next = .ok due)
    (Reschedules.lift _) ?_ fun due hdue => Reschedules.tables.bind fun t => ?_
  · intro t v a t' v' h
    cases hr : nextRollup ms next with
    | error e => simp [hr] at h
    | ok d =>
      simp only [hr, exec_lift_ok, Prod.mk.injEq, Except.ok.injEq] at h
      rw [h.1.1]
  extract_lets schedule
  -- `schedule`: an etag, a change vector, then the entry under the key of `s`
  have hschedule : ∀ u, Reschedules P ctx (schedule u) := by
    intro u
    constructor
    intro t₁ v₁ a t' v' h
    unfold schedule at h
    obtain ⟨etag, t₂, v₂, h₁, h₂⟩ := exec_bind_eq_ok.mp h
    simp only [exec_nextEtag, Prod.mk.injEq, Except.ok.injEq] at h₁
    obtain ⟨⟨rfl, rfl⟩, rfl⟩ := h₁
    extract_lets jp at h₂
    -- the entry goes in under the key of `s`, whichever change vector it carries
    have hjp : ∀ cv v₃ a t', v₃.lastEtag = v₁.lastEtag + 1 →
        exec (jp cv) ctx t₁ v₃ = (.ok (a, t'), v') →
        v₁.lastEtag ≤ v'.lastEtag ∧ Rescheduled P v₁.lastEtag v'.lastEtag t₁ t' := by
      intro cv v₃ a t' hv₃ h
      simp only [jp, exec_change, Prod.mk.injEq, Except.ok.injEq] at h
      obtain ⟨⟨-, rfl⟩, rfl⟩ := h
      refine ⟨by omega, Rescheduled.insert _ _ _ _ (by simp) (by simp [hv₃]) (hP _ ?_)⟩
      exact ⟨due, hdue, rfl, rfl, rfl⟩
    split at h₂
    · obtain ⟨cv', t₃, v₃, h₃, h₄⟩ := exec_bind_eq_ok.mp h₂
      simp only [exec_pure, Prod.mk.injEq, Except.ok.injEq] at h₃
      obtain ⟨⟨-, rfl⟩, rfl⟩ := h₃
      exact hjp _ _ _ _ rfl h₄
    · obtain ⟨cv', t₃, v₃, h₃, h₄⟩ := exec_bind_eq_ok.mp h₂
      simp only [exec_newChangeVector, Prod.mk.injEq, Except.ok.injEq] at h₃
      obtain ⟨⟨-, rfl⟩, rfl⟩ := h₃
      exact hjp _ _ _ _ rfl h₄
  split
  · split
    · exact Reschedules.pure _
    · exact hschedule ()
  · exact hschedule ()

/-- Scheduling the rollup a write of `s` calls for puts at most one entry, under the key of `s`,
into a policy a write to `s` rolls up into under `ctx`. -/
theorem markForPolicy_reschedules {s : SeriesRef} {ms : Int}
    (hP : ∀ next r, ctx.RollsInto s next → Scheduled s next ms r → P s.key r) (status : Status) :
    Reschedules P ctx (markForPolicy s ms status) := by
  unfold markForPolicy
  refine Reschedules.bind_answer (A := fun target => ∀ next, target = some next → ctx.RollsInto s next)
    (rollupTarget_reschedules s ms _) (fun h next hn => rollupTarget_answers (hn ▸ h))
    fun target htarget => ?_
  rcases target with _ | next
  · exact Reschedules.pure _
  · exact scheduleRollup_reschedules (fun r hr => hP next r (htarget next rfl) hr) none

/-- Deleting samples of `s` reschedules `s` only, into a policy a write to `s` rolls up into. -/
theorem deleteRange_reschedules {s : SeriesRef}
    (hP : ∀ next ms r, ctx.RollsInto s next → Scheduled s next ms r → P s.key r)
    (fromMs toMs : Int) (remote : Option String) :
    Reschedules P ctx (deleteRange s fromMs toMs remote) := by
  unfold deleteRange
  refine (Reschedules.lift _).bind fun _ => ?_
  extract_lets pre fromKey write
  -- `write`: the deletion once the range is known to be well formed
  have hwrite : ∀ u, Reschedules P ctx (write u) := by
    intro u
    unfold write
    refine Reschedules.nextEtag.bind fun etag => ?_
    extract_lets record
    -- `record`: the deleted range, the segments, then the statistics, names and rollups
    have hrecord : ∀ cv, Reschedules P ctx (record cv) := by
      intro cv
      unfold record
      extract_lets tomb
      refine Reschedules.bind (Reschedules.change fun _ => rfl) fun _ => ?_
      refine Reschedules.tables.bind fun t => ?_
      extract_lets start keys
      refine (deleteInSegments_reschedules cv fromMs toMs keys _ _).bind fun we => ?_
      obtain ⟨w, earliest⟩ := we
      dsimp -zeta only
      extract_lets finish
      split
      · refine (updateStats_reschedules s _).bind fun count => ?_
        extract_lets mark
        have hmark : ∀ u, Reschedules P ctx (mark u) := fun _ =>
          (markForPolicy_reschedules (fun next r hn hr => hP next _ r hn hr) _).bind fun _ =>
            Reschedules.pure _
        split
        · exact (removeSeriesName_reschedules _ _).discard.bind hmark
        · exact hmark ()
      · exact Reschedules.pure _
    split
    · exact (Reschedules.observeChangeVector _).bind fun _ => (Reschedules.pure _).bind hrecord
    · exact (Reschedules.newChangeVector _).bind hrecord
  split
  · exact (Reschedules.throw _).bind hwrite
  · exact hwrite ()

/-- Appending samples to `s` reschedules `s` only, into a policy a write to `s` rolls up into. -/
theorem appendSamples_reschedules {s : SeriesRef}
    (hP : ∀ next ms r, ctx.RollsInto s next → Scheduled s next ms r → P s.key r)
    (samples : List Sample) (remote : Option String) (allowNan : Bool) :
    Reschedules P ctx (appendSamples s samples remote allowNan) := by
  unfold appendSamples
  refine (Reschedules.lift _).bind fun _ => (Reschedules.lift _).bind fun _ => ?_
  refine Reschedules.bind (Reschedules.forIn (fun x _ _ =>
    (Reschedules.lift _).bind fun _ => Reschedules.pure _) _) fun _ => ?_
  refine Reschedules.tables.bind fun t => ?_
  extract_lets ps write
  -- `write`: the runs, then statistics, names and the rollup of `s`
  have hwrite : ∀ u, Reschedules P ctx (write u) := by
    intro u
    unfold write
    clear_value ps
    cases ps with
    | nil => exact Reschedules.pure _
    | cons first tail =>
      dsimp -zeta only
      extract_lets finish
      have hfinish : ∀ ps', Reschedules P ctx (finish ps') := by
        intro ps'
        unfold finish
        refine (writeRuns_reschedules _ _).bind fun w => ?_
        refine (updateStats_reschedules s _).bind fun c => ?_
        refine (syncSeriesName_reschedules s c).bind fun _ => ?_
        exact (markForPolicy_reschedules (fun next r hn hr => hP next _ r hn hr) _).bind fun _ =>
          Reschedules.pure _
      split
      · exact (Reschedules.observeChangeVector _).bind fun _ =>
          (suppressDeleted_reschedules _ _ _).bind hfinish
      · exact (Reschedules.pure _).bind hfinish
  split
  · exact (Reschedules.throw _).bind hwrite
  · exact hwrite ()

end Schedule

end Txn

end SeriesStore
