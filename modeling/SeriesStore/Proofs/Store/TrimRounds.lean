import Mathlib
import SeriesStore.Proofs.Store.TableWeight
import SeriesStore.Proofs.Store.RangeDeletion
import SeriesStore.Proofs.Store.Rounds
import SeriesStore.Proofs.Store.SideTables

/-!
# Retention rounds stop

A round of retention deletes, for each series of a batch, its samples from the first instant up
to a cutoff, and asks for more when a deletion answered with a change vector: when it encoded a
segment anew. A deletion encodes a segment anew only when the segment holds a live sample in
the range, and the segment it writes holds none (`killRange_spec`). So the segments still
holding a live sample up to the cutoff (`Tables.trimsLeft`) never grow over a deletion, and
grow fewer with each one that answers (`Txn.deleteRange_trimmed`). They are at most the
segments, fewer than the rounds a pass allows, so the retention loop of a policy ends on its own
(`Pass.retainRound_stops`), from every database whose segments read back as the samples they
were built from (`Tables.SegmentsBuilt`), which the rounds keep.
-/

namespace SeriesStore

/-- Whether the segment of a row holds a live sample in `[fromMs, toMs]`, read at the baseline
of the key it is stored under: a segment a deletion of the range still has to encode anew. -/
def SegmentRow.trimWeight (fromMs toMs : Int) (k : Key) (r : Row SegmentRow) : Nat :=
  match r.value.segment.samples with
  | .ok es =>
    if es.any (fun e => e.isLive && e.inRange ((Key.baselineOf k).getD 0) fromMs toMs) then 1
    else 0
  | .error _ => 0

namespace Tables

/-- The segments still holding a live sample in `[fromMs, toMs]`. -/
def trimsLeft (fromMs toMs : Int) (t : Tables) : Nat :=
  t.segments.weight (SegmentRow.trimWeight fromMs toMs)

/-- Every stored segment reads back as the samples it was built from. -/
def SegmentsBuilt (t : Tables) : Prop :=
  ∀ k r, t.segments.get? k = some r → ∃ es, r.value.segment.Built es

/-- A stretch of retention from `t` to `t'`: the segments stay built, and the segments still
holding a live sample in `[fromMs, toMs]` drop by at least `n`. -/
structure Trimmed (fromMs toMs : Int) (t t' : Tables) (n : Nat) : Prop where
  built : t.SegmentsBuilt → t'.SegmentsBuilt
  lowers : t.SegmentsBuilt → t'.trimsLeft fromMs toMs + n ≤ t.trimsLeft fromMs toMs

namespace Trimmed

variable {fromMs toMs : Int} {t t₁ t' : Tables} {m n : Nat}

theorem of_segments (h : t'.segments = t.segments) : Trimmed fromMs toMs t t' 0 :=
  ⟨fun hb => by unfold SegmentsBuilt; rw [h]; exact hb,
    fun _ => by simp only [trimsLeft, h, Nat.add_zero, le_refl]⟩

theorem refl (t : Tables) : Trimmed fromMs toMs t t 0 := of_segments rfl

theorem trans (h₁ : Trimmed fromMs toMs t t₁ m) (h₂ : Trimmed fromMs toMs t₁ t' n) :
    Trimmed fromMs toMs t t' (m + n) :=
  ⟨h₂.built ∘ h₁.built, fun hb => by
    have := h₁.lowers hb
    have := h₂.lowers (h₁.built hb)
    omega⟩

theorem weaken (h : Trimmed fromMs toMs t t' n) (hmn : m ≤ n) : Trimmed fromMs toMs t t' m :=
  ⟨h.built, fun hb => by have := h.lowers hb; omega⟩

end Trimmed

theorem trimWeight_le_one (fromMs toMs : Int) (k : Key) (r : Row SegmentRow) :
    SegmentRow.trimWeight fromMs toMs k r ≤ 1 := by
  unfold SegmentRow.trimWeight
  split
  · split <;> omega
  · omega

/-- Putting, under a key, the segment that deleting `[fromMs, toMs]` from the segment stored
there made takes that segment off the ones left to trim, and keeps the segments built. -/
theorem Trimmed.insert_killed {fromMs toMs : Int} {t t' : Tables} {key : Key}
    {row : Row SegmentRow} {s' : Segment} {removed : Int} {val : SegmentRow} {i : Option Int}
    (hget : t.segments.get? key = some row)
    (hk : killRange row.value.segment ((Key.baselineOf key).getD 0) fromMs toMs =
      .ok (some (s', removed)))
    (hval : val.segment = s') (ht' : t'.segments = (t.segments.insert key val i).1) :
    Trimmed fromMs toMs t t' 1 := by
  -- the segment written is built from the samples of the stored one, those of the range dead
  have hnew : t.SegmentsBuilt → ∃ es es', row.value.segment.Built es ∧ s'.Built es' ∧
      (∃ e ∈ es, e.isLive = true ∧ e.inRange ((Key.baselineOf key).getD 0) fromMs toMs = true) ∧
      ∀ e ∈ es', (e.isLive && e.inRange ((Key.baselineOf key).getD 0) fromMs toMs) = false := by
    intro hb
    obtain ⟨es, hes⟩ := hb key row hget
    rcases killRange_spec hes ((Key.baselineOf key).getD 0) fromMs toMs with
      ⟨hnone, -⟩ | ⟨s'', e, hk', he, hlive, hin, hbuilt⟩
    · rw [hk] at hnone
      cases hnone
    rw [hk] at hk'
    obtain ⟨rfl, -⟩ := Prod.mk.inj (Option.some.inj (Except.ok.inj hk'))
    rcases hbuilt with hbuilt | ⟨-, -, hbuilt⟩
    · refine ⟨es, _, hes, hbuilt, ⟨e, he, hlive, hin⟩, fun e' he' => ?_⟩
      obtain ⟨x, -, rfl⟩ := List.mem_map.mp he'
      by_cases hx : x.inRange ((Key.baselineOf key).getD 0) fromMs toMs = true
      · simp [Entry.killIn, Entry.isLive, hx]
      · have hx' : x.inRange ((Key.baselineOf key).getD 0) fromMs toMs = false := by simpa using hx
        have hkeep : x.killIn ((Key.baselineOf key).getD 0) fromMs toMs = x := by
          simp [Entry.killIn, hx']
        rw [hkeep, hx', Bool.and_false]
    · exact ⟨es, _, hes, hbuilt, ⟨e, he, hlive, hin⟩, fun e' he' => by
        simp [List.mem_singleton.mp he', Entry.isLive]⟩
  refine ⟨fun hb k r hr => ?_, fun hb => ?_⟩
  · rw [ht'] at hr
    by_cases hkey : key = k
    · subst hkey
      rw [Table.get?_insert_self, Option.some.injEq] at hr
      subst hr
      obtain ⟨-, es', -, hbuilt, -⟩ := hnew hb
      exact ⟨es', hval ▸ hbuilt⟩
    · rw [Table.get?_insert_of_ne _ hkey] at hr
      exact hb k r hr
  · obtain ⟨es, es', hes, hbuilt, ⟨e, he, hlive, hin⟩, hdead⟩ := hnew hb
    refine (Table.weight_add_le_of_moves (a := key) (b := key) fun k => ?_ : _ + 1 ≤ _ + 0)
    by_cases hkey : key = k
    · subst hkey
      rw [ht', Table.weightAt_of_get? (Table.get?_insert_self _ _ _ _),
        Table.weightAt_of_get? hget]
      have hold : SegmentRow.trimWeight fromMs toMs key row = 1 := by
        unfold SegmentRow.trimWeight
        rw [hes.sound.samples]
        dsimp only
        rw [if_pos (List.any_eq_true.mpr ⟨e, he, by simp [hlive, hin]⟩)]
      have hzero : SegmentRow.trimWeight fromMs toMs key ⟨val, i⟩ = 0 := by
        unfold SegmentRow.trimWeight
        rw [hval, hbuilt.sound.samples]
        dsimp only
        rw [if_neg]
        simpa using hdead
      simp [hold, hzero]
    · rw [ht', Table.weightAt, Table.weightAt, Table.get?_insert_of_ne _ hkey]
      simp [Ne.symm hkey]

end Tables

namespace Txn

open SeriesStore.Tables

variable {ctx : Context}

/-- Encoding segments anew for a deletion of `[fromMs, toMs]`, local as every write of retention
is, keeps the segments built and adds no segment left to trim; and when the write it carries
gains a change vector, it took one off. -/
theorem deleteInSegments_trimmed (cv : String) (fromMs toMs : Int) :
    ∀ (keys : List Key) (w : SeriesWrite) (e : Option Int) {t : Tables} {v : Versions}
      {we : SeriesWrite × Option Int} {t' : Tables} {v' : Versions}, w.remote = none →
      exec (deleteInSegments cv fromMs toMs keys w e) ctx t v = (.ok (we, t'), v') →
      we.1.remote = none ∧ Trimmed fromMs toMs t t' 0 ∧
        (we.1.changeVector.isSome → w.changeVector.isSome ∨ Trimmed fromMs toMs t t' 1)
  | [], w, e, t, v, we, t', v', hrem, h => by
    unfold deleteInSegments at h
    simp only [exec_pure, Prod.mk.injEq, Except.ok.injEq] at h
    obtain ⟨⟨rfl, rfl⟩, -⟩ := h
    exact ⟨hrem, Trimmed.refl t, Or.inl⟩
  | key :: keys, w, e, t, v, we, t', v', hrem, h => by
    have ih := deleteInSegments_trimmed cv fromMs toMs keys
    -- the run stops here with nothing written
    have hdone : exec (Pure.pure (w, e) : Txn (SeriesWrite × Option Int)) ctx t v =
        (.ok (we, t'), v') →
        we.1.remote = none ∧ Trimmed fromMs toMs t t' 0 ∧
          (we.1.changeVector.isSome → w.changeVector.isSome ∨ Trimmed fromMs toMs t t' 1) := by
      intro h
      simp only [exec_pure, Prod.mk.injEq, Except.ok.injEq] at h
      obtain ⟨⟨rfl, rfl⟩, -⟩ := h
      exact ⟨hrem, Trimmed.refl t, Or.inl⟩
    unfold deleteInSegments at h
    extract_lets baseline at h
    split at h
    · exact hdone h
    rw [exec_tables_bind] at h
    split at h
    · next row hrow =>
      extract_lets stored stop resume next at h
      -- `resume`: the row handled, stop past the range or go on with the rest
      have hresume : ∀ (w₁ : SeriesWrite) (e₁ : Option Int) {t₁ : Tables} {v₁ : Versions},
          w₁.remote = none → exec (resume (w₁, e₁)) ctx t₁ v₁ = (.ok (we, t'), v') →
          we.1.remote = none ∧ Trimmed fromMs toMs t₁ t' 0 ∧
            (we.1.changeVector.isSome → w₁.changeVector.isSome ∨ Trimmed fromMs toMs t₁ t' 1) := by
        intro w₁ e₁ t₁ v₁ hrem₁ h
        unfold resume at h
        dsimp only at h
        split at h
        · simp only [exec_pure, Prod.mk.injEq, Except.ok.injEq] at h
          obtain ⟨⟨rfl, rfl⟩, -⟩ := h
          exact ⟨hrem₁, Trimmed.refl _, Or.inl⟩
        · exact ih w₁ e₁ hrem₁ h
      -- `next`: the row left as it is, or encoded anew with the samples of the range dead
      have hnext : ∀ untouched, exec (next untouched) ctx t v = (.ok (we, t'), v') →
          we.1.remote = none ∧ Trimmed fromMs toMs t t' 0 ∧
            (we.1.changeVector.isSome → w.changeVector.isSome ∨ Trimmed fromMs toMs t t' 1) := by
        intro untouched h
        unfold next at h
        split at h
        · rw [exec_bind, exec_pure] at h
          exact hresume w e hrem h
        obtain ⟨killed, hkill, h⟩ := exec_lift_bind_eq_ok h
        rcases killed with _ | ⟨reencoded, removed⟩
        · rw [exec_bind, exec_pure] at h
          exact hresume w e hrem h
        obtain ⟨w₂, t₁, v₁, h₁, h₂⟩ := exec_bind_eq_ok.mp h
        rw [exec_bind, exec_pure] at h₂
        -- the segment goes in under its key, and the write now carries a change vector
        obtain ⟨w₃, t₃, v₃, h₃, -, hrem₃, -, hcv₃, ⟨val, i, hval, hseg⟩, -⟩ :=
          (putSegment_local (w := w.gain _) hrem key reencoded (some stored.changeVector) :
            Succeeds _ ctx t v _)
        rw [h₁, Prod.mk.injEq, Except.ok.injEq, Prod.mk.injEq] at h₃
        obtain ⟨⟨rfl, rfl⟩, rfl⟩ := h₃
        have htrim : Trimmed fromMs toMs t t₁ 1 := Trimmed.insert_killed hrow hkill hval hseg
        obtain ⟨hrem', hrest, -⟩ := hresume w₂ _ hrem₃ h₂
        exact ⟨hrem', (htrim.trans hrest).weaken (Nat.zero_le _), fun _ => .inr (htrim.trans hrest)⟩
      split at h
      · rw [exec_bind, exec_pure] at h
        exact hnext true h
      · obtain ⟨st, -, h⟩ := exec_lift_bind_eq_ok h
        rw [exec_bind, exec_pure] at h
        exact hnext _ h
    · exact hdone h

/-- A local deletion of `[fromMs, toMs]` keeps the segments built and adds no segment left to
trim; and when it answers a change vector, it took one off. -/
theorem deleteRange_trimmed {s : SeriesRef} {fromMs toMs : Int} {res : Option String}
    {t t' : Tables} {v v' : Versions}
    (h : exec (deleteRange s fromMs toMs none) ctx t v = (.ok (res, t'), v')) :
    Trimmed fromMs toMs t t' 0 ∧ (res.isSome → Trimmed fromMs toMs t t' 1) := by
  unfold deleteRange at h
  obtain ⟨_, -, h⟩ := exec_lift_bind_eq_ok h
  extract_lets pre fromKey write at h
  split at h
  · simp [exec_bind] at h
  unfold write at h
  obtain ⟨etag, t₁, v₁, h₁, h⟩ := exec_bind_eq_ok.mp h
  simp only [exec_nextEtag, Prod.mk.injEq, Except.ok.injEq] at h₁
  obtain ⟨⟨rfl, rfl⟩, rfl⟩ := h₁
  extract_lets record at h
  obtain ⟨cv, t₂, v₂, h₂, h⟩ := exec_bind_eq_ok.mp h
  simp only [exec_newChangeVector, Prod.mk.injEq, Except.ok.injEq] at h₂
  obtain ⟨⟨rfl, rfl⟩, rfl⟩ := h₂
  unfold record at h
  extract_lets tomb at h
  -- the deleted range goes in beside the segments
  obtain ⟨_, t₃, v₃, h₃, h⟩ := exec_bind_eq_ok.mp h
  simp only [exec_change, Prod.mk.injEq, Except.ok.injEq] at h₃
  obtain ⟨⟨-, ht₃⟩, rfl⟩ := h₃
  have hbefore : Trimmed fromMs toMs t t₃ 0 := Trimmed.of_segments (by subst ht₃; rfl)
  rw [exec_tables_bind] at h
  extract_lets start keys at h
  obtain ⟨we, t₄, v₄, h₄, h⟩ := exec_bind_eq_ok.mp h
  obtain ⟨-, hdel, hstrict⟩ := deleteInSegments_trimmed _ fromMs toMs keys _ none rfl h₄
  obtain ⟨w, earliest⟩ := we
  dsimp -zeta only at h
  extract_lets finish at h
  -- the statistics, names and rollups that follow leave the segments as they are
  have hfinish : ∀ u {t₅ v₅}, exec (finish u) ctx t₅ v₅ = (.ok (res, t'), v') →
      t' = t₅ ∧ res = w.changeVector := by
    intro u t₅ v₅ h
    simp only [finish, exec_pure, Prod.mk.injEq, Except.ok.injEq] at h
    exact ⟨h.1.2.symm, h.1.1.symm⟩
  have hrest : t'.segments = t₄.segments ∧ res = w.changeVector := by
    split at h
    · obtain ⟨count, t₅, v₅, h₅, h⟩ := exec_bind_eq_ok.mp h
      have hseg₅ := (updateStats_same s _).ok h₅
      extract_lets mark at h
      have hmark : ∀ u {t₆ v₆}, exec (mark u) ctx t₆ v₆ = (.ok (res, t'), v') →
          t'.segments = t₆.segments ∧ res = w.changeVector := by
        intro u t₆ v₆ h
        unfold mark at h
        obtain ⟨_, t₇, v₇, h₇, h⟩ := exec_bind_eq_ok.mp h
        obtain ⟨rfl, hres⟩ := hfinish () h
        exact ⟨(markForPolicy_same s _ _).ok h₇, hres⟩
      split at h
      · obtain ⟨_, t₆, v₆, h₆, h⟩ := exec_bind_eq_ok.mp h
        obtain ⟨hseg, hres⟩ := hmark () h
        exact ⟨hseg.trans (((removeSeriesName_same _ _).discard.ok h₆).trans hseg₅), hres⟩
      · obtain ⟨hseg, hres⟩ := hmark () h
        exact ⟨hseg.trans hseg₅, hres⟩
    · obtain ⟨rfl, hres⟩ := hfinish () h
      exact ⟨rfl, hres⟩
  obtain ⟨hseg, rfl⟩ := hrest
  have hafter : Trimmed fromMs toMs t₄ t' 0 := Trimmed.of_segments hseg
  refine ⟨(hbefore.trans (hdel.trans hafter)).weaken (Nat.zero_le _), fun hsome => ?_⟩
  rcases hstrict hsome with hnone | hone
  · cases hnone
  · exact (hbefore.trans (hone.trans hafter)).weaken (by omega)

/-- A fold whose every step adds to its count at most as many as the segments it trims takes off
in all at least as many segments as it counts. -/
theorem foldlM_trimmed {γ : Type} {fromMs toMs : Int} {F : Nat → γ → Txn Nat}
    (hF : ∀ n c t v n' t' v', exec (F n c) ctx t v = (.ok (n', t'), v') →
      n ≤ n' ∧ Trimmed fromMs toMs t t' (n' - n)) :
    ∀ (l : List γ) (m : Nat) {t v n t' v'}, exec (l.foldlM F m) ctx t v = (.ok (n, t'), v') →
      m ≤ n ∧ Trimmed fromMs toMs t t' (n - m)
  | [], m, t, v, n, t', v', h => by
    simp only [List.foldlM_nil, exec_pure, Prod.mk.injEq, Except.ok.injEq] at h
    obtain ⟨⟨rfl, rfl⟩, rfl⟩ := h
    exact ⟨le_refl _, (Trimmed.refl _).weaken (by omega)⟩
  | c :: l, m, t, v, n, t', v', h => by
    rw [List.foldlM_cons] at h
    obtain ⟨m', t₁, v₁, h₁, h⟩ := exec_bind_eq_ok.mp h
    obtain ⟨hle₁, htrim₁⟩ := hF m c t v m' t₁ v₁ h₁
    obtain ⟨hle, htrim⟩ := foldlM_trimmed hF l m' h
    exact ⟨hle₁.trans hle, (htrim₁.trans htrim).weaken (by omega)⟩

/-- Trimming a batch of series up to `toMs` keeps the segments built and takes one segment
left to trim off for each series it counts. -/
theorem retain_trimmed (series : List StatsRow) (toMs : Int) {n : Nat} {t t' : Tables}
    {v v' : Versions} (h : exec (retain series toMs) ctx t v = (.ok (n, t'), v')) :
    Trimmed Instant.minMillis toMs t t' n := by
  unfold retain at h
  -- each series counts one exactly when its deletion answers a change vector
  refine (foldlM_trimmed (fun m r t₁ v₁ m' t₂ v₂ h => ?_) series 0 h).2
  obtain ⟨res, t₃, v₃, h₃, h⟩ := exec_bind_eq_ok.mp h
  have hdel := deleteRange_trimmed h₃
  cases res with
  | none =>
    simp only [exec_pure, Prod.mk.injEq, Except.ok.injEq] at h
    obtain ⟨⟨rfl, rfl⟩, rfl⟩ := h
    exact ⟨le_refl _, hdel.1.weaken (by omega)⟩
  | some cv =>
    simp only [exec_pure, Prod.mk.injEq, Except.ok.injEq] at h
    obtain ⟨⟨rfl, rfl⟩, rfl⟩ := h
    exact ⟨by omega, (hdel.2 rfl).weaken (by omega)⟩

end Txn

/-- The count of rounds a pass allows exceeds the segments left to trim in any range. -/
theorem Database.trimsLeft_lt_passFuel (db : Database) (fromMs toMs : Int) :
    db.tables.trimsLeft fromMs toMs < db.passFuel := by
  have htrims : db.tables.trimsLeft fromMs toMs ≤ db.tables.segments.size * 1 :=
    Table.weight_le (Tables.trimWeight_le_one fromMs toMs)
  unfold Database.passFuel
  show _ < (db.tables.rollups.size + db.tables.segments.size +
    (db.tables.stats.map fun x => x.2.size).sum + 2) * (_ + 2)
  exact Nat.lt_of_lt_of_le (by omega) (Nat.le_mul_of_pos_right _ (by omega))

namespace Pass

/-- A round of retention reads the batch of series to trim: an empty batch asks for no more,
and otherwise the round is the batch's transaction, asking for more when it trimmed any. -/
theorem roundOf_retainRound (collection policy : String) (toMs : Int) (db : Database) :
    roundOf (retainRound collection policy toMs) db =
      if (db.tables.seriesToRetain collection policy toMs db.settings.retentionBatch).isEmpty
      then (.ok false, db)
      else match Txn.exec (Txn.retain (db.tables.seriesToRetain collection policy toMs
          db.settings.retentionBatch) toMs) db.context db.tables db.versions with
        | (.ok (n, t), v) => (.ok (decide (n > 0)), { db with tables := t, versions := v })
        | (.error e, v) => (.error e, { db with versions := v }) := by
  unfold roundOf retainRound
  rw [run_database_bind]
  dsimp only
  split
  · rfl
  · rw [run_bind, run_txn]
    rcases Txn.exec _ db.context db.tables db.versions with ⟨r, v⟩
    cases r <;> rfl

/-- A round of retention that asks for more keeps the segments built and lowers the segments
left to trim. -/
theorem retainRound_more {collection policy : String} {toMs : Int} {db db' : Database}
    (hdb : db.tables.SegmentsBuilt)
    (h : roundOf (retainRound collection policy toMs) db = (.ok true, db')) :
    db'.tables.SegmentsBuilt ∧
      db'.tables.trimsLeft Instant.minMillis toMs < db.tables.trimsLeft Instant.minMillis toMs := by
  rw [roundOf_retainRound] at h
  split at h
  · simp at h
  rcases hx : Txn.exec (Txn.retain (db.tables.seriesToRetain collection policy toMs
      db.settings.retentionBatch) toMs) db.context db.tables db.versions with ⟨r, v⟩
  rw [hx] at h
  cases r with
  | error e => simp at h
  | ok p =>
    obtain ⟨n, t⟩ := p
    simp only [Prod.mk.injEq, Except.ok.injEq, decide_eq_true_eq] at h
    obtain ⟨hn, rfl⟩ := h
    have htrim := Txn.retain_trimmed _ toMs hx
    refine ⟨htrim.built hdb, ?_⟩
    have hlow := htrim.lowers hdb
    show t.trimsLeft _ _ < _
    omega

/-- With its segments built, the retention pass of a policy ends on its own: its rounds stop
within the count of rounds a pass allows. -/
theorem retainRound_stops (collection policy : String) (toMs : Int) {db : Database}
    (hdb : db.tables.SegmentsBuilt) :
    StopsWithin (roundOf (retainRound collection policy toMs)) db.passFuel db :=
  StopsWithin.of_measure (I := fun s => s.tables.SegmentsBuilt)
    (fun s => s.tables.trimsLeft Instant.minMillis toMs) (fun _ _ hs h => retainRound_more hs h)
    _ db hdb (db.trimsLeft_lt_passFuel _ _)

end Pass

end SeriesStore
