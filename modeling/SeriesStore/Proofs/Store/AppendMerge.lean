import Mathlib
import SeriesStore.Proofs.Store.AppendWell
import SeriesStore.Proofs.Store.RangeDeletion

/-!
# Appending merges points into a series

The rows of a series store its points only up to NaN padding: a segment pads the values of every
point it takes to its width. Stored points *stand for* given ones when they match place by
place up to that padding (`List.Forall₂ Point.Pads`). A write of one run stores, at every
timestamp, a point standing for the run's point there, and elsewhere keeps a point standing for
the one stored before (`Point.Overwrites`). From that alone, stored points that stood for `xs`
stand afterwards for the run merged into `xs` (`Point.pads_merge_of_overwrites`), since a local
merge lets the incoming point win.
-/

namespace SeriesStore

namespace Point

/-! ## Points standing for others -/

section Stands

variable {xs ys old new run : List Point}

/-- Points that stand for others keep their timestamps. -/
theorem Pads.map_ms (h : List.Forall₂ Pads xs ys) : xs.map (·.ms) = ys.map (·.ms) := by
  induction h with
  | nil => rfl
  | cons hxy _ ih => rw [List.map_cons, List.map_cons, hxy.1, ih]

/-- Points standing for ascending ones ascend. -/
theorem Ascending.of_pads (h : List.Forall₂ Pads xs ys) (hy : Ascending ys) : Ascending xs := by
  have hmap : (xs.map (·.ms)).Pairwise (· < ·) := by
    rw [Pads.map_ms h, List.pairwise_map]
    exact hy
  exact List.pairwise_map.mp hmap

/-- Each point of a list standing for another stands for one of its points. -/
theorem Pads.exists_of_mem_left (h : List.Forall₂ Pads xs ys) {x : Point} (hx : x ∈ xs) :
    ∃ y ∈ ys, Pads x y := by
  induction h with
  | nil => cases hx
  | @cons a b _ _ hab _ ih =>
    rcases List.mem_cons.mp hx with rfl | hx
    · exact ⟨b, List.mem_cons_self, hab⟩
    · obtain ⟨y, hy, hxy⟩ := ih hx
      exact ⟨y, List.mem_cons_of_mem b hy, hxy⟩

/-- Each point a list stands for has a point of the list standing for it. -/
theorem Pads.exists_of_mem_right (h : List.Forall₂ Pads xs ys) {y : Point} (hy : y ∈ ys) :
    ∃ x ∈ xs, Pads x y := by
  induction h with
  | nil => cases hy
  | @cons a b _ _ hab _ ih =>
    rcases List.mem_cons.mp hy with rfl | hy
    · exact ⟨a, List.mem_cons_self, hab⟩
    · obtain ⟨x, hx, hxy⟩ := ih hy
      exact ⟨x, List.mem_cons_of_mem a hx, hxy⟩

/-- Points that stand for others place by place stand for them at every timestamp. -/
theorem Pads.rel_at? (h : List.Forall₂ Pads xs ys) (ms : Int) :
    Option.Rel Pads (at? xs ms) (at? ys ms) := by
  induction h with
  | nil => exact .none
  | @cons x y xs ys hxy _ ih =>
    rw [at?_cons, at?_cons, hxy.1]
    split
    · exact .some hxy
    · exact ih

theorem exists_of_rel_some_left {a : Point} {o : Option Point} (h : Option.Rel Pads (some a) o) :
    ∃ b, o = some b ∧ Pads a b := by
  cases h with
  | some hp => exact ⟨_, rfl, hp⟩

theorem exists_of_rel_some_right {b : Point} {o : Option Point} (h : Option.Rel Pads o (some b)) :
    ∃ a, o = some a ∧ Pads a b := by
  cases h with
  | some hp => exact ⟨_, rfl, hp⟩

/-- Of ascending points standing for others at every timestamp, the first stand for each other:
each lies at or below the other's timestamp. -/
theorem ms_le_of_rel_at? {x y : Point} (hy : Ascending (y :: ys))
    (h : Option.Rel Pads (some x) (at? (y :: ys) x.ms)) : y.ms ≤ x.ms := by
  obtain ⟨y', hy', -⟩ := exists_of_rel_some_left h
  rcases List.mem_cons.mp (mem_of_at? hy') with rfl | hmem
  · exact le_of_eq (ms_of_at? hy')
  · have := (List.pairwise_cons.mp hy).1 y' hmem
    have := ms_of_at? hy'
    omega

/-- Ascending points that stand for others at every timestamp stand for them place by place. -/
theorem pads_of_rel_at? (hx : Ascending xs) (hy : Ascending ys)
    (h : ∀ ms, Option.Rel Pads (at? xs ms) (at? ys ms)) : List.Forall₂ Pads xs ys := by
  induction xs generalizing ys with
  | nil =>
    -- a point of `ys` would have no point of `xs` to stand for it
    cases ys with
    | nil => exact .nil
    | cons y ys =>
      have hrel := h y.ms
      rw [hy.at?_of_mem List.mem_cons_self] at hrel
      cases hrel
  | cons x xs ih =>
    cases ys with
    | nil =>
      have hrel := h x.ms
      rw [hx.at?_of_mem List.mem_cons_self] at hrel
      cases hrel
    | cons y ys =>
      -- the heads are the points at the least timestamp on both sides
      have hle : y.ms ≤ x.ms := by
        have hrel := h x.ms
        rw [hx.at?_of_mem List.mem_cons_self] at hrel
        exact ms_le_of_rel_at? hy hrel
      have hge : x.ms ≤ y.ms := by
        have hrel := h y.ms
        rw [hy.at?_of_mem List.mem_cons_self] at hrel
        obtain ⟨x', hx', -⟩ := exists_of_rel_some_right hrel
        rcases List.mem_cons.mp (mem_of_at? hx') with rfl | hmem
        · exact le_of_eq (ms_of_at? hx')
        · have := (List.pairwise_cons.mp hx).1 x' hmem
          have := ms_of_at? hx'
          omega
      have hxy : Pads x y := by
        have hrel := h x.ms
        rw [hx.at?_of_mem List.mem_cons_self,
          show x.ms = y.ms by omega, hy.at?_of_mem List.mem_cons_self] at hrel
        exact Option.rel_some_some.mp hrel
      refine .cons hxy (ih hx.tail hy.tail fun ms => ?_)
      by_cases hm : x.ms = ms
      · -- past the heads nothing stands at their timestamp
        have hxn : at? xs ms = none := at?_eq_none_iff.mpr fun z hz => by
          have := (List.pairwise_cons.mp hx).1 z hz
          omega
        have hyn : at? ys ms = none := at?_eq_none_iff.mpr fun z hz => by
          have := (List.pairwise_cons.mp hy).1 z hz
          omega
        rw [hxn, hyn]
        exact .none
      · have hym : y.ms ≠ ms := by omega
        have hrel := h ms
        rw [at?_cons, at?_cons, if_neg hm, if_neg hym] at hrel
        exact hrel

theorem rel_trans {a b c : Option Point} (h₁ : Option.Rel Pads a b) (h₂ : Option.Rel Pads b c) :
    Option.Rel Pads a c := by
  cases h₁ with
  | none => exact h₂
  | some hp =>
    cases h₂ with
    | some hq => exact .some (hp.trans hq)

/-- Stored points stand anew for the points `old` stood for, overwritten by a run: at every
timestamp, for the run's point there, else for the old point there. -/
def Overwrites (new old run : List Point) : Prop :=
  ∀ ms, Option.Rel Pads (at? new ms) ((at? run ms).or (at? old ms))

/-- Points overwrite ascending ones with an ascending run when each stands for a point of the run
or, away from the run's timestamps, for an old point; and every point of the run, and every old
point away from it, has one standing for it. -/
theorem overwrites_of_mem (hold : Ascending old) (hrun : Ascending run)
    (hin : ∀ p ∈ new, (∃ q ∈ run, Pads p q) ∨ ((∀ q ∈ run, q.ms ≠ p.ms) ∧ ∃ o ∈ old, Pads p o))
    (hcovRun : ∀ q ∈ run, ∃ p ∈ new, Pads p q)
    (hcovOld : ∀ o ∈ old, (∀ q ∈ run, q.ms ≠ o.ms) → ∃ p ∈ new, Pads p o) :
    Overwrites new old run := by
  intro ms
  cases hn : at? new ms with
  | some p =>
    have hp := mem_of_at? hn
    have hpm := ms_of_at? hn
    rcases hin p hp with ⟨q, hq, hpq⟩ | ⟨hno, o, ho, hpo⟩
    · rw [show ms = q.ms by rw [← hpm, hpq.1], hrun.at?_of_mem hq, Option.some_or]
      exact .some hpq
    · have hrn : at? run ms = none := at?_eq_none_iff.mpr fun q hq => hpm ▸ hno q hq
      rw [hrn, Option.none_or, show ms = o.ms by rw [← hpm, hpo.1], hold.at?_of_mem ho]
      exact .some hpo
  | none =>
    -- nothing stands at `ms`, so neither the run nor the old points have a point there
    have hnone : ∀ p ∈ new, p.ms ≠ ms := at?_eq_none_iff.mp hn
    cases hr : at? run ms with
    | some q =>
      obtain ⟨p, hp, hpq⟩ := hcovRun q (mem_of_at? hr)
      exact absurd (hpq.1.trans (ms_of_at? hr)) (hnone p hp)
    | none =>
      rw [Option.none_or]
      cases ho : at? old ms with
      | some o =>
        have hno : ∀ q ∈ run, q.ms ≠ o.ms := fun q hq => (ms_of_at? ho) ▸ at?_eq_none_iff.mp hr q hq
        obtain ⟨p, hp, hpo⟩ := hcovOld o (mem_of_at? ho) hno
        exact absurd (hpo.1.trans (ms_of_at? ho)) (hnone p hp)
      | none => exact .none

/-- Stored points that stood for `xs`, overwritten by a run, stand for the run merged into
`xs`. -/
theorem pads_merge_of_overwrites (hold : List.Forall₂ Pads old xs) (hnew : Ascending new)
    (hxs : Ascending xs) (hrun : Ascending run) (h : Overwrites new old run) :
    List.Forall₂ Pads new (merge false xs run) := by
  refine pads_of_rel_at? hnew (hxs.merge false hrun) fun ms => ?_
  rw [at?_merge hxs hrun]
  have hms := h ms
  cases hr : at? run ms with
  | some q =>
    rw [hr, Option.some_or] at hms
    exact hms
  | none =>
    -- the new point stands for the old one, which stands for the point of `xs`
    rw [hr, Option.none_or] at hms
    rw [Option.none_or]
    exact rel_trans hms (Pads.rel_at? hold ms)

end Stands

end Point

/-! ## Rows put among the rows of a series -/

section Rows

variable {pre : Key} {rows rows' : List (Key × Row SegmentRow)}

theorem mem_seriesPoints {p : Point} :
    p ∈ seriesPoints rows ↔ ∃ r ∈ rows, p ∈ StoredRow.points r :=
  List.mem_flatMap

/-- No row of a gap has its key at a baseline inside the gap: it would hold a point there. -/
theorem Gap.key_ne {lo hi : Int} (hgap : Gap rows lo hi) (hstarts : ∀ r ∈ rows, StoredRow.Starts r)
    {b : Int} (hfits : I64.fits b = true) (hlo : lo ≤ b) (hhi : b < hi) :
    ∀ r ∈ rows, r.1 ≠ Key.segmentOfPrefix pre b := by
  intro r hr hk
  have hbase : StoredRow.baseline r = b := by
    rw [StoredRow.baseline, hk, Key.baselineOf_segmentOfPrefix pre hfits]
    rfl
  obtain ⟨q, hq, hqb⟩ := (hstarts r hr).at_baseline
  rcases hgap r hr with hbelow | habove
  · have := hbelow q hq
    omega
  · omega

/-- A row of a gap holds no point at a timestamp inside the gap. -/
theorem Gap.ms_ne {lo hi : Int} (hgap : Gap rows lo hi) (hlay : SeriesLayout pre rows)
    {r : Key × Row SegmentRow} (hr : r ∈ rows) {o : Point} (ho : o ∈ StoredRow.points r)
    {q : Point} (hlo : lo ≤ q.ms) (hhi : q.ms < hi) : q.ms ≠ o.ms := by
  rcases hgap r hr with hbelow | habove
  · have := hbelow o ho
    omega
  · obtain ⟨b, es, hb⟩ := hlay.holds r hr
    have := hb.baseline_le ho
    rw [hb.baseline_eq] at habove
    omega

/-- A row put under a key no row had adds its points to the series and keeps all others. -/
theorem mem_seriesPoints_of_fresh {new : Key × Row SegmentRow}
    (h : ∀ x, x ∈ rows' ↔ x = new ∨ (x ∈ rows ∧ x.1 ≠ new.1))
    (hfresh : ∀ x ∈ rows, x.1 ≠ new.1) (p : Point) :
    p ∈ seriesPoints rows' ↔ p ∈ seriesPoints rows ∨ p ∈ StoredRow.points new := by
  simp only [mem_seriesPoints, h]
  constructor
  · rintro ⟨r, rfl | ⟨hr, -⟩, hp⟩
    · exact .inr hp
    · exact .inl ⟨r, hr, hp⟩
  · rintro (⟨r, hr, hp⟩ | hp)
    · exact ⟨r, .inr ⟨hr, hfresh r hr⟩, hp⟩
    · exact ⟨new, .inl rfl, hp⟩

/-- A row put in place of another under its key keeps the points of every other row. -/
theorem mem_seriesPoints_of_replace (hord : Table.Ordered rows) {old new : Key × Row SegmentRow}
    (h : ∀ x, x ∈ rows' ↔ x = new ∨ (x ∈ rows ∧ x.1 ≠ new.1)) (hold : old ∈ rows)
    (hkey : old.1 = new.1) (p : Point) :
    p ∈ seriesPoints rows' ↔
      (∃ r ∈ rows, r ≠ old ∧ p ∈ StoredRow.points r) ∨ p ∈ StoredRow.points new := by
  simp only [mem_seriesPoints, h]
  constructor
  · rintro ⟨r, rfl | ⟨hr, hrk⟩, hp⟩
    · exact .inr hp
    · exact .inl ⟨r, hr, fun hro => hrk (hro ▸ hkey), hp⟩
  · rintro (⟨r, hr, hro, hp⟩ | hp)
    · exact ⟨r, .inr ⟨hr, fun hrk => hro (hord.eq_of_key_eq hr hold (hrk.trans hkey.symm))⟩, hp⟩
    · exact ⟨new, .inl rfl, hp⟩

/-- Summing over the rows after a row is put among ordered rows in place of those under its key:
the new row comes in and the rows under its key leave. -/
theorem Table.sum_map_of_mem_iff {α : Type} {rows rows' : List (Key × Row α)}
    (f : Key × Row α → Int) (hord : Table.Ordered rows) (hord' : Table.Ordered rows')
    {new : Key × Row α} (h : ∀ x, x ∈ rows' ↔ x = new ∨ (x ∈ rows ∧ x.1 ≠ new.1)) :
    (rows'.map f).sum + ((rows.filter fun x => x.1 = new.1).map f).sum =
      f new + (rows.map f).sum := by
  have hnd : (new :: rows.filter fun x => ¬x.1 = new.1).Nodup := by
    refine List.nodup_cons.mpr ⟨fun hm => ?_, hord.nodup.filter _⟩
    simp at hm
  have hperm : rows'.Perm (new :: rows.filter fun x => ¬x.1 = new.1) := by
    refine (List.perm_ext_iff_of_nodup hord'.nodup hnd).mpr fun x => ?_
    simp only [h x, List.mem_cons, List.mem_filter, decide_eq_true_eq]
  have hsplit := List.sum_map_filter_add_sum_map_filter_not (fun x => x.1 = new.1) f rows
  rw [(hperm.map f).sum_eq, List.map_cons, List.sum_cons, ← hsplit]
  omega

/-- The live samples that the segments of rows record. -/
def liveSum (rows : List (Key × Row SegmentRow)) : Int :=
  (rows.map fun r => (r.2.value.segment.live : Int)).sum

/-- A row put under a key no row had adds its live samples. -/
theorem liveSum_of_fresh (hord : Table.Ordered rows) (hord' : Table.Ordered rows')
    {new : Key × Row SegmentRow} (h : ∀ x, x ∈ rows' ↔ x = new ∨ (x ∈ rows ∧ x.1 ≠ new.1))
    (hfresh : ∀ x ∈ rows, x.1 ≠ new.1) :
    liveSum rows' = new.2.value.segment.live + liveSum rows := by
  have hsum := Table.sum_map_of_mem_iff (fun r => (r.2.value.segment.live : Int)) hord hord' h
  rw [List.filter_eq_nil_iff.mpr fun x hx => by simpa using hfresh x hx] at hsum
  simpa [liveSum] using hsum

/-- Among ordered rows, the rows under the key of one of them are that one. -/
theorem Table.Ordered.filter_key_perm {α : Type} {rows : List (Key × Row α)}
    (hord : Table.Ordered rows) {old : Key × Row α} (hold : old ∈ rows) :
    (rows.filter fun x => x.1 = old.1).Perm [old] := by
  refine (List.perm_ext_iff_of_nodup (hord.nodup.filter _) (List.nodup_singleton old)).mpr
    fun x => ?_
  simp only [List.mem_filter, decide_eq_true_eq, List.mem_singleton]
  constructor
  · rintro ⟨hx, hk⟩
    exact hord.eq_of_key_eq hx hold hk
  · rintro rfl
    exact ⟨hold, rfl⟩

/-- A row put in place of another under its key trades its live samples for the other's. -/
theorem liveSum_of_replace (hord : Table.Ordered rows) (hord' : Table.Ordered rows')
    {old new : Key × Row SegmentRow} (h : ∀ x, x ∈ rows' ↔ x = new ∨ (x ∈ rows ∧ x.1 ≠ new.1))
    (hold : old ∈ rows) (hkey : old.1 = new.1) :
    liveSum rows' + old.2.value.segment.live = new.2.value.segment.live + liveSum rows := by
  have hsum := Table.sum_map_of_mem_iff (fun r => (r.2.value.segment.live : Int)) hord hord' h
  rw [← hkey, ((hord.filter_key_perm hold).map _).sum_eq] at hsum
  simpa [liveSum] using hsum

/-- Taking a row out takes its live samples. -/
theorem liveSum_remove (hord : Table.Ordered rows) {old : Key × Row SegmentRow} (hold : old ∈ rows) :
    liveSum (rows.filter (·.1 != old.1)) + old.2.value.segment.live = liveSum rows := by
  have hsplit := List.sum_map_filter_add_sum_map_filter_not (fun x => x.1 = old.1)
    (fun r => (r.2.value.segment.live : Int)) rows
  rw [((hord.filter_key_perm hold).map _).sum_eq] at hsplit
  have hne : rows.filter (·.1 != old.1) = rows.filter fun x => ¬x.1 = old.1 :=
    List.filter_congr fun x _ => by rw [bne, beq_eq_decide, decide_not]
  rw [liveSum, liveSum, hne]
  simp only [List.map_cons, List.map_nil, List.sum_cons, List.sum_nil] at hsplit
  omega

end Rows

namespace Tables

/-- From `t` to `t'` the series under `pre` gains stored points standing for `run`, and keeps
every point it stored. -/
def Adds (pre : Key) (t t' : Tables) (run : List Point) : Prop :=
  ∃ S, List.Forall₂ Point.Pads S run ∧ ∀ p, p ∈ seriesPoints (t'.segments.under pre) ↔
    p ∈ seriesPoints (t.segments.under pre) ∨ p ∈ S

theorem Adds.of_eq {pre : Key} {t t' : Tables} (h : t'.segments = t.segments) : Adds pre t t' [] :=
  ⟨[], .nil, fun p => by rw [h]; simp⟩

theorem Adds.trans {pre : Key} {t t₁ t' : Tables} {run₁ run₂ : List Point}
    (h₁ : Adds pre t t₁ run₁) (h₂ : Adds pre t₁ t' run₂) : Adds pre t t' (run₁ ++ run₂) := by
  obtain ⟨S₁, hS₁, hmem₁⟩ := h₁
  obtain ⟨S₂, hS₂, hmem₂⟩ := h₂
  refine ⟨S₁ ++ S₂, List.rel_append hS₁ hS₂, fun p => ?_⟩
  rw [hmem₂, hmem₁, List.mem_append, or_assoc]

/-- From `w` and `t` to `w'` and `t'` the count of live samples that the write carries grew by
what the rows of the series under `pre` gained. -/
def Counts (pre : Key) (w : SeriesWrite) (t : Tables) (w' : SeriesWrite) (t' : Tables) : Prop :=
  w'.liveDelta + liveSum (t.segments.under pre) = w.liveDelta + liveSum (t'.segments.under pre)

theorem Counts.of_eq {pre : Key} {w w' : SeriesWrite} {t t' : Tables}
    (hw : w'.liveDelta = w.liveDelta) (h : t'.segments = t.segments) : Counts pre w t w' t' := by
  rw [Counts, hw, h]

theorem Counts.trans {pre : Key} {w w₁ w' : SeriesWrite} {t t₁ t' : Tables}
    (h₁ : Counts pre w t w₁ t₁) (h₂ : Counts pre w₁ t₁ w' t') : Counts pre w t w' t' := by
  unfold Counts at *
  omega

/-- Points added away from every stored timestamp overwrite the stored points with the run they
stand for. -/
theorem Adds.overwrites {pre : Key} {t t' : Tables} {run : List Point} (h : Adds pre t t' run)
    (hold : Point.Ascending (seriesPoints (t.segments.under pre))) (hrun : Point.Ascending run)
    (hdisj : ∀ o ∈ seriesPoints (t.segments.under pre), ∀ q ∈ run, q.ms ≠ o.ms) :
    Point.Overwrites (seriesPoints (t'.segments.under pre)) (seriesPoints (t.segments.under pre))
      run := by
  obtain ⟨S, hS, hmem⟩ := h
  refine Point.overwrites_of_mem hold hrun (fun p hp => ?_) (fun q hq => ?_) fun o ho _ => ?_
  · rcases (hmem p).mp hp with hp | hp
    · exact .inr ⟨fun q hq => hdisj p hp q hq, p, hp, Point.Pads.refl p⟩
    · exact .inl (Point.Pads.exists_of_mem_left hS hp)
  · obtain ⟨p, hp, hpq⟩ := Point.Pads.exists_of_mem_right hS hq
    exact ⟨p, (hmem p).mpr (.inr hp), hpq⟩
  · exact ⟨o, (hmem o).mpr (.inl ho), Point.Pads.refl o⟩

end Tables

@[simp] theorem SeriesWrite.liveDelta_gain (w : SeriesWrite) (n : Int) :
    (w.gain n).liveDelta = w.liveDelta + n :=
  rfl

/-! ## One run of a write -/

namespace Txn

open StoredRow

variable {ctx : Context} {t t' : Tables} {v v' : Versions} {w w' : SeriesWrite}

/-! ## Points a write adds -/

/-- Storing a segment under a key of the series puts its row there, in place of any row under
that key, and keeps the table sorted and the count the write carries. -/
theorem putSegment_under {pre key : Key} {seg : Segment} {prev : Option String}
    (hsorted : t.segments.Sorted) (hkey : Key.startsWith key pre = true)
    (h : exec (putSegment w key seg prev) ctx t v = (.ok (w', t'), v')) :
    w'.liveDelta = w.liveDelta ∧ t'.segments.Sorted ∧ ∃ val i, val.segment = seg ∧
      ∀ x, x ∈ t'.segments.under pre ↔ x = (key, ⟨val, i⟩) ∨ (x ∈ t.segments.under pre ∧ x.1 ≠ key) := by
  obtain ⟨-, -, hdelta, val, i, hval, -, hseg⟩ := putSegment_eq_ok h
  refine ⟨hdelta, hseg ▸ hsorted.insert key val i, val, i, hval, fun x => ?_⟩
  rw [hseg, Table.under_insert hsorted, if_pos hkey]
  exact Table.mem_putRow (hsorted.under pre)

/-- The row of a segment packed with a chunk of points stands for the chunk. -/
theorem points_of_chunk {pre : Key} {val : SegmentRow} {i : Option Int} {p : Point}
    {c : List Point} (hb : Placed p.ms ((p :: c).map (Point.entryAt val.segment.width p.ms))
      val.segment)
    (hlen : ∀ x ∈ p :: c, x.values.length ≤ val.segment.width) :
    List.Forall₂ Point.Pads (points (Key.segmentOfPrefix pre p.ms, ⟨val, i⟩)) (p :: c) := by
  rw [((hb.row rfl i).1 : Holds pre _ _ _).points_eq, List.map_map]
  exact List.forall₂_map_left_iff.mpr
    (List.forall₂_same.mpr fun x hx => Point.pads_entryAt (hlen x hx) p.ms)

/-- Storing packed segments in a gap that takes all their points adds points standing for
them, and the write counts the live samples they hold. -/
theorem putPacked_adds (hs : w.series.Clean) {segs : List (Int × Segment)}
    {chunks : List (List Point)} (hpk : Packing.Packed none segs chunks)
    (hasc : Point.Ascending chunks.flatten)
    (hrange : ∀ q ∈ chunks.flatten, Instant.minMillis ≤ q.ms ∧ q.ms ≤ Instant.maxMillis)
    {lo hi : Int} (hlo : ∀ q ∈ chunks.flatten, lo ≤ q.ms) (hhi : ∀ q ∈ chunks.flatten, q.ms < hi)
    {prev : Option String} (ht : t.segments.SegmentsWell)
    (hgap : Gap (t.segments.under w.series.pre) lo hi)
    (h : exec (putPacked w segs prev) ctx t v = (.ok (w', t'), v')) :
    Tables.Adds w.series.pre t t' chunks.flatten ∧ Tables.Counts w.series.pre w t w' t' := by
  induction hpk generalizing w' t' v' with
  | nil =>
    simp only [putPacked, List.foldlM_nil, exec_pure, Prod.mk.injEq, Except.ok.injEq] at h
    obtain ⟨⟨rfl, rfl⟩, -⟩ := h
    exact ⟨Tables.Adds.of_eq rfl, Tables.Counts.of_eq rfl rfl⟩
  | @snoc segs chunks b s p c hpk hb hlen hbase ih =>
    obtain rfl : b = p.ms := hbase.resolve_right (by simp)
    have hflat : (chunks ++ [p :: c]).flatten = chunks.flatten ++ p :: c := by simp
    rw [hflat] at hasc hrange hlo hhi ⊢
    obtain ⟨hasc₀, hchunk, hbefore⟩ := Point.ascending_append.mp hasc
    have hrange₀ := fun q hq => hrange q (List.mem_append_left (p :: c) hq)
    have hlo₀ := fun q hq => hlo q (List.mem_append_left (p :: c) hq)
    have hhi₀ := fun q hq => hhi q (List.mem_append_left (p :: c) hq)
    -- the segments of the earlier chunks first, then this one in the gap they leave
    unfold putPacked at h
    rw [List.foldlM_append] at h
    obtain ⟨w₁, t₁, v₁, h₁, h₂⟩ := exec_bind_eq_ok.mp h
    obtain ⟨hadds₁, hcount₁⟩ := ih hasc₀ hrange₀ hlo₀ hhi₀ h₁
    obtain ⟨ht₁, hser₁, hgap₁⟩ := putPacked_well hs hpk hasc₀ hrange₀ hlo₀ hhi₀ ht hgap h₁
    simp only [List.foldlM_cons, List.foldlM_nil, bind_pure] at h₂
    have hgapp := hgap₁ p.ms (hlo p (by simp)) fun q hq => hbefore q hq p List.mem_cons_self
    have hrange' := fun q hq => hrange q (List.mem_append_right chunks.flatten hq)
    have hp := Placed.of_chunk hb hchunk hrange'
    rw [hser₁] at h₂
    have hfits := hp.fits
    obtain ⟨hdelta, hsorted, val, i, rfl, hrows⟩ := putSegment_under ht₁.sorted
      (Key.startsWith_segmentOfPrefix w.series.pre p.ms) h₂
    have hfresh : ∀ x ∈ t₁.segments.under w.series.pre,
        x.1 ≠ Key.segmentOfPrefix w.series.pre p.ms :=
      hgapp.key_ne ((ht₁.series _ hs).starts) hfits le_rfl (hhi p (by simp))
    have hsum := liveSum_of_fresh (ht₁.sorted.under _) (hsorted.under _) hrows hfresh
    refine ⟨hadds₁.trans ⟨points (Key.segmentOfPrefix w.series.pre p.ms, ⟨val, i⟩),
      points_of_chunk hp hlen, mem_seriesPoints_of_fresh hrows hfresh⟩, hcount₁.trans ?_⟩
    -- the write gains the live samples of the new segment, which its row holds
    rw [Tables.Counts, hsum, hdelta, SeriesWrite.liveDelta_gain]
    dsimp only
    omega

/-- Opening new segments for points in a gap that takes them adds points standing for them, and
the write counts the live samples they hold. -/
theorem writeNewSegments_adds (hs : w.series.Clean) {ps : List Point} (hasc : Point.Ascending ps)
    (hrange : ∀ q ∈ ps, Instant.minMillis ≤ q.ms ∧ q.ms ≤ Instant.maxMillis) {lo hi : Int}
    (hlo : ∀ q ∈ ps, lo ≤ q.ms) (hhi : ∀ q ∈ ps, q.ms < hi) (ht : t.segments.SegmentsWell)
    (hgap : Gap (t.segments.under w.series.pre) lo hi)
    (h : exec (writeNewSegments w ps) ctx t v = (.ok (w', t'), v')) :
    Tables.Adds w.series.pre t t' ps ∧ Tables.Counts w.series.pre w t w' t' := by
  unfold writeNewSegments at h
  obtain ⟨segs, t₁, v₁, h₁, h₂⟩ := exec_bind_eq_ok.mp h
  cases hbuild : Point.build ps none with
  | error e =>
    rw [hbuild, exec_lift_error] at h₁
    cases h₁
  | ok segs' =>
    rw [hbuild, exec_lift_ok] at h₁
    simp only [Prod.mk.injEq, Except.ok.injEq] at h₁
    obtain ⟨⟨rfl, rfl⟩, rfl⟩ := h₁
    obtain ⟨chunks, rfl, hpk⟩ := Packing.build_eq_ok hbuild
    exact putPacked_adds hs hpk hasc hrange hlo hhi ht hgap h₂

/-- The points a segment grown by a run takes stand for the points of the run it took. -/
theorem pads_taken {w : Nat} (b : Int) {ps : List Point} (hlen : ∀ q ∈ ps, q.values.length ≤ w) :
    List.Forall₂ Point.Pads (ps.map fun q => Point.ofEntry b (Point.entryAt w b q)) ps :=
  List.forall₂_map_left_iff.mpr (List.forall₂_same.mpr fun q hq => Point.pads_entryAt (hlen q hq) b)

/-- A run after the holder's last sample, below where the next segment starts: appending what
fits to the holder and opening new segments for the rest adds points standing for the run, and
the write counts the live samples the holder and the new segments gained. -/
theorem appendInOrder_adds (hs : w.series.Clean) (ht : t.segments.SegmentsWell)
    {hd : Key × Row SegmentRow} (hhd : hd ∈ t.segments.under w.series.pre) {hi : Int}
    (hgap : Gap ((t.segments.under w.series.pre).filter (·.1 != hd.1)) (baseline hd) hi)
    (hpts : ∀ p ∈ points hd, p.ms < hi) {run : List Point} (hasc : Point.Ascending run)
    (hrange : ∀ q ∈ run, Instant.minMillis ≤ q.ms ∧ q.ms ≤ Instant.maxMillis)
    (hafter : ∀ q ∈ run, lastMs hd < q.ms) (hhi : ∀ q ∈ run, q.ms < hi)
    (h : exec (appendInOrder w hd.1 hd.2.value (baseline hd) run) ctx t v = (.ok (w', t'), v')) :
    Tables.Adds w.series.pre t t' run ∧ Tables.Counts w.series.pre w t w' t' := by
  have hwell := ht.series _ hs
  obtain ⟨b, es, hb⟩ := hwell.layout.holds hd hhd
  have hp := Placed.of_holds hb (hwell.starts hd hhd)
  rw [hb.baseline_eq] at hgap h
  rw [lastMs, hb.baseline_eq] at hafter
  have hbefore : ∀ n, Point.Before (run.take n) (run.drop n) := fun n =>
    (Point.ascending_append.mp (by rw [List.take_append_drop]; exact hasc)).2.2
  unfold appendInOrder at h
  obtain ⟨⟨updated, n⟩, t₁, v₁, h₁, h₂⟩ := exec_bind_eq_ok.mp h
  cases hfit : appendWhileFits hd.2.value.segment b run with
  | error f =>
    rw [hfit, exec_liftFault_error] at h₁
    cases h₁
  | ok r =>
    rw [hfit, exec_liftFault_ok] at h₁
    simp only [Prod.mk.injEq, Except.ok.injEq] at h₁
    obtain ⟨⟨rfl, rfl⟩, rfl⟩ := h₁
    obtain ⟨hn, -, hbuilt, hlens⟩ := appendWhileFits_eq_ok hb.built hfit
    dsimp -zeta only at h₂
    extract_lets rest at h₂
    -- `rest`: new segments for what did not fit, in the gap past the holder's last sample
    have hrest : ∀ {w₁ t₂ v₂} lo', t₂.segments.SegmentsWell → w₁.series = w.series →
        (∀ q ∈ run.drop n, lo' ≤ q.ms) → Gap (t₂.segments.under w.series.pre) lo' hi →
        exec (rest w₁) ctx t₂ v₂ = (.ok (w', t'), v') →
        Tables.Adds w.series.pre t₂ t' (run.drop n) ∧ Tables.Counts w.series.pre w₁ t₂ w' t' := by
      intro w₁ t₂ v₂ lo' ht₂ hser₁ hlo' hgap₂ h₄
      unfold rest at h₄
      split at h₄
      · rw [← hser₁] at hs hgap₂ ⊢
        exact writeNewSegments_adds hs (hasc.sublist (List.drop_sublist n run))
          (fun q hq => hrange q (List.mem_of_mem_drop hq)) hlo'
          (fun q hq => hhi q (List.mem_of_mem_drop hq)) ht₂ hgap₂ h₄
      · simp only [exec_pure, Prod.mk.injEq, Except.ok.injEq] at h₄
        obtain ⟨⟨rfl, rfl⟩, -⟩ := h₄
        rw [List.drop_eq_nil_of_le (by omega)]
        exact ⟨Tables.Adds.of_eq rfl, Tables.Counts.of_eq rfl rfl⟩
    split at h₂
    · -- the holder grows by what fits, and the rest goes past its new last sample
      generalize hδ : ((updated.live : Int) - hd.2.value.segment.live) = δ at h₂
      obtain ⟨w₁, t₂, v₂, h₃, h₄⟩ := exec_bind_eq_ok.mp h₂
      have hp' := hp.append hbuilt (hasc.sublist (List.take_sublist n run))
        (fun q hq => hafter q (List.mem_of_mem_take hq))
        (fun q hq => hrange q (List.mem_of_mem_take hq))
      have hhi' : ∀ e ∈ es ++ (run.take n).map (Point.entryAt hd.2.value.segment.width b),
          b + e.offset < hi := by
        intro e he
        rcases List.mem_append.mp he with he | he
        · exact hpts (Point.ofEntry b e) (hb.points_eq ▸ List.mem_map_of_mem he)
        · obtain ⟨q, hq, rfl⟩ := List.mem_map.mp he
          have := hhi q (List.mem_of_mem_take hq)
          simp only [Point.entryAt]
          omega
      have hs' : (w.gain δ).series.Clean := hs
      have hkey : hd.1 = Key.segmentOfPrefix (w.gain δ).series.pre b := hb.key_eq
      have hgap' : Gap ((t.segments.under (w.gain δ).series.pre).filter (·.1 != hd.1)) b hi := hgap
      obtain ⟨ht₂, hgap₂, hser⟩ := putSegment_well hs' hp' hkey ht hgap' le_rfl hhi' h₃
      simp only [SeriesWrite.series_gain] at hgap₂ hser
      -- the holder's row now holds its points and those taken
      obtain ⟨hdelta, hsorted₂, val, i, hval, hrows⟩ := putSegment_under ht.sorted
        (hb.key_eq ▸ Key.startsWith_segmentOfPrefix w.series.pre b) h₃
      have hcount₂ : Tables.Counts w.series.pre w t w₁ t₂ := by
        have hsum := liveSum_of_replace (ht.sorted.under _) (hsorted₂.under _) hrows hhd rfl
        rw [hval] at hsum
        rw [Tables.Counts, hdelta, SeriesWrite.liveDelta_gain]
        omega
      have hnew : points (hd.1, ⟨val, i⟩) = points hd ++ (run.take n).map fun q =>
          Point.ofEntry b (Point.entryAt hd.2.value.segment.width b q) := by
        rw [hb.key_eq, ((hp'.row hval i).1 : Holds w.series.pre _ _ _).points_eq, hb.points_eq,
          List.map_append, List.map_map]
        rfl
      have hadds₂ : Tables.Adds w.series.pre t t₂ (run.take n) := by
        refine ⟨_, pads_taken b hlens, fun q => ?_⟩
        rw [mem_seriesPoints_of_replace (ht.sorted.under _) hrows hhd rfl q, hnew,
          List.mem_append, mem_seriesPoints]
        constructor
        · rintro (⟨r, hr, -, hq⟩ | hq | hq)
          · exact .inl ⟨r, hr, hq⟩
          · exact .inl ⟨hd, hhd, hq⟩
          · exact .inr hq
        · rintro (⟨r, hr, hq⟩ | hq)
          · by_cases hrd : r = hd
            · exact .inr (.inl (hrd ▸ hq))
            · exact .inl ⟨r, hr, hrd, hq⟩
          · exact .inr (.inr hq)
      have hrest' := hrest _ ht₂ hser (fun q hq => ?_) hgap₂ h₄
      · have hadds := hadds₂.trans hrest'.1
        rw [List.take_append_drop] at hadds
        exact ⟨hadds, hcount₂.trans hrest'.2⟩
      -- the new last sample is an old one or one taken, before every point left
      obtain ⟨e, he, hlast⟩ := hp'.exists_lastTimestamp
      rcases List.mem_append.mp he with he | he
      · have := hp.offset_le_last e he
        have := hafter q (List.mem_of_mem_drop hq)
        omega
      · obtain ⟨q', hq', rfl⟩ := List.mem_map.mp he
        have := hbefore n q' hq' q hq
        simp only [Point.entryAt] at hlast
        omega
    · -- nothing fits: the holder stays, and the run goes past its last sample
      next hn₀ =>
      obtain ⟨w₁, t₂, v₂, h₃, h₄⟩ := exec_bind_eq_ok.mp h₂
      simp only [exec_pure, Prod.mk.injEq, Except.ok.injEq] at h₃
      obtain ⟨⟨rfl, rfl⟩, -⟩ := h₃
      obtain rfl : n = 0 := by omega
      rw [show run = run.drop 0 from (List.drop_zero).symm]
      refine hrest _ ht rfl (fun q hq => hafter q (List.mem_of_mem_drop hq)) ?_ h₄
      refine Gap.of_filter_ne hgap (by have := hp.le_lastTimestamp; omega) fun x hx hxk q hq => ?_
      rw [(ht.sorted.under _).eq_of_key_eq hx hhd hxk] at hq
      have := hb.le_lastTimestamp hq
      omega

/-- A local run among the holder's samples, from its baseline to below where the next segment
starts: merging it with the holder and packing anew from the holder's baseline overwrites the
stored points with the run, and the write counts the live samples the rows gained. -/
theorem splitSegment_overwrites (hs : w.series.Clean) (hlocal : w.remote = none)
    (ht : t.segments.SegmentsWell) {hd : Key × Row SegmentRow}
    (hhd : hd ∈ t.segments.under w.series.pre) {hi : Int}
    (hgap : Gap ((t.segments.under w.series.pre).filter (·.1 != hd.1)) (baseline hd) hi)
    (hpts : ∀ p ∈ points hd, p.ms < hi) {run : List Point} (hasc : Point.Ascending run)
    (hrange : ∀ q ∈ run, Instant.minMillis ≤ q.ms ∧ q.ms ≤ Instant.maxMillis)
    (hbase : ∀ q ∈ run, baseline hd ≤ q.ms) (hhi : ∀ q ∈ run, q.ms < hi)
    (h : exec (splitSegment w hd.1 hd.2.value (baseline hd) run) ctx t v = (.ok (w', t'), v')) :
    Point.Overwrites (seriesPoints (t'.segments.under w.series.pre))
      (seriesPoints (t.segments.under w.series.pre)) run ∧
    Tables.Counts w.series.pre w t w' t' := by
  have hwell := ht.series _ hs
  have hord := ht.sorted.under w.series.pre
  obtain ⟨b, es, hb⟩ := hwell.layout.holds hd hhd
  have hst := hwell.starts hd hhd
  rw [hb.baseline_eq] at hgap h hbase
  unfold splitSegment at h
  obtain ⟨stored, t₁, v₁, h₁, h₂⟩ := exec_bind_eq_ok.mp h
  rw [hb.built.sound.samples, exec_lift_ok] at h₁
  simp only [Prod.mk.injEq, Except.ok.injEq] at h₁
  obtain ⟨⟨rfl, rfl⟩, rfl⟩ := h₁
  extract_lets merged at h₂
  have hmerged : merged = Point.merge false (points hd) run := by
    rw [hb.points_eq]
    simp [merged, hlocal]
  obtain ⟨packed, t₂, v₂, h₃, h₄⟩ := exec_bind_eq_ok.mp h₂
  cases hbuild : Point.build merged (some (b, hd.2.value.segment.width)) with
  | error e =>
    rw [hbuild, exec_lift_error] at h₃
    cases h₃
  | ok segs =>
    rw [hbuild, exec_lift_ok] at h₃
    simp only [Prod.mk.injEq, Except.ok.injEq] at h₃
    obtain ⟨⟨rfl, rfl⟩, rfl⟩ := h₃
    obtain ⟨chunks, hflat, hpk⟩ := Packing.build_eq_ok hbuild
    obtain ⟨u, t₃, v₃, h₅, h₆⟩ := exec_bind_eq_ok.mp h₄
    simp only [exec_change, Prod.mk.injEq, Except.ok.injEq] at h₅
    obtain ⟨⟨-, rfl⟩, rfl⟩ := h₅
    -- every merged point is a stored one or one of the run
    have hmem : ∀ q ∈ merged, q ∈ points hd ∨ q ∈ run := by
      intro q hq
      rw [hmerged] at hq
      exact Point.mem_merge hq
    have hascd : Point.Ascending (points hd) := hb.ascending_points
    have hasc' : Point.Ascending merged := hmerged ▸ hascd.merge false hasc
    have hrange' : ∀ q ∈ merged, Instant.minMillis ≤ q.ms ∧ q.ms ≤ Instant.maxMillis :=
      fun q hq => (hmem q hq).elim (hst.in_range q) (hrange q)
    have hlo' : ∀ q ∈ merged, b ≤ q.ms :=
      fun q hq => (hmem q hq).elim hb.baseline_le (hbase q)
    have hhi' : ∀ q ∈ merged, q.ms < hi := fun q hq => (hmem q hq).elim (hpts q) (hhi q)
    -- the merge starts at the baseline, where the pin puts the first segment anyway
    have hpk' : Packing.Packed none segs chunks := by
      refine hpk.unpin fun b₀ hb₀ q hq => ?_
      obtain ⟨x, xs, hxs, hxb⟩ := hb.points_eq_cons hst
      have hhead := Point.ms_head?_merge w.remote.isSome xs fun y hy => hxb ▸ hbase y hy
      rw [← hxs, hb.points_eq] at hhead
      have hfirst : merged.head?.map (·.ms) = some x.ms := hhead
      simp only [Option.map_some, Option.some.injEq] at hb₀
      rw [hflat, hq, Option.map_some, Option.some.injEq] at hfirst
      rw [hfirst, hxb, hb₀]
    have hgap' : Gap ((t.segments.remove hd.1).1.under w.series.pre) b hi := by
      rw [Table.under_remove]
      exact hgap
    generalize hδ : (-(hd.2.value.segment.live : Int)) = δ at h₆
    have hs' : (w.gain δ).series.Clean := hs
    obtain ⟨⟨S, hS, hnew⟩, hcount⟩ := putPacked_adds hs' hpk' (hflat ▸ hasc') (hflat ▸ hrange')
      (hflat ▸ hlo') (hflat ▸ hhi') (ht.remove hd.1) hgap' h₆
    simp only [SeriesWrite.series_gain, Table.under_remove] at hnew hcount
    -- taking the holder out loses its live samples, which the write gave up first
    have hcount₀ : Tables.Counts w.series.pre w t (w.gain δ)
        { t with segments := (t.segments.remove hd.1).1 } := by
      have hsum := liveSum_remove hord hhd
      rw [Tables.Counts, SeriesWrite.liveDelta_gain]
      simp only [Table.under_remove]
      omega
    rw [← hflat] at hS
    -- a point of another row lies away from the run: below the holder or past the gap
    have haway : ∀ r ∈ t.segments.under w.series.pre, r.1 ≠ hd.1 →
        ∀ o ∈ points r, ∀ q ∈ run, q.ms ≠ o.ms := fun r hr hrk o ho q hq =>
      hgap.ms_ne (hwell.layout.sublist List.filter_sublist) (mem_filter_ne hr hrk) ho
        (hbase q hq) (hhi q hq)
    -- the merge holds the run's point at each of its timestamps
    have hrunIn : ∀ q ∈ run, q ∈ merged := by
      intro q hq
      have hat := Point.at?_merge hascd hasc q.ms
      rw [hasc.at?_of_mem hq, Option.some_or, ← hmerged] at hat
      exact Point.mem_of_at? hat
    refine ⟨Point.overwrites_of_mem hwell.layout.ascending hasc (fun p hp => ?_) (fun q hq => ?_)
      fun o ho hno => ?_, hcount₀.trans hcount⟩
    · rcases (hnew p).mp hp with hp | hp
      · obtain ⟨r, hr, hpr⟩ := mem_seriesPoints.mp hp
        obtain ⟨hr, hrk⟩ := List.mem_filter.mp hr
        have hrk' : r.1 ≠ hd.1 := by simpa using hrk
        exact .inr ⟨fun q hq => haway r hr hrk' p hpr q hq, p,
          mem_seriesPoints.mpr ⟨r, hr, hpr⟩, Point.Pads.refl p⟩
      · obtain ⟨m, hm, hpm⟩ := Point.Pads.exists_of_mem_left hS hp
        by_cases hq : ∃ q ∈ run, q.ms = m.ms
        · -- the run's point is the merged one at its timestamp
          obtain ⟨q, hq, hqm⟩ := hq
          have hat := Point.at?_merge hascd hasc m.ms
          rw [← hqm, hasc.at?_of_mem hq, Option.some_or, ← hmerged, hqm,
            hasc'.at?_of_mem hm] at hat
          cases hat
          exact .inl ⟨_, hq, hpm⟩
        · push Not at hq
          refine .inr ⟨fun q hq' => ?_, m, ?_, hpm⟩
          · rw [hpm.1]
            exact hq q hq'
          · rcases hmem m hm with hmd | hmr
            · exact mem_seriesPoints.mpr ⟨hd, hhd, hmd⟩
            · exact absurd rfl (hq m hmr)
    · obtain ⟨p, hp, hpq⟩ := Point.Pads.exists_of_mem_right hS (hrunIn q hq)
      exact ⟨p, (hnew p).mpr (.inr hp), hpq⟩
    · obtain ⟨r, hr, hor⟩ := mem_seriesPoints.mp ho
      by_cases hrk : r.1 = hd.1
      · -- a point of the holder away from the run is merged as it was
        rw [hord.eq_of_key_eq hr hhd hrk] at hor
        have hat := Point.at?_merge hascd hasc o.ms
        rw [(Point.at?_eq_none_iff.mpr hno), Option.none_or, hascd.at?_of_mem hor, ← hmerged] at hat
        obtain ⟨p, hp, hpo⟩ := Point.Pads.exists_of_mem_right hS (Point.mem_of_at? hat)
        exact ⟨p, (hnew p).mpr (.inr hp), hpo⟩
      · exact ⟨o, (hnew o).mpr (.inl (mem_seriesPoints.mpr
          ⟨r, mem_filter_ne hr hrk, hor⟩)), Point.Pads.refl o⟩

/-- The write of one run from `t`, with what its way of writing needs: new segments in a gap that
takes the whole run, the run appended past the holder's last sample, or the run merged among the
holder's samples; the holder leaves a gap up to where the next row starts. -/
inductive RunWrite (ctx : Context) (w : SeriesWrite) (run : List Point) (t : Tables)
    (v : Versions) (w₁ : SeriesWrite) (t₁ : Tables) (v₁ : Versions) : Prop
  | fresh {lo hi : Int} (hgap : Gap (t.segments.under w.series.pre) lo hi)
      (hlo : ∀ q ∈ run, lo ≤ q.ms) (hhi : ∀ q ∈ run, q.ms < hi)
      (h : exec (writeNewSegments w run) ctx t v = (.ok (w₁, t₁), v₁))
  | append {hd : Key × Row SegmentRow} {hi : Int} (hhd : hd ∈ t.segments.under w.series.pre)
      (hgap : Gap ((t.segments.under w.series.pre).filter (·.1 != hd.1)) (baseline hd) hi)
      (hpts : ∀ p ∈ points hd, p.ms < hi) (hafter : ∀ q ∈ run, lastMs hd < q.ms)
      (hhi : ∀ q ∈ run, q.ms < hi)
      (h : exec (appendInOrder w hd.1 hd.2.value (baseline hd) run) ctx t v = (.ok (w₁, t₁), v₁))
  | split {hd : Key × Row SegmentRow} {hi : Int} (hhd : hd ∈ t.segments.under w.series.pre)
      (hgap : Gap ((t.segments.under w.series.pre).filter (·.1 != hd.1)) (baseline hd) hi)
      (hpts : ∀ p ∈ points hd, p.ms < hi) (hbase : ∀ q ∈ run, baseline hd ≤ q.ms)
      (hhi : ∀ q ∈ run, q.ms < hi)
      (h : exec (splitSegment w hd.1 hd.2.value (baseline hd) run) ctx t v = (.ok (w₁, t₁), v₁))

/-- A write of ascending points that succeeds writes a first run, which starts the points, and
then writes the rest from where that run left the tables. -/
theorem writeRuns_cons_eq_ok (hs : w.series.Clean) {p : Point} {more : List Point}
    (hasc : Point.Ascending (p :: more))
    (hrange : ∀ q ∈ p :: more, Instant.minMillis ≤ q.ms ∧ q.ms ≤ Instant.maxMillis)
    (ht : t.segments.SegmentsWell)
    (h : exec (writeRuns w (p :: more)) ctx t v = (.ok (w', t'), v')) :
    ∃ qs rest w₁ t₁ v₁, p :: more = (p :: qs) ++ rest ∧ RunWrite ctx w (p :: qs) t v w₁ t₁ v₁ ∧
      exec (writeRuns w₁ rest) ctx t₁ v₁ = (.ok (w', t'), v') := by
  rw [writeRuns.eq_2, exec_bind, exec_tables] at h
  dsimp -zeta only at h
  extract_lets holder nextBaseline run at h
  -- the rows of the series around the first point, and where the next segment starts
  have hwell := ht.series _ hs
  have hord := ht.sorted.under w.series.pre
  have hfits := fits_of_inRange (hrange p List.mem_cons_self)
  have hk := Key.startsWith_segmentOfPrefix w.series.pre p.ms
  have hholder : holder = ((t.segments.under w.series.pre).filter
      fun x => Key.le x.1 (Key.segmentOfPrefix w.series.pre p.ms)).getLast? :=
    Table.seekBackward_eq ht.sorted hk
  have hnext : nextBaseline ≤ nextStart (t.segments.under w.series.pre)
      (Key.segmentOfPrefix w.series.pre p.ms) := by
    show ((t.segments.seekAfter _ _).head?.bind _).getD _ ≤ _
    rw [Table.seekAfter_eq ht.sorted hk, nextStart]
    cases hn : ((t.segments.under w.series.pre).filter
        fun x => Key.lt (Key.segmentOfPrefix w.series.pre p.ms) x.1).head? with
    | none => simp
    | some n =>
      have hbase := hwell.baselineOf_eq (List.mem_filter.mp (List.mem_of_mem_head? hn)).1
      obtain ⟨k, r⟩ := n
      simp only [Option.bind_some, Option.map_some, Option.getD_some]
      rw [hbase]
      simp
  -- the run: points from the first one on, below the next segment
  have hpre : run <+: p :: more := List.takeWhile_prefix _
  have hlt : ∀ q ∈ run, q.ms < nextBaseline := fun q hq => by
    simpa using List.mem_takeWhile_imp hq
  have hfrom : ∀ q ∈ p :: more, p.ms ≤ q.ms := by
    intro q hq
    rcases List.mem_cons.mp hq with rfl | hq
    · exact le_rfl
    · exact le_of_lt ((List.pairwise_cons.mp hasc).1 q hq)
  generalize hrun : run = l at h
  revert h
  cases l with
  | nil =>
    intro h
    rw [exec_throw, Prod.mk.injEq] at h
    cases h.1
  | cons q qs =>
  intro h
  dsimp -zeta only at h
  extract_lets jp at h
  rw [hrun] at hpre hlt
  have hqp : q = p := by
    have := hrun
    simp only [run, List.takeWhile_cons] at this
    split at this
    · exact (List.cons.inj this).1.symm
    · cases this
  subst hqp
  obtain ⟨rest, hrest⟩ := hpre
  -- past the run, the rest of the points from where it left the tables
  have hone : ∀ {x : Txn SeriesWrite}, exec (x >>= jp) ctx t v = (.ok (w', t'), v') →
      (∀ {w₁ t₁ v₁}, exec x ctx t v = (.ok (w₁, t₁), v₁) → RunWrite ctx w (q :: qs) t v w₁ t₁ v₁) →
      ∃ qs' rest w₁ t₁ v₁, q :: more = (q :: qs') ++ rest ∧
        RunWrite ctx w (q :: qs') t v w₁ t₁ v₁ ∧
        exec (writeRuns w₁ rest) ctx t₁ v₁ = (.ok (w', t'), v') := by
    intro x h hx
    obtain ⟨w₁, t₁, v₁, h₁, h₂⟩ := exec_bind_eq_ok.mp h
    have hdrop : (q :: more).drop (qs.length + 1) = rest := by
      rw [← hrest]
      simp
    refine ⟨qs, rest, w₁, t₁, v₁, hrest.symm, hx h₁, ?_⟩
    simpa only [jp, hdrop] using h₂
  have hsub : ∀ x ∈ q :: qs, x ∈ q :: more := fun x hx => hrest ▸ List.mem_append_left rest hx
  have hhi : ∀ x ∈ q :: qs, x.ms < nextStart (t.segments.under w.series.pre)
      (Key.segmentOfPrefix w.series.pre q.ms) := fun x hx => lt_of_lt_of_le (hlt x hx) hnext
  have habove : ∀ x ∈ t.segments.under w.series.pre,
      Key.lt (Key.segmentOfPrefix w.series.pre q.ms) x.1 = true →
      nextStart (t.segments.under w.series.pre) (Key.segmentOfPrefix w.series.pre q.ms) ≤
        baseline x :=
    fun x hx hcx => hwell.nextStart_le hx hcx
  generalize hho : holder = o at h
  revert h
  cases o with
  | none =>
    -- no segment at or before the run: new segments, below the next one
    intro h
    have hnone := List.getLast?_eq_none_iff.mp (hholder ▸ hho)
    exact hone h fun h₁ =>
      .fresh (Gap.of_above hnone habove) (fun x hx => hfrom x (hsub x hx)) hhi h₁
  | some hd =>
    obtain ⟨key, row⟩ := hd
    intro h
    dsimp -zeta only at h
    extract_lets b₀ at h
    have hlast := hholder ▸ hho
    obtain ⟨hhd, hle⟩ := List.mem_filter.mp (List.mem_of_getLast? hlast)
    have hgap := hwell.gap_below hord hlast habove
    have hpts := fun x hx => hwell.lt_nextStart hord hhd hle (p := x) hx
    obtain ⟨b, es, hb⟩ := hwell.layout.holds _ hhd
    split at h
    · -- after the holder's last sample: append to it
      next hafter =>
      have hnonempty : row.value.segment.isEmpty = false := by
        have hentries : row.value.segment.entries = es.length := hb.built.sound.entries_eq
        rw [Segment.isEmpty, hentries, beq_eq_false_iff_ne, ne_eq, List.length_eq_zero_iff]
        exact hb.ne_nil
      rw [hnonempty, Bool.false_or, decide_eq_true_eq] at hafter
      exact hone h fun h₁ => .append hhd hgap hpts
        (fun x hx => lt_of_lt_of_le hafter (hfrom x (hsub x hx))) hhi h₁
    · -- among the holder's samples: merge and pack anew
      have hbase : b₀ ≤ q.ms := (hwell.layout.le_key_iff hhd hfits).mp hle
      exact hone h fun h₁ => .split hhd hgap hpts
        (fun x hx => le_trans hbase (hfrom x (hsub x hx))) hhi h₁

/-- One run written from a well-kept table leaves it well kept, for the same series. -/
theorem RunWrite.well {run : List Point} {w₁ : SeriesWrite} {t₁ : Tables} {v₁ : Versions}
    (hs : w.series.Clean) (ht : t.segments.SegmentsWell) (hasc : Point.Ascending run)
    (hrange : ∀ q ∈ run, Instant.minMillis ≤ q.ms ∧ q.ms ≤ Instant.maxMillis) :
    RunWrite ctx w run t v w₁ t₁ v₁ → t₁.segments.SegmentsWell ∧ w₁.series = w.series
  | .fresh hgap hlo hhi h => writeNewSegments_well hs hasc hrange hlo hhi ht hgap h
  | .append hhd hgap hpts hafter hhi h =>
    appendInOrder_well hs ht hhd hgap hpts hasc hrange hafter hhi h
  | .split hhd hgap hpts hbase hhi h =>
    splitSegment_well hs ht hhd hgap hpts hasc hrange hbase hhi h

/-- One local run written from a well-kept table overwrites the series' stored points with the
run: new segments and appended samples lie where no point was stored, and a merge puts the run
over the holder's samples. The write counts the live samples the rows gained. -/
theorem RunWrite.overwrites {run : List Point} {w₁ : SeriesWrite} {t₁ : Tables} {v₁ : Versions}
    (hs : w.series.Clean) (hlocal : w.remote = none) (ht : t.segments.SegmentsWell)
    (hasc : Point.Ascending run)
    (hrange : ∀ q ∈ run, Instant.minMillis ≤ q.ms ∧ q.ms ≤ Instant.maxMillis) :
    RunWrite ctx w run t v w₁ t₁ v₁ →
      Point.Overwrites (seriesPoints (t₁.segments.under w.series.pre))
        (seriesPoints (t.segments.under w.series.pre)) run ∧ Tables.Counts w.series.pre w t w₁ t₁ := by
  have hwell := ht.series _ hs
  intro hw
  cases hw with
  | fresh hgap hlo hhi h =>
    obtain ⟨hadds, hcount⟩ := writeNewSegments_adds hs hasc hrange hlo hhi ht hgap h
    refine ⟨hadds.overwrites hwell.layout.ascending hasc fun o ho q hq => ?_, hcount⟩
    obtain ⟨r, hr, hor⟩ := mem_seriesPoints.mp ho
    exact hgap.ms_ne hwell.layout hr hor (hlo q hq) (hhi q hq)
  | @append hd hi hhd hgap hpts hafter hhi h =>
    obtain ⟨hadds, hcount⟩ := appendInOrder_adds hs ht hhd hgap hpts hasc hrange hafter hhi h
    refine ⟨hadds.overwrites hwell.layout.ascending hasc fun o ho q hq => ?_, hcount⟩
    obtain ⟨b, es, hb⟩ := hwell.layout.holds hd hhd
    -- the run lies past the holder's last point, which lies at or past its baseline
    have hlast : ∀ p ∈ points hd, p.ms ≤ lastMs hd := fun p hp => by
      rw [lastMs, hb.baseline_eq]
      exact hb.le_lastTimestamp hp
    obtain ⟨r, hr, hor⟩ := mem_seriesPoints.mp ho
    by_cases hrk : r.1 = hd.1
    · rw [(ht.sorted.under w.series.pre).eq_of_key_eq hr hhd hrk] at hor
      have := hlast o hor
      have := hafter q hq
      omega
    · obtain ⟨p, hp, hpb⟩ := (hwell.starts hd hhd).at_baseline
      have := hlast p hp
      have := hafter q hq
      exact hgap.ms_ne (hwell.layout.sublist List.filter_sublist) (mem_filter_ne hr hrk) hor
        (by omega) (hhi q hq)
  | split hhd hgap hpts hbase hhi h =>
    exact splitSegment_overwrites hs hlocal ht hhd hgap hpts hasc hrange hbase hhi h

/-- Storing packed segments keeps the write's remote vector. -/
theorem putPacked_remote {prev : Option String} :
    ∀ (segs : List (Int × Segment)) {w w' : SeriesWrite} {t t' : Tables} {v v' : Versions},
      exec (putPacked w segs prev) ctx t v = (.ok (w', t'), v') → w'.remote = w.remote
  | [], _, _, _, _, _, _, h => by
    simp only [putPacked, List.foldlM_nil, exec_pure, Prod.mk.injEq, Except.ok.injEq] at h
    rw [h.1.1]
  | (b, s) :: segs, w, _, _, _, _, _, h => by
    unfold putPacked at h
    rw [List.foldlM_cons] at h
    obtain ⟨w₁, t₁, v₁, h₁, h₂⟩ := exec_bind_eq_ok.mp h
    obtain ⟨-, hrem₁, -⟩ := putSegment_eq_ok h₁
    exact (putPacked_remote segs h₂).trans hrem₁

/-- One run written keeps the write's remote vector. -/
theorem RunWrite.remote {run : List Point} {w₁ : SeriesWrite} {t₁ : Tables} {v₁ : Versions} :
    RunWrite ctx w run t v w₁ t₁ v₁ → w₁.remote = w.remote := by
  intro hw
  cases hw with
  | fresh _ _ _ h =>
    unfold writeNewSegments at h
    obtain ⟨segs, t₂, v₂, -, h₂⟩ := exec_bind_eq_ok.mp h
    exact putPacked_remote segs h₂
  | append _ _ _ _ _ h =>
    unfold appendInOrder at h
    obtain ⟨⟨updated, n⟩, t₂, v₂, -, h₂⟩ := exec_bind_eq_ok.mp h
    dsimp -zeta only at h₂
    extract_lets rest at h₂
    -- the holder grown or not, then new segments for what did not fit or nothing
    have hrest : ∀ {w₂ t₃ v₃}, exec (rest w₂) ctx t₃ v₃ = (.ok (w₁, t₁), v₁) →
        w₁.remote = w₂.remote := by
      intro w₂ t₃ v₃ h₄
      unfold rest at h₄
      split at h₄
      · unfold writeNewSegments at h₄
        obtain ⟨segs, t₄, v₄, -, h₅⟩ := exec_bind_eq_ok.mp h₄
        exact putPacked_remote segs h₅
      · simp only [exec_pure, Prod.mk.injEq, Except.ok.injEq] at h₄
        rw [h₄.1.1]
    split at h₂
    · obtain ⟨w₂, t₃, v₃, h₃, h₄⟩ := exec_bind_eq_ok.mp h₂
      exact (hrest h₄).trans (putSegment_eq_ok h₃).2.1
    · exact hrest h₂
  | split _ _ _ _ _ h =>
    unfold splitSegment at h
    obtain ⟨stored, t₂, v₂, -, h₂⟩ := exec_bind_eq_ok.mp h
    extract_lets merged at h₂
    obtain ⟨packed, t₃, v₃, -, h₃⟩ := exec_bind_eq_ok.mp h₂
    obtain ⟨u, t₄, v₄, -, h₄⟩ := exec_bind_eq_ok.mp h₃
    exact (putPacked_remote packed h₄ :)

/-- A write of points as a chain of runs, each written from where the one before left the
tables: each from a well-kept table, for a clean series, with the points left ascending and in
the range of instants. -/
inductive RunChain (ctx : Context) :
    SeriesWrite → Tables → Versions → List Point → SeriesWrite → Tables → Versions → Prop
  | nil (w : SeriesWrite) (t : Tables) (v : Versions) : RunChain ctx w t v [] w t v
  | cons {w w₁ w' : SeriesWrite} {t t₁ t' : Tables} {v v₁ v' : Versions} {run rest : List Point}
      (hs : w.series.Clean) (ht : t.segments.SegmentsWell) (hasc : Point.Ascending (run ++ rest))
      (hrange : ∀ q ∈ run ++ rest, Instant.minMillis ≤ q.ms ∧ q.ms ≤ Instant.maxMillis)
      (hrun : RunWrite ctx w run t v w₁ t₁ v₁) (hrest : RunChain ctx w₁ t₁ v₁ rest w' t' v') :
      RunChain ctx w t v (run ++ rest) w' t' v'

/-- A write of ascending points of the range that succeeds from a well-kept table writes them
as a chain of runs. -/
theorem writeRuns_chain (hs : w.series.Clean) {ps : List Point} (hasc : Point.Ascending ps)
    (hrange : ∀ q ∈ ps, Instant.minMillis ≤ q.ms ∧ q.ms ≤ Instant.maxMillis)
    (ht : t.segments.SegmentsWell) (h : exec (writeRuns w ps) ctx t v = (.ok (w', t'), v')) :
    RunChain ctx w t v ps w' t' v' := by
  induction w, ps using writeRuns.induct generalizing t v with
  | case1 w =>
    rw [writeRuns.eq_1, exec_pure] at h
    simp only [Prod.mk.injEq, Except.ok.injEq] at h
    obtain ⟨⟨rfl, rfl⟩, rfl⟩ := h
    exact .nil w t v
  | case2 w p more ih =>
    obtain ⟨qs, rest, w₁, t₁, v₁, hsplit, hrun, hrest⟩ := writeRuns_cons_eq_ok hs hasc hrange ht h
    -- the rest is what the induction reaches: the points past the first run
    have hdrop : rest = (p :: more).drop (qs.length + 1) := by
      rw [hsplit]
      exact (List.drop_left ..).symm
    rw [hsplit] at hasc hrange ⊢
    obtain ⟨hascRun, hascRest, -⟩ := Point.ascending_append.mp hasc
    obtain ⟨ht₁, hser₁⟩ := hrun.well hs ht hascRun fun q hq => hrange q (List.mem_append_left rest hq)
    refine .cons hs ht hasc hrange hrun ?_
    rw [hdrop] at hascRest hrest ⊢
    exact ih qs w₁ (hser₁ ▸ hs) hascRest
      (fun q hq => hrange q (List.mem_append_right _ (hdrop ▸ hq))) ht₁ hrest

/-- A local write of ascending points of the range, run by run, from a well-kept table: the
series then holds, up to padding, the given points its stored ones stand for overwritten with
the written ones, the written point winning at each timestamp both hold; and the write counts
the live samples the series gained. -/
theorem writeRuns_merges (hs : w.series.Clean) (hlocal : w.remote = none) {ps : List Point}
    (hasc : Point.Ascending ps)
    (hrange : ∀ q ∈ ps, Instant.minMillis ≤ q.ms ∧ q.ms ≤ Instant.maxMillis)
    (ht : t.segments.SegmentsWell) {xs : List Point} (hxs : Point.Ascending xs)
    (hold : List.Forall₂ Point.Pads (seriesPoints (t.segments.under w.series.pre)) xs)
    (h : exec (writeRuns w ps) ctx t v = (.ok (w', t'), v')) :
    List.Forall₂ Point.Pads (seriesPoints (t'.segments.under w.series.pre))
      (Point.merge false xs ps) ∧ Tables.Counts w.series.pre w t w' t' := by
  have hchain := writeRuns_chain hs hasc hrange ht h
  clear hs hasc hrange ht h
  -- the chain of runs, each overwriting what the one before left
  induction hchain generalizing xs with
  | nil w t v =>
    rw [Point.merge_nil_right]
    exact ⟨hold, Tables.Counts.of_eq rfl rfl⟩
  | @cons w w₁ w' t t₁ t' v v₁ v' run rest hs ht hasc hrange hrun hrest ih =>
    obtain ⟨hascRun, hascRest, hbefore⟩ := Point.ascending_append.mp hasc
    have hrangeRun := fun q hq => hrange q (List.mem_append_left rest hq)
    obtain ⟨ht₁, hser₁⟩ := hrun.well hs ht hascRun hrangeRun
    obtain ⟨hover, hcount⟩ := hrun.overwrites hs hlocal ht hascRun hrangeRun
    have hmid := Point.pads_merge_of_overwrites hold
      ((ht₁.series _ hs).layout.ascending) hxs hascRun hover
    rw [← hser₁] at hmid
    obtain ⟨hpads, hcount'⟩ := ih (hrun.remote.trans hlocal) (hxs.merge false hascRun) hmid
    rw [hser₁] at hpads hcount'
    rw [Point.merge_append hxs hascRun hascRest hbefore]
    exact ⟨hpads, hcount.trans hcount'⟩

end Txn

end SeriesStore
