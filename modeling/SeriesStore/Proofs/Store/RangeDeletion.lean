import Mathlib
import SeriesStore.Proofs.Store.LiveStats
import SeriesStore.Proofs.Time.BucketTiling

/-!
# Deleting a range of samples from a series

A deletion of the range `[fromMs, toMs]` visits the segment rows of its series from the last one
starting at or before `fromMs`, and encodes each anew with the samples of the range made dead
(`killRange_spec`), or drained to one dead sample when the range covers it. A row is written
only when it holds a live sample of the range, and a local deletion writes every such row unless
the change vector of the row already covers the deletion's own.

For rows that lie well and change vectors older than the deletion's, the deletion succeeds and
leaves exactly the live points outside the range (`Txn.deleteInSegments_trims`); the rows stay
well kept, and a live sample of the range is what comes back as the earliest one removed.
-/

namespace SeriesStore

open StoredRow

/-! ## One segment -/

/-- Whether a point lies in the range `[fromMs, toMs]`. -/
def Point.within (fromMs toMs : Int) (q : Point) : Bool := decide (fromMs ≤ q.ms) && decide (q.ms ≤ toMs)

/-- An entry with its sample made dead when it lies in the range. -/
def Entry.killIn (b fromMs toMs : Int) (e : Entry) : Entry :=
  { e with status := if e.inRange b fromMs toMs then .dead else e.status }

@[simp] theorem Point.within_ofEntry (b fromMs toMs : Int) (e : Entry) :
    (Point.ofEntry b e).within fromMs toMs = e.inRange b fromMs toMs := rfl

theorem Point.within_eq_true_iff {fromMs toMs : Int} {q : Point} :
    q.within fromMs toMs = true ↔ fromMs ≤ q.ms ∧ q.ms ≤ toMs := by
  simp [Point.within]

theorem Point.within_eq_false_iff {fromMs toMs : Int} {q : Point} :
    q.within fromMs toMs = false ↔ q.ms < fromMs ∨ toMs < q.ms := by
  simp only [Point.within, Bool.and_eq_false_imp, decide_eq_true_eq, decide_eq_false_iff_not]
  omega

section KillRange

variable {s : Segment} {es : List Entry} {b fromMs toMs : Int}

theorem Segment.Built.ofWidth_ok (h : s.Built es) : ∃ s₀, Segment.ofWidth s.width = .ok s₀ := by
  have hs := h.sound
  unfold Segment.ofWidth
  rw [if_neg (by have := hs.width_pos; have := hs.width_le; omega)]
  exact ⟨_, rfl⟩

/-- Deleting a range from a built segment succeeds. When no live sample lies in the range
nothing is written; else the first live sample of the range comes back, with the segment rebuilt
with every sample of the range dead, or drained to one dead sample when the range covers it. -/
theorem killRange_spec (h : s.Built es) (b fromMs toMs : Int) :
    (killRange s b fromMs toMs = .ok none ∧
      ∀ e ∈ es, e.isLive = true → e.inRange b fromMs toMs = false) ∨
    ∃ s' e, killRange s b fromMs toMs = .ok (some (s', b + e.offset)) ∧ e ∈ es ∧
      e.isLive = true ∧ e.inRange b fromMs toMs = true ∧
      (s'.Built (es.map (Entry.killIn b fromMs toMs)) ∨
        fromMs ≤ b ∧ s.lastTimestamp b ≤ toMs ∧
          s'.Built [⟨0, Segment.padded s.width [], none, .dead⟩]) := by
  obtain ⟨s₀, h₀⟩ := h.ofWidth_ok
  unfold killRange
  rw [h.sound.samples, Except.ok_bind]
  dsimp only
  split
  · next hnone =>
    refine .inl ⟨rfl, fun e he hlive => ?_⟩
    have := List.find?_eq_none.mp hnone e he
    simp only [hlive, Bool.true_and, Bool.not_eq_true] at this
    exact this
  · next first hfind =>
    have hmem := List.mem_of_find?_eq_some hfind
    have hfirst := List.find?_some hfind
    change (first.isLive && first.inRange b fromMs toMs) = true at hfirst
    rw [Bool.and_eq_true] at hfirst
    right
    rw [h₀, Except.ok_bind]
    split
    · next hwhole =>
      simp only [Bool.and_eq_true, decide_eq_true_eq] at hwhole
      obtain ⟨one, hone, hbuilt⟩ := Segment.built_drained h₀
      rw [hone]
      exact ⟨one, first, rfl, hmem, hfirst.1, hfirst.2,
        .inr ⟨hwhole.1, hwhole.2, by simpa using hbuilt⟩⟩
    · -- the samples are taken again, those of the range made dead
      refine ⟨_, first, Except.bind_eq_ok.mpr ⟨_, (h.restatus _ ?hg h₀).choose_spec.1, rfl⟩, hmem,
        hfirst.1, hfirst.2, .inl (h.restatus _ ?hg h₀).choose_spec.2.1⟩
      intro acc e acc' happ
      simp only [Entry.inRange, Bool.and_eq_true, decide_eq_true_eq] at happ ⊢
      rw [happ]
      rfl

end KillRange

/-! ## A row encoded anew -/

namespace Placed

variable {b : Int} {es : List Entry} {s s' : Segment} {fromMs toMs : Int}

/-- Making the samples of a range dead keeps a placed segment placed. -/
theorem killIn (h : Placed b es s) (hb : s'.Built (es.map (Entry.killIn b fromMs toMs))) :
    Placed b (es.map (Entry.killIn b fromMs toMs)) s' where
  built := hb
  ne_nil := by simpa using h.ne_nil
  ascending := by
    have := h.ascending
    simpa [Point.Ascending, List.pairwise_map, Point.ofEntry, Entry.killIn] using this
  at_baseline := by
    obtain ⟨e, he, h0⟩ := h.at_baseline
    exact ⟨_, List.mem_map_of_mem he, h0⟩
  in_range := by
    intro x hx
    obtain ⟨e, he, rfl⟩ := List.mem_map.mp hx
    exact h.in_range e he

/-- A segment drained to one dead sample at the baseline is placed there. -/
theorem drained (h : Placed b es s) {w : Nat}
    (hb : s'.Built [⟨0, Segment.padded w [], none, .dead⟩]) :
    Placed b [⟨0, Segment.padded w [], none, .dead⟩] s' where
  built := hb
  ne_nil := List.cons_ne_nil _ _
  ascending := List.pairwise_singleton _ _
  at_baseline := ⟨_, List.mem_singleton_self _, rfl⟩
  in_range := by
    obtain ⟨e, he, h0⟩ := h.at_baseline
    have := h.in_range e he
    rw [h0] at this
    intro e' he'
    rw [List.mem_singleton.mp he']
    exact this

end Placed

/-- The live points of entries with the range made dead are their live points outside it. -/
theorem live_killIn (b fromMs toMs : Int) (es : List Entry) :
    ((es.map (Entry.killIn b fromMs toMs)).map (Point.ofEntry b)).filter Point.isLive =
      ((es.map (Point.ofEntry b)).filter Point.isLive).filter fun q => !q.within fromMs toMs := by
  induction es with
  | nil => rfl
  | cons e es ih =>
    simp only [List.map_cons, List.filter_cons, ih]
    by_cases hin : e.inRange b fromMs toMs = true
    · -- a sample of the range is dead now, and was dropped as lying in the range
      have hdead : (Point.ofEntry b (e.killIn b fromMs toMs)).isLive = false := by
        simp [Entry.killIn, hin, Point.isLive, Point.ofEntry]
      simp only [hdead, Bool.false_eq_true, if_false]
      split <;> simp [hin]
    · have hkeep : e.killIn b fromMs toMs = e := by simp [Entry.killIn, hin]
      rw [hkeep]
      split <;> simp [hin]

namespace StoredRow

variable {pre : Key} {b : Int} {es : List Entry} {r : Key × Row SegmentRow} {fromMs toMs : Int}

/-- A row holding a live sample of the range, encoded anew: its new segment is placed at its
baseline, holds the row's live points outside the range, ends no later than the row, and the
sample that comes back is a live point of the row in the range. -/
theorem Holds.killRange_some (hr : Holds pre b es r) (hst : Starts r) {s' : Segment}
    {removed : Int} (hk : killRange r.2.value.segment b fromMs toMs = .ok (some (s', removed))) :
    ∃ es', Placed b es' s' ∧
      (es'.map (Point.ofEntry b)).filter Point.isLive =
        ((points r).filter Point.isLive).filter (fun q => !q.within fromMs toMs) ∧
      (∀ e ∈ es', b + e.offset ≤ r.2.value.segment.lastTimestamp b) ∧
      ∃ q ∈ (points r).filter Point.isLive, q.within fromMs toMs = true ∧ removed = q.ms := by
  have hp := Placed.of_holds hr hst
  rcases killRange_spec hr.built b fromMs toMs with ⟨hnone, -⟩ | ⟨s'', e, hk', he, hlive, hin, hbuilt⟩
  · rw [hk] at hnone
    cases hnone
  rw [hk] at hk'
  cases hk'
  have hq : Point.ofEntry b e ∈ (points r).filter Point.isLive := by
    rw [hr.filter_isLive]
    exact List.mem_map_of_mem (List.mem_filter.mpr ⟨he, hlive⟩)
  rcases hbuilt with hb | ⟨hfrom, hlast, hb⟩
  · refine ⟨_, hp.killIn hb, by rw [hr.points_eq]; exact live_killIn b fromMs toMs es,
      fun x hx => ?_, Point.ofEntry b e, hq, hin, rfl⟩
    obtain ⟨e', he', rfl⟩ := List.mem_map.mp hx
    exact hp.offset_le_last e' he'
  · -- the range covers the row: no live point is left on either side
    have hcover : ∀ q ∈ points r, q.within fromMs toMs = true := by
      intro q hq
      have := hr.baseline_le hq
      have := hr.le_lastTimestamp hq
      rw [Point.within_eq_true_iff]
      omega
    refine ⟨_, hp.drained hb, ?_, fun x hx => ?_, Point.ofEntry b e, hq, hin, rfl⟩
    · have hnil : ((points r).filter Point.isLive).filter (fun q => !q.within fromMs toMs) = [] :=
        List.filter_eq_nil_iff.mpr fun q hq => by simp [hcover q (List.mem_filter.mp hq).1]
      rw [hnil]
      simp [Point.isLive, Point.ofEntry]
    · rw [List.mem_singleton.mp hx]
      simpa using hp.le_lastTimestamp

end StoredRow

/-! ## The rows of a series -/

/-- The live points of rows, row after row. -/
def liveOf (rows : List (Key × Row SegmentRow)) : List Point := (seriesPoints rows).filter Point.isLive

@[simp] theorem liveOf_nil : liveOf [] = [] := rfl

@[simp] theorem liveOf_cons (r : Key × Row SegmentRow) (rows : List (Key × Row SegmentRow)) :
    liveOf (r :: rows) = (points r).filter Point.isLive ++ liveOf rows := List.filter_append _ _

@[simp] theorem liveOf_append (rows rows' : List (Key × Row SegmentRow)) :
    liveOf (rows ++ rows') = liveOf rows ++ liveOf rows' := by
  rw [liveOf, seriesPoints_append, List.filter_append]
  rfl

theorem Tables.live_eq_liveOf (t : Tables) (s : SeriesRef) :
    t.live s = liveOf (t.segments.under s.pre) := rfl

/-- Putting a row under the key of a row of an ordered list replaces that row in place. -/
theorem Table.putRow_replace {α : Type} {D B : List (Key × Row α)} {k : Key} {x y : Row α}
    (h : Table.Ordered (D ++ (k, x) :: B)) : Table.putRow k y (D ++ (k, x) :: B) = D ++ (k, y) :: B := by
  rw [Table.putRow_append_of_lt fun z hz => (List.pairwise_append.mp h).2.2 z hz _ List.mem_cons_self,
    Table.putRow_cons_self]

/-- A row's live points, read from its entries, are as many as its live entries. -/
theorem length_filter_isLive_map (b : Int) (es : List Entry) :
    ((es.map (Point.ofEntry b)).filter Point.isLive).length = (es.filter Entry.isLive).length := by
  rw [List.filter_map, List.length_map]
  rfl

section Layout

variable {pre : Key} {D B : List (Key × Row SegmentRow)} {r : Key × Row SegmentRow}

/-- The rows after a row hold points past its last one. -/
theorem SeriesWell.lastMs_lt (h : SeriesWell pre (D ++ r :: B)) :
    ∀ u ∈ B, ∀ q ∈ points u, lastMs r < q.ms := by
  intro u hu q hq
  have hchain := (List.pairwise_cons.mp (List.pairwise_append.mp h.layout.chain).2.1).1 u hu
  obtain ⟨b, es, hr⟩ := h.layout.holds r (by simp)
  obtain ⟨bu, esu, hu'⟩ := h.layout.holds u (by simp [hu])
  obtain ⟨p, hp, hpl⟩ := hr.exists_lastTimestamp
  have := hchain p hp
  have := hu'.baseline_le hq
  rw [lastMs, hr.baseline_eq, ← hpl]
  rw [hu'.baseline_eq] at *
  omega

/-- A row and the rows after it hold points at or past its baseline. -/
theorem SeriesWell.baseline_le (h : SeriesWell pre (D ++ r :: B)) :
    ∀ u ∈ r :: B, ∀ q ∈ points u, baseline r ≤ q.ms := by
  obtain ⟨b, es, hr⟩ := h.layout.holds r (by simp)
  intro u hu q hq
  rcases List.mem_cons.mp hu with rfl | hu
  · exact hr.baseline_eq ▸ hr.baseline_le hq
  · -- a later row holds points past the last point of `r`, which lies at or past its baseline
    have h₁ := h.lastMs_lt u hu q hq
    obtain ⟨p, hp, hpl⟩ := hr.exists_lastTimestamp
    have h₂ := hr.baseline_le hp
    rw [lastMs, hr.baseline_eq, ← hpl] at h₁
    rw [hr.baseline_eq]
    omega

end Layout

/-! ## The rows a deletion visits -/

theorem Table.Ordered.filter_lt_append_filter_le {α : Type} {rows : List (Key × Row α)}
    (h : Table.Ordered rows) (k : Key) :
    rows.filter (fun x => Key.lt x.1 k) ++ rows.filter (fun x => Key.le k x.1) = rows := by
  induction rows with
  | nil => rfl
  | cons x xs ih =>
    by_cases hx : Key.lt x.1 k = true
    · have hle : Key.le k x.1 = false := Key.le_eq_false_iff.mpr hx
      simp only [List.filter_cons, hx, hle, if_true, Bool.false_eq_true, if_false, List.cons_append]
      rw [ih h.tail]
    · have hle : Key.le k x.1 = true := Key.lt_eq_false_iff.mp (by simpa using hx)
      -- every later row lies above `x`, so at or above `k`
      have hall : ∀ y ∈ xs, Key.le k y.1 = true := fun y hy =>
        Key.le_of_lt (Key.lt_of_le_of_lt hle (h.lt_of_mem hy))
      have hnone : xs.filter (fun y => Key.lt y.1 k) = [] :=
        List.filter_eq_nil_iff.mpr fun y hy hlt => by
          have := hall y hy
          rw [Key.le_eq_false_iff.mpr hlt] at this
          cases this
      simp only [List.filter_cons, hx, hle, if_true, Bool.false_eq_true, if_false, hnone,
        List.filter_eq_self.mpr hall, List.nil_append]

/-- A deletion from `fromMs` visits the rows of its series from the last one starting at or
before `fromMs`, or from the first when none does: the rows it skips end before `fromMs`. -/
theorem visited_rows {tbl : Table SegmentRow} (h : tbl.Sorted) {pre : Key}
    (hsw : SeriesWell pre (tbl.under pre)) {fromMs : Int} (hfits : I64.fits fromMs = true) :
    ∃ D B, tbl.under pre = D ++ B ∧
      (match (match tbl.seekBackward pre (Key.segmentOfPrefix pre fromMs) with
          | some (k, _) => some k
          | none => ((tbl.seekForward pre (Key.segmentOfPrefix pre fromMs)).head?).map Prod.fst) with
        | some k => (tbl.seekForward pre k).map Prod.fst
        | none => []) = B.map Prod.fst ∧
      ∀ u ∈ D, ∀ q ∈ points u, q.ms < fromMs := by
  have hord := h.under pre
  have hk := Key.startsWith_segmentOfPrefix pre fromMs
  rw [Table.seekBackward_eq h hk]
  cases hlast : ((tbl.under pre).filter fun x =>
      Key.le x.1 (Key.segmentOfPrefix pre fromMs)).getLast? with
  | some x =>
    obtain ⟨hx, hxle⟩ := List.mem_filter.mp (List.mem_of_getLast? hlast)
    obtain ⟨k, row⟩ := x
    dsimp only
    rw [Table.seekForward_eq h (Table.startsWith_of_mem_under hx)]
    refine ⟨_, _, (hord.filter_lt_append_filter_le k).symm, rfl, fun u hu q hq => ?_⟩
    obtain ⟨hu, hlt⟩ := List.mem_filter.mp hu
    -- `u` comes before the row found, which starts at or before `fromMs`
    have := Table.Ordered.rel_of_lt hord hsw.layout.chain hu hx hlt q hq
    have := (hsw.layout.le_key_iff hx hfits).mp hxle
    omega
  | none =>
    -- every row starts past `fromMs`, so the visit starts at the first row
    have hall : ∀ x ∈ tbl.under pre, Key.le (Key.segmentOfPrefix pre fromMs) x.1 = true := by
      intro x hx
      have hnot := List.filter_eq_nil_iff.mp (List.getLast?_eq_none_iff.mp hlast) x hx
      exact Key.le_of_lt (Key.le_eq_false_iff.mp (by simpa using hnot))
    dsimp only
    rw [Table.seekForward_eq h hk, List.filter_eq_self.mpr hall]
    cases hrows : tbl.under pre with
    | nil => exact ⟨[], [], rfl, rfl, by simp⟩
    | cons y ys =>
      have hy : y ∈ tbl.under pre := by rw [hrows]; simp
      have hfirst : ∀ z ∈ tbl.under pre, Key.le y.1 z.1 = true := by
        intro z hz
        rw [hrows] at hz hord
        rcases List.mem_cons.mp hz with rfl | hz
        · exact Key.le_iff.mpr (by rw [Key.compare_self]; simp)
        · exact Key.le_of_lt (hord.lt_of_mem hz)
      dsimp only [List.head?_cons, Option.map_some]
      rw [Table.seekForward_eq h (Table.startsWith_of_mem_under hy), List.filter_eq_self.mpr hfirst,
        hrows]
      exact ⟨[], y :: ys, rfl, rfl, by simp⟩

/-! ## Deleting from the rows, row after row -/

/-- What deleting `[fromMs, toMs]` from the rows `B` of the series `s`, which follow its rows
`D`, did, from the tables `t`, the write `w` and the earliest sample removed so far `e`, to `t'`,
`w'` and `e'`: the rows are `D`, then rows holding the live points of `B` outside the range, and
stay well kept; the write counts the live points lost; a sample was removed exactly when one was
before or `B` held a live one in the range, and then a segment was written. -/
structure RangeDeleted (s : SeriesRef) (fromMs toMs : Int) (D B : List (Key × Row SegmentRow))
    (t : Tables) (w : SeriesWrite) (e : Option Int) (t' : Tables) (w' : SeriesWrite)
    (e' : Option Int) : Prop where
  well : t'.segments.SegmentsWell
  rows : ∃ B', t'.segments.under s.pre = D ++ B' ∧
    liveOf B' = (liveOf B).filter fun q => !q.within fromMs toMs
  stats : t'.stats = t.stats
  rollups : t'.rollups = t.rollups
  series : w'.series = w.series
  remote : w'.remote = w.remote
  delta : w'.liveDelta = w.liveDelta +
    ((((liveOf B).filter fun q => !q.within fromMs toMs).length : Int) - (liveOf B).length)
  removed_none : e' = none ↔ e = none ∧ ∀ q ∈ liveOf B, q.within fromMs toMs = false
  written : (e.isSome → w.changeVector.isSome) → e'.isSome → w'.changeVector.isSome
  removed_mem : (∀ m, e = some m → Instant.minMillis ≤ m ∧ m ≤ Instant.maxMillis) →
    ∀ m, e' = some m → Instant.minMillis ≤ m ∧ m ≤ Instant.maxMillis

namespace RangeDeleted

variable {s : SeriesRef} {fromMs toMs : Int} {D B : List (Key × Row SegmentRow)} {t t' : Tables}
  {w w' : SeriesWrite} {e e' : Option Int}

/-- Rows with no live point in the range are left as they are. -/
theorem refl (hwell : t.segments.SegmentsWell) (hunder : t.segments.under s.pre = D ++ B)
    (hout : ∀ q ∈ liveOf B, q.within fromMs toMs = false) :
    RangeDeleted s fromMs toMs D B t w e t w e := by
  have hkeep : (liveOf B).filter (fun q => !q.within fromMs toMs) = liveOf B :=
    List.filter_eq_self.mpr fun q hq => by simp [hout q hq]
  refine ⟨hwell, ⟨B, hunder, hkeep.symm⟩, rfl, rfl, rfl, rfl, by rw [hkeep]; omega, ?_, id, id⟩
  exact ⟨fun h => ⟨h, hout⟩, fun h => h.1⟩

/-- One row handled, then the rows after it: the row became `r₁`, which holds its live points
outside the range, and the write and the earliest sample removed moved on accordingly. -/
theorem cons {r r₁ : Key × Row SegmentRow} {t₁ : Tables} {w₁ : SeriesWrite} {e₁ : Option Int}
    (hlive : (points r₁).filter Point.isLive =
      ((points r).filter Point.isLive).filter fun q => !q.within fromMs toMs)
    (hstats : t₁.stats = t.stats) (hroll : t₁.rollups = t.rollups)
    (hser : w₁.series = w.series) (hrem : w₁.remote = w.remote)
    (hdelta : w₁.liveDelta = w.liveDelta +
      (((((points r).filter Point.isLive).filter fun q => !q.within fromMs toMs).length : Int) -
        ((points r).filter Point.isLive).length))
    (hnone : e₁ = none ↔ e = none ∧
      ∀ q ∈ (points r).filter Point.isLive, q.within fromMs toMs = false)
    (hwritten : (e.isSome → w.changeVector.isSome) → e₁.isSome → w₁.changeVector.isSome)
    (hmem : (∀ m, e = some m → Instant.minMillis ≤ m ∧ m ≤ Instant.maxMillis) →
      ∀ m, e₁ = some m → Instant.minMillis ≤ m ∧ m ≤ Instant.maxMillis)
    (h : RangeDeleted s fromMs toMs (D ++ [r₁]) B t₁ w₁ e₁ t' w' e') :
    RangeDeleted s fromMs toMs D (r :: B) t w e t' w' e' := by
  obtain ⟨B', hu, hl⟩ := h.rows
  refine ⟨h.well, ⟨r₁ :: B', by simpa using hu, ?_⟩, h.stats.trans hstats, h.rollups.trans hroll,
    h.series.trans hser, h.remote.trans hrem, ?_, ?_, fun hw => h.written (hwritten hw),
    fun hm => h.removed_mem (hmem hm)⟩
  · rw [liveOf_cons, hl, hlive, liveOf_cons, List.filter_append]
  · rw [h.delta, hdelta, liveOf_cons, List.filter_append, List.length_append, List.length_append]
    push_cast
    ring
  · rw [h.removed_none, hnone, liveOf_cons, List.forall_mem_append, and_assoc]

/-! The rows `D` a deletion skips end before the range, so the live points it keeps are those of
the series outside the range. -/

theorem within_skipped (hD : ∀ u ∈ D, ∀ q ∈ points u, q.ms < fromMs) :
    ∀ q ∈ liveOf D, q.within fromMs toMs = false := by
  intro q hq
  obtain ⟨u, hu, hq⟩ := List.mem_flatMap.mp (List.mem_filter.mp hq).1
  have := hD u hu q hq
  rw [Point.within_eq_false_iff]
  omega

theorem filter_skipped (hD : ∀ u ∈ D, ∀ q ∈ points u, q.ms < fromMs) :
    (liveOf D).filter (fun q => !q.within fromMs toMs) = liveOf D :=
  List.filter_eq_self.mpr fun q hq => by simp [within_skipped hD q hq]

/-- A live point of the series in the range is one of the rows handled. -/
theorem mem_handled_of_within (hunder : t.segments.under s.pre = D ++ B)
    (hD : ∀ u ∈ D, ∀ q ∈ points u, q.ms < fromMs) {q : Point} (hq : q ∈ t.live s)
    (hin : q.within fromMs toMs = true) : q ∈ liveOf B := by
  rw [Tables.live_eq_liveOf, hunder, liveOf_append, List.mem_append] at hq
  rcases hq with hq | hq
  · rw [within_skipped hD q hq] at hin
    cases hin
  · exact hq

theorem live_eq (h : RangeDeleted s fromMs toMs D B t w e t' w' e')
    (hunder : t.segments.under s.pre = D ++ B) (hD : ∀ u ∈ D, ∀ q ∈ points u, q.ms < fromMs) :
    t'.live s = (t.live s).filter fun q => !q.within fromMs toMs := by
  obtain ⟨B', hu, hl⟩ := h.rows
  rw [Tables.live_eq_liveOf, hu, liveOf_append, hl, Tables.live_eq_liveOf, hunder, liveOf_append,
    List.filter_append, filter_skipped hD]

/-- The write counts the live points the series lost. -/
theorem length_live (h : RangeDeleted s fromMs toMs D B t w e t' w' e')
    (hunder : t.segments.under s.pre = D ++ B) (hD : ∀ u ∈ D, ∀ q ∈ points u, q.ms < fromMs) :
    ((t'.live s).length : Int) + w.liveDelta = (t.live s).length + w'.liveDelta := by
  rw [h.live_eq hunder hD, h.delta, Tables.live_eq_liveOf, hunder, liveOf_append,
    List.filter_append, filter_skipped hD, List.length_append, List.length_append]
  push_cast
  omega

end RangeDeleted

/-! ## Rollups due sooner -/

namespace Tables

/-- From `t` to `t'` no pending rollup became due later: a rollup due by a time stays due by
it. -/
def RollupsSooner (t t' : Tables) : Prop :=
  ∀ k ms, t.hasPendingRollup k ms = true → t'.hasPendingRollup k ms = true

theorem RollupsSooner.refl (t : Tables) : RollupsSooner t t := fun _ _ h => h

theorem RollupsSooner.trans {t₁ t₂ t₃ : Tables} (h₁ : RollupsSooner t₁ t₂)
    (h₂ : RollupsSooner t₂ t₃) : RollupsSooner t₁ t₃ := fun k ms h => h₂ k ms (h₁ k ms h)

theorem RollupsSooner.of_eq {t t' : Tables} (h : t'.rollups = t.rollups) : RollupsSooner t t' :=
  fun k ms hk => by rwa [hasPendingRollup, h]

end Tables

/-- A policy whose buckets a grid cuts: its aggregation is an accepted step of 64 bits. -/
def Policy.GridOk (p : Policy) : Prop :=
  (∃ g, BucketGrid.ofSpan p.aggregation = .ok g) ∧ I64.fits p.aggregation.value = true

/-- The rollup into a policy whose buckets a grid cuts is due, for every instant of the range,
at the start of the next bucket. -/
theorem nextRollup_ok {p : Policy} (hp : p.GridOk) {ms : Int} (h₁ : Instant.minMillis ≤ ms)
    (h₂ : ms ≤ Instant.maxMillis) : ∃ d, nextRollup ms p = .ok d := by
  obtain ⟨⟨g, hg⟩, hfit⟩ := hp
  obtain ⟨st, n, htiles⟩ := BucketGrid.tiles_time_line hg hfit h₁ h₂
  refine ⟨n, ?_⟩
  unfold nextRollup
  rw [hg, Except.ok_bind, htiles.nextAfter_eq]
  rfl

/-- Every policy a configuration chains after another cuts its buckets on a grid. -/
def Configuration.GridsOk (cfg : Option Configuration) : Prop :=
  ∀ c, cfg = some c → ∀ chain ∈ c.collections, ∀ p ∈ chain.2.policies, p.GridOk

theorem Configuration.mem_of_collection? {cfg : Configuration} {n : String} {chain : PolicyChain}
    (h : cfg.collection? n = some chain) : ∃ c ∈ cfg.collections, c.2 = chain := by
  unfold Configuration.collection? at h
  obtain ⟨c, hc, rfl⟩ := Option.map_eq_some_iff.mp h
  exact ⟨c, List.mem_of_find?_eq_some hc, rfl⟩

theorem PolicyChain.mem_of_nextPolicy {c : PolicyChain} {i : Nat} {p : Policy}
    (h : c.nextPolicy i = .named p) : p ∈ c.policies := by
  unfold PolicyChain.nextPolicy at h
  split at h
  · next p' hp' =>
    cases h
    exact List.mem_of_getElem? hp'
  · cases h

/-! ## Taking a name off a document -/

/-- A document whose metadata is an object takes every change of its metadata. -/
theorem Document.updateMetadata_ok {d : Document} {m : List (String × Json)}
    (hm : d.metadata? = some m) (f : List (String × Json) → List (String × Json)) :
    ∃ d', d.updateMetadata f = .ok d' := by
  obtain ⟨j, hj, hjm⟩ := Option.bind_eq_some_iff.mp hm
  unfold Document.updateMetadata
  cases hd : d.data with
  | obj root =>
    simp only [hd, Json.get?] at hj
    dsimp only
    rw [hj]
    cases j with
    | obj m' => exact ⟨_, rfl⟩
    | _ => simp [Json.asObject?] at hjm
  | _ => simp [hd, Json.get?] at hj

/-- Taking a series name off its document never fails: a name is found only on a list of names,
which sits in metadata that is an object. -/
theorem Tables.removeSeriesName_ok (t : Tables) (id name : String) :
    ∃ t' b, t.removeSeriesName id name = .ok (t', b) := by
  unfold Tables.removeSeriesName
  split
  · exact ⟨_, _, rfl⟩
  · next d _ =>
    split
    · exact ⟨_, _, rfl⟩
    · next names hnames =>
      have hne : d.seriesNames ≠ [] := by
        intro hnil
        rw [Document.removeName, hnil] at hnames
        simp [searchSorted] at hnames
      obtain ⟨m, hm⟩ : ∃ m, d.metadata? = some m := by
        unfold Document.seriesNames at hne
        cases hmeta : d.metadata? with
        | none => simp [hmeta] at hne
        | some m => exact ⟨m, rfl⟩
      exact ⟨_, _, Except.bind_eq_ok.mpr ⟨_, (Document.updateMetadata_ok hm _).choose_spec, rfl⟩⟩

namespace Txn

open SeriesStore.Tables Versions

variable {ctx : Context} {t : Tables} {v : Versions} {s : SeriesRef} {ms : Int}

/-- Finding the policy a write rolls up into succeeds when the policies chained cut their
buckets on a grid, and names such a policy. -/
theorem rollupTarget_ok (hgrid : Configuration.GridsOk ctx.configuration)
    (h₁ : Instant.minMillis ≤ ms) (h₂ : ms ≤ Instant.maxMillis) (dead : Bool) :
    Succeeds (rollupTarget s ms dead) ctx t v fun target t' v' =>
      t' = t ∧ v' = v ∧ ∀ p, target = some p → p.GridOk := by
  unfold rollupTarget
  refine Succeeds.bind (Succeeds.configuration (Q := fun c t' v' =>
    c = ctx.configuration ∧ t = t' ∧ v = v') ⟨rfl, rfl, rfl⟩) ?_
  rintro found _ _ ⟨hfound, rfl, rfl⟩
  have hnone : Succeeds (pure none : Txn (Option Policy)) ctx t v fun target t' v' =>
      t' = t ∧ v' = v ∧ ∀ p, target = some p → p.GridOk :=
    Succeeds.pure _ ⟨rfl, rfl, fun _ h => by cases h⟩
  split <;> [skip; exact hnone]
  next _ cfg =>
  split <;> [skip; exact hnone]
  next _ chain hchain =>
  split <;> [exact hnone; skip]
  split <;> [skip; exact hnone]
  next i hi =>
  split <;> [skip; exact hnone]
  next next hnext =>
  -- the policy named next in the chain of a configured collection
  have hok : next.GridOk := by
    obtain ⟨c, hc, rfl⟩ := Configuration.mem_of_collection? hchain
    exact hgrid cfg hfound.symm c hc next (PolicyChain.mem_of_nextPolicy hnext)
  have hsome : Succeeds (pure (some next) : Txn (Option Policy)) ctx t v fun target t' v' =>
      t' = t ∧ v' = v ∧ ∀ p, target = some p → p.GridOk :=
    Succeeds.pure _ ⟨rfl, rfl, fun _ h => by cases h; exact hok⟩
  extract_lets answer
  split <;> [skip; exact hsome]
  split <;> [skip; exact hsome]
  extract_lets retention
  split <;> [skip; exact hsome]
  obtain ⟨due, hdue⟩ := nextRollup_ok hok h₁ h₂
  refine Succeeds.lift_bind hdue ?_
  refine Succeeds.bind (Succeeds.now (Q := fun c t' v' => t = t' ∧ v = v') ⟨rfl, rfl⟩) ?_
  rintro clock _ _ ⟨rfl, rfl⟩
  split
  · exact hnone
  · exact hsome

/-- Scheduling a rollup into a policy whose buckets a grid cuts succeeds; it makes no rollup due
later, touches neither segments nor statistics, and stamps the change vector. -/
theorem scheduleRollup_ok {next : Policy} (hok : next.GridOk) (h₁ : Instant.minMillis ≤ ms)
    (h₂ : ms ≤ Instant.maxMillis) :
    Succeeds (scheduleRollup s next ms none) ctx t v fun _ t' v' =>
      t'.segments = t.segments ∧ t'.stats = t.stats ∧ RollupsSooner t t' ∧
        Stamped ctx.settings.nodeTag ctx.settings.databaseId v v' := by
  unfold scheduleRollup
  obtain ⟨due, hdue⟩ := nextRollup_ok hok h₁ h₂
  refine Succeeds.lift_bind hdue (Succeeds.tables_bind ?_)
  extract_lets schedule
  -- `schedule`: an entry due at `due` goes in, unless one is due no later
  have hschedule : (∀ r, t.rollups.get? s.key = some r → due < r.value.nextRollup) →
      Succeeds (schedule ()) ctx t v fun _ t' v' =>
        t'.segments = t.segments ∧ t'.stats = t.stats ∧ RollupsSooner t t' ∧
          Stamped ctx.settings.nodeTag ctx.settings.databaseId v v' := by
    intro hlater
    unfold schedule
    refine Succeeds.bind (Succeeds.nextEtag (Q := fun e t' v' =>
      e = v.lastEtag + 1 ∧ t = t' ∧ { v with lastEtag := v.lastEtag + 1 } = v') ⟨rfl, rfl, rfl⟩) ?_
    rintro etag _ _ ⟨rfl, rfl, rfl⟩
    extract_lets put
    refine Succeeds.bind (Succeeds.newChangeVector (Q := fun cv t' v' => t' = t ∧
      Stamped ctx.settings.nodeTag ctx.settings.databaseId v v')
      ⟨rfl, (Stamped.refl v).nextEtag.stamp (by simp)⟩) ?_
    rintro cv _ v₁ ⟨rfl, hv₁⟩
    unfold put
    refine Succeeds.change ⟨rfl, rfl, fun k m hk => ?_, hv₁⟩
    -- the key scheduled is now due at `due`, no later than before; the others are as they were
    by_cases hks : s.key = k
    · subst hks
      unfold hasPendingRollup at hk ⊢
      rw [Table.get?_insert_self]
      split at hk
      · next r hr =>
        have := hlater r hr
        simp only [decide_eq_true_eq] at hk ⊢
        omega
      · cases hk
    · unfold hasPendingRollup at hk ⊢
      rw [Table.get?_insert_of_ne _ hks]
      exact hk
  split
  · next r hr =>
    split
    · exact Succeeds.pure _ ⟨rfl, rfl, RollupsSooner.refl t, Stamped.refl v⟩
    · next hgt => exact hschedule fun r' hr' => by rw [hr] at hr'; cases hr'; omega
  · next hnone => exact hschedule fun r' hr' => by rw [hr'] at hnone; exact absurd rfl (hnone r')

/-- Scheduling the rollup a deletion calls for succeeds when the policies chained cut their
buckets on a grid. -/
theorem markForPolicy_ok (hgrid : Configuration.GridsOk ctx.configuration)
    (h₁ : Instant.minMillis ≤ ms) (h₂ : ms ≤ Instant.maxMillis) (status : Status) :
    Succeeds (markForPolicy s ms status) ctx t v fun _ t' v' =>
      t'.segments = t.segments ∧ t'.stats = t.stats ∧ RollupsSooner t t' ∧
        Stamped ctx.settings.nodeTag ctx.settings.databaseId v v' := by
  unfold markForPolicy
  refine Succeeds.bind (rollupTarget_ok hgrid h₁ h₂ _) ?_
  rintro target _ _ ⟨rfl, rfl, hok⟩
  split
  · next _ next => exact scheduleRollup_ok (hok next rfl) h₁ h₂
  · exact Succeeds.pure _ ⟨rfl, rfl, RollupsSooner.refl _, Stamped.refl _⟩

/-- Taking a series name off its document succeeds and keeps segments, statistics and
rollups. -/
theorem removeSeriesName_ok (doc name : String) :
    Succeeds (removeSeriesName doc name) ctx t v fun _ t' v' =>
      t'.segments = t.segments ∧ t'.stats = t.stats ∧ t'.rollups = t.rollups ∧ v' = v := by
  obtain ⟨t', b, h⟩ := t.removeSeriesName_ok doc name
  obtain ⟨hseg, hroll, hstats⟩ := removeSeriesName_frame h
  unfold removeSeriesName
  refine Succeeds.tables_bind (Succeeds.lift_bind h ?_)
  exact Succeeds.bind (Succeeds.set t' (Q := fun _ t'' v' => t'' = t' ∧ v' = v) ⟨rfl, rfl⟩)
    fun _ _ _ ⟨h₁, h₂⟩ => Succeeds.pure b ⟨h₁ ▸ hseg, h₁ ▸ hstats, h₁ ▸ hroll, h₂⟩

end Txn

/-! ## Writing the rows -/

namespace Txn

open SeriesStore.Tables Versions

variable {ctx : Context} {t : Tables} {v : Versions} {w : SeriesWrite}

/-- A local write of a segment succeeds: it stores a row holding the segment under the key, for
the series written, leaves the statistics and rollups alone, stamps the change vector at a new
etag, and records that a segment was written. -/
theorem putSegment_local (hremote : w.remote = none) (key : Key) (seg : Segment)
    (prev : Option String) :
    Succeeds (putSegment w key seg prev) ctx t v fun w' t' v' =>
      w'.series = w.series ∧ w'.remote = none ∧ w'.liveDelta = w.liveDelta ∧
        w'.changeVector.isSome ∧
        (∃ val i, val.segment = seg ∧ t'.segments = (t.segments.insert key val i).1) ∧
        t'.stats = t.stats ∧ t'.rollups = t.rollups ∧
        Stamped ctx.settings.nodeTag ctx.settings.databaseId v v' := by
  unfold putSegment
  refine Succeeds.bind (Succeeds.nextEtag (Q := fun e t' v' =>
    e = v.lastEtag + 1 ∧ t = t' ∧ { v with lastEtag := v.lastEtag + 1 } = v') ⟨rfl, rfl, rfl⟩) ?_
  rintro etag _ _ ⟨rfl, rfl, rfl⟩
  extract_lets listing store
  -- `store`: the row goes in; a segment without live samples is also listed for purging
  have hstore : ∀ cv v₁, Stamped ctx.settings.nodeTag ctx.settings.databaseId v v₁ →
      Succeeds (store cv) ctx t v₁ fun w' t' v' =>
        w'.series = w.series ∧ w'.remote = none ∧ w'.liveDelta = w.liveDelta ∧
          w'.changeVector.isSome ∧
          (∃ val i, val.segment = seg ∧ t'.segments = (t.segments.insert key val i).1) ∧
          t'.stats = t.stats ∧ t'.rollups = t.rollups ∧
          Stamped ctx.settings.nodeTag ctx.settings.databaseId v v' := by
    intro cv v₁ hv
    unfold store
    extract_lets row put
    have hput : ∀ u t₁, t₁.segments = t.segments → t₁.stats = t.stats → t₁.rollups = t.rollups →
        Succeeds (put u) ctx t₁ v₁ fun w' t' v' =>
          w'.series = w.series ∧ w'.remote = none ∧ w'.liveDelta = w.liveDelta ∧
            w'.changeVector.isSome ∧
            (∃ val i, val.segment = seg ∧ t'.segments = (t.segments.insert key val i).1) ∧
            t'.stats = t.stats ∧ t'.rollups = t.rollups ∧
            Stamped ctx.settings.nodeTag ctx.settings.databaseId v v' := by
      intro u t₁ hseg hstats hroll
      refine Succeeds.bind (Succeeds.change (Q := fun _ t' v' =>
        t'.segments = (t₁.segments.insert key row (some (v.lastEtag + 1))).1 ∧
          t'.stats = t₁.stats ∧ t'.rollups = t₁.rollups ∧ v' = v₁)
        ⟨rfl, rfl, rfl, rfl⟩) ?_
      rintro _ _ _ ⟨hseg', hstats', hroll', rfl⟩
      exact Succeeds.pure _ ⟨rfl, hremote, rfl, rfl, ⟨row, _, rfl, by rw [hseg', hseg]⟩,
        hstats'.trans hstats, hroll'.trans hroll, hv⟩
    split
    · refine Succeeds.bind (Succeeds.change (Q := fun _ t' v' =>
        t'.segments = t.segments ∧ t'.stats = t.stats ∧ t'.rollups = t.rollups ∧ v' = v₁)
        ⟨rfl, rfl, rfl, rfl⟩) ?_
      rintro _ t₁ _ ⟨hseg, hstats, hroll, rfl⟩
      exact hput () t₁ hseg hstats hroll
    · exact hput () t rfl rfl rfl
  split
  · exact Succeeds.bind (Succeeds.newChangeVector (Q := fun cv t' v' =>
      t' = t ∧ Stamped ctx.settings.nodeTag ctx.settings.databaseId v v')
      ⟨rfl, (Stamped.refl v).nextEtag.stamp (by simp)⟩) fun cv _ _ ⟨h, hv⟩ => h ▸ hstore cv _ hv
  · next hr => rw [hremote] at hr; cases hr
  · next hr => rw [hremote] at hr; cases hr

variable {s : SeriesRef} {fromMs toMs : Int}

/-- Deleting a range from the rows of a clean series that lie well succeeds, for a change vector
that no row already covers: it leaves the live points outside the range, row after row. -/
theorem deleteInSegments_trims (hs : s.Clean) (hft : fromMs ≤ toMs) (cv : String) :
    ∀ (B D : List (Key × Row SegmentRow)) (w : SeriesWrite) (e : Option Int) (t : Tables)
      (v : Versions), t.segments.SegmentsWell → t.segments.under s.pre = D ++ B →
      w.series = s → w.remote = none →
      (∀ r ∈ B, ∃ st, conflictStatus cv r.2.value.changeVector = .ok st ∧ st ≠ .alreadyMerged) →
      Succeeds (deleteInSegments cv fromMs toMs (B.map Prod.fst) w e) ctx t v fun we t' v' =>
        RangeDeleted s fromMs toMs D B t w e t' we.1 we.2 ∧
          Stamped ctx.settings.nodeTag ctx.settings.databaseId v v'
  | [], D, w, e, t, v, hwell, hunder, _, _, _ =>
    Succeeds.pure _ ⟨RangeDeleted.refl hwell hunder (by simp), Stamped.refl v⟩
  | r :: B, D, w, e, t, v, hwell, hunder, hser, hrem, hfresh => by
    have hsw := hwell.series s hs
    rw [hunder] at hsw
    obtain ⟨b, es, hr⟩ := hsw.layout.holds r (by simp)
    have hst := hsw.starts r (by simp)
    have hmemr : r ∈ t.segments.rows := by
      have : r ∈ t.segments.under s.pre := by rw [hunder]; simp
      exact (List.mem_filter.mp this).1
    have hget : t.segments.get? r.1 = some r.2 := hwell.sorted.get?_of_mem hmemr
    -- the rows after `r` hold points past its last one, all at or past its baseline
    have hafter := hsw.lastMs_lt
    have hpast := hsw.baseline_le
    have hlastr : lastMs r = r.2.value.segment.lastTimestamp b := by rw [lastMs, hr.baseline_eq]
    rw [List.map_cons]
    unfold deleteInSegments
    extract_lets baseline
    have hb : baseline = b := hr.baseline_eq
    split
    · -- the row starts past the range, and so do the rows after it
      next hgt =>
      refine Succeeds.pure _ ⟨RangeDeleted.refl hwell hunder fun q hq => ?_, Stamped.refl v⟩
      obtain ⟨u, hu, hq⟩ := List.mem_flatMap.mp (List.mem_filter.mp hq).1
      have := hpast u hu q hq
      rw [hr.baseline_eq] at this
      rw [Point.within_eq_false_iff]
      omega
    refine Succeeds.bind (Succeeds.tables (Q := fun a t' v' => t = a ∧ t = t' ∧ v = v')
      ⟨rfl, rfl, rfl⟩) ?_
    rintro _ _ _ ⟨rfl, rfl, rfl⟩
    rw [hget]
    dsimp -zeta only
    extract_lets stored stop resume next
    have hstop : stop = lastMs r := by rw [hlastr, ← hb]
    -- `resume`: the row handled and become `r₁`, stop past the range or go on with the rest
    have hresume : ∀ (r₁ : Key × Row SegmentRow) (t₁ : Tables) (w₁ : SeriesWrite)
        (e₁ : Option Int) (v₁ : Versions), t₁.segments.SegmentsWell →
        t₁.segments.under s.pre = D ++ r₁ :: B → w₁.series = s → w₁.remote = none →
        (points r₁).filter Point.isLive =
          ((points r).filter Point.isLive).filter (fun q => !q.within fromMs toMs) →
        t₁.stats = t.stats → t₁.rollups = t.rollups →
        w₁.liveDelta = w.liveDelta +
          (((((points r).filter Point.isLive).filter fun q => !q.within fromMs toMs).length : Int) -
            ((points r).filter Point.isLive).length) →
        (e₁ = none ↔ e = none ∧
          ∀ q ∈ (points r).filter Point.isLive, q.within fromMs toMs = false) →
        ((e.isSome → w.changeVector.isSome) → e₁.isSome → w₁.changeVector.isSome) →
        ((∀ m, e = some m → Instant.minMillis ≤ m ∧ m ≤ Instant.maxMillis) →
          ∀ m, e₁ = some m → Instant.minMillis ≤ m ∧ m ≤ Instant.maxMillis) →
        Stamped ctx.settings.nodeTag ctx.settings.databaseId v v₁ →
        Succeeds (resume (w₁, e₁)) ctx t₁ v₁ fun we t' v' =>
          RangeDeleted s fromMs toMs D (r :: B) t w e t' we.1 we.2 ∧
            Stamped ctx.settings.nodeTag ctx.settings.databaseId v v' := by
      intro r₁ t₁ w₁ e₁ v₁ hwell₁ hunder₁ hser₁ hrem₁ hlive hstats hroll hdelta hnone hwritten
        hmem hv₁
      have hunder₁' : t₁.segments.under s.pre = (D ++ [r₁]) ++ B := by simpa using hunder₁
      unfold resume
      dsimp only
      split
      · -- the row reached past the range: the rows after it hold no point of it
        next hge =>
        refine Succeeds.pure _ ⟨RangeDeleted.cons hlive hstats hroll (hser₁.trans hser.symm)
          (hrem₁.trans hrem.symm) hdelta hnone hwritten hmem
          (RangeDeleted.refl hwell₁ hunder₁' fun q hq => ?_), hv₁⟩
        obtain ⟨u, hu, hq⟩ := List.mem_flatMap.mp (List.mem_filter.mp hq).1
        have := hafter u hu q hq
        rw [← hstop] at this
        rw [Point.within_eq_false_iff]
        omega
      · exact (deleteInSegments_trims hs hft cv B (D ++ [r₁]) w₁ e₁ t₁ v₁ hwell₁ hunder₁' hser₁
          hrem₁ fun u hu => hfresh u (List.mem_cons_of_mem r hu)).mono fun we t' v' h =>
          ⟨RangeDeleted.cons hlive hstats hroll (hser₁.trans hser.symm) (hrem₁.trans hrem.symm)
            hdelta hnone hwritten hmem h.1, hv₁.trans h.2⟩
    -- the row kept as it is: nothing of it removed, nothing written
    have hkeep : (∀ q ∈ (points r).filter Point.isLive, q.within fromMs toMs = false) →
        Succeeds (resume (w, e)) ctx t v fun we t' v' =>
          RangeDeleted s fromMs toMs D (r :: B) t w e t' we.1 we.2 ∧
            Stamped ctx.settings.nodeTag ctx.settings.databaseId v v' := by
      intro hout
      have hid : ((points r).filter Point.isLive).filter (fun q => !q.within fromMs toMs) =
          (points r).filter Point.isLive :=
        List.filter_eq_self.mpr fun q hq => by simp [hout q hq]
      refine hresume r t w e v hwell hunder hser hrem hid.symm rfl rfl (by rw [hid]; omega)
        ⟨fun h => ⟨h, hout⟩, fun h => h.1⟩ id id (Stamped.refl v)
    -- `next`: encode the row anew unless it is left untouched
    have hnext : ∀ untouched : Bool, (untouched = true →
        ∀ q ∈ (points r).filter Point.isLive, q.within fromMs toMs = false) →
        Succeeds (next untouched) ctx t v fun we t' v' =>
          RangeDeleted s fromMs toMs D (r :: B) t w e t' we.1 we.2 ∧
            Stamped ctx.settings.nodeTag ctx.settings.databaseId v v' := by
      intro untouched hun
      unfold next
      split
      · next htrue => exact Succeeds.pure_bind (hkeep (hun htrue))
      rcases killRange_spec hr.built b fromMs toMs with
        ⟨hk, hout⟩ | ⟨s', e₀, hk, he₀, hlive₀, hin₀, -⟩
      · -- no live sample of the row lies in the range
        refine Succeeds.lift_bind (by rw [hb]; exact hk) ?_
        dsimp -zeta only
        refine Succeeds.pure_bind (hkeep fun q hq => ?_)
        rw [hr.filter_isLive] at hq
        obtain ⟨x, hx, rfl⟩ := List.mem_map.mp hq
        rw [Point.within_ofEntry]
        exact hout x (List.mem_filter.mp hx).1 (List.mem_filter.mp hx).2
      -- the row holds a live sample of the range: it is encoded anew and written
      refine Succeeds.lift_bind (by rw [hb]; exact hk) ?_
      dsimp -zeta only
      extract_lets w'
      obtain ⟨es', hp', hlive', hle', q₀, hq₀, hin, hrem₀⟩ := hr.killRange_some hst hk
      refine Succeeds.bind (putSegment_local (w := w') hrem _ _ _) ?_
      rintro w₁ t₁ v₁ ⟨hser₁, hrem₁, hdelta₁, hcv₁, ⟨val, i, hval, hseg₁⟩, hstats₁, hroll₁, hv₁⟩
      refine Succeeds.pure_bind ?_
      have hkey : r.1 = Key.segmentOfPrefix s.pre b := hr.key_eq
      have hord : Table.Ordered (D ++ r :: B) := hunder ▸ hwell.sorted.under s.pre
      -- the new row takes the place of the old one, in the gap the old one spanned
      have hgap := hsw.gap_span hord (r := r) (by simp)
      rw [← hunder, hr.baseline_eq, hkey] at hgap
      have hwell₁ : t₁.segments.SegmentsWell := by
        rw [hseg₁, hkey]
        refine hwell.insert hs (hval ▸ hp') hgap le_rfl (fun x hx => ?_) i
        have := hle' x hx
        rw [hlastr]
        omega
      have hunder₁ : t₁.segments.under s.pre = D ++ (r.1, ⟨val, i⟩) :: B := by
        have hpre : Key.startsWith r.1 s.pre = true :=
          Table.startsWith_of_mem_under (show r ∈ t.segments.under s.pre by rw [hunder]; simp)
        rw [hseg₁, Table.under_insert hwell.sorted, if_pos hpre, hunder]
        exact Table.putRow_replace hord
      have hholds₁ : Holds s.pre b es' (r.1, ⟨val, i⟩) := by
        rw [hkey]
        exact (hp'.row hval i).1
      have hlive₁ : (points (r.1, ⟨val, i⟩)).filter Point.isLive =
          ((points r).filter Point.isLive).filter fun q => !q.within fromMs toMs := by
        rw [hholds₁.points_eq]
        exact hlive'
      refine hresume (r.1, ⟨val, i⟩) t₁ w₁ _ v₁ hwell₁ hunder₁ (hser₁.trans hser) hrem₁ hlive₁
        hstats₁ hroll₁ ?_ ⟨fun h => absurd h (Option.some_ne_none _),
          fun h => absurd (h.2 q₀ hq₀) (by simp [hin])⟩
        (fun _ _ => hcv₁) ?_ hv₁
      · -- the live samples lost are those of the row in the range
        rw [hdelta₁, ← hlive', hr.points_eq]
        show w.liveDelta + ((s'.live : Int) - r.2.value.segment.live) = _
        rw [hp'.built.sound.live_eq, hr.built.sound.live_eq, length_filter_isLive_map,
          length_filter_isLive_map]
      · -- the sample removed is a live point of the row, in the range of instants
        have hq₀mem := hst.in_range q₀ (List.mem_filter.mp hq₀).1
        intro hm m hm'
        rw [hrem₀] at hm'
        cases e with
        | none =>
          simp only [Option.some.injEq] at hm'
          exact hm' ▸ hq₀mem
        | some e' =>
          simp only [Option.some.injEq] at hm'
          have := hm e' rfl
          omega
    split
    · -- the row ends before the range: it is left untouched
      next hlt =>
      refine Succeeds.pure_bind (hnext true fun _ q hq => ?_)
      have := hr.le_lastTimestamp (List.mem_filter.mp hq).1
      rw [hstop, hlastr] at hlt
      rw [Point.within_eq_false_iff]
      omega
    · -- the row's change vector does not cover the deletion: the row is encoded anew
      obtain ⟨st, hcs, hne⟩ := hfresh r List.mem_cons_self
      refine Succeeds.lift_bind hcs (Succeeds.pure_bind (hnext _ fun h => absurd h ?_))
      simpa using hne

/-- What deleting the samples of `s` in `[fromMs, toMs]` did from `t` to `t'`, answering `res`:
the segments stay well kept and the statistics exact, `s` keeps its live points outside the range,
each row of statistics is an old one or the row of `s` and the rows of other keys stay, no rollup
became due later, and a live point in the range made the deletion answer its change vector. -/
structure RangeTrimmed (s : SeriesRef) (fromMs toMs : Int) (t t' : Tables) (res : Option String) :
    Prop where
  well : t'.segments.SegmentsWell
  exact : t'.StatsExact
  live : t'.live s = (t.live s).filter fun q => !q.within fromMs toMs
  stats : ∀ c' ∈ t'.stats, ∀ x ∈ c'.2.rows, (∃ c ∈ t.stats, c.1 = c'.1 ∧ x ∈ c.2.rows) ∨
    c'.1 = Text.lower s.collection ∧ x.1 = s.key ∧ x.2.value.series = s
  kept : ∀ c ∈ t.stats, ∀ x ∈ c.2.rows, x.1 ≠ s.key → ∃ c' ∈ t'.stats, c'.1 = c.1 ∧ x ∈ c'.2.rows
  sooner : RollupsSooner t t'
  answer : (∃ q ∈ t.live s, q.within fromMs toMs = true) → res.isSome

/-- A local deletion of a range from a clean series succeeds when the policies chained cut their
buckets on a grid and no row of the series already covers the change vector it writes. -/
theorem deleteRange_local (hs : s.Clean) (hvalid : Key.validateDocumentId s.doc = .ok ())
    (hft : fromMs ≤ toMs) (hfits : I64.fits fromMs = true)
    (hgrid : Configuration.GridsOk ctx.configuration)
    (hwell : t.segments.SegmentsWell) (hexact : t.StatsExact)
    (hhome : ∀ c ∈ t.stats, ∀ x ∈ c.2.rows, x.1 = s.key → c.1 = Text.lower s.collection)
    (hfresh : ∀ r ∈ t.segments.under s.pre, ∃ st, conflictStatus
      (v.changeVector.observe ⟨ctx.settings.nodeTag, v.lastEtag + 1, ctx.settings.databaseId⟩).render
        r.2.value.changeVector = .ok st ∧ st ≠ .alreadyMerged) :
    Succeeds (deleteRange s fromMs toMs none) ctx t v fun res t' v' =>
      RangeTrimmed s fromMs toMs t t' res ∧ Stamped ctx.settings.nodeTag ctx.settings.databaseId v v' := by
  unfold deleteRange
  refine Succeeds.lift_bind hvalid ?_
  extract_lets pre fromKey write
  rw [if_neg (by omega)]
  unfold write
  refine Succeeds.bind (Succeeds.nextEtag (Q := fun e t' v' => e = v.lastEtag + 1 ∧ t = t' ∧
    { v with lastEtag := v.lastEtag + 1 } = v') ⟨rfl, rfl, rfl⟩) ?_
  rintro etag _ _ ⟨rfl, rfl, rfl⟩
  extract_lets record
  dsimp -zeta only
  refine Succeeds.bind (Succeeds.newChangeVector (Q := fun cv t' v' => cv =
    (v.changeVector.observe ⟨ctx.settings.nodeTag, v.lastEtag + 1, ctx.settings.databaseId⟩).render ∧
      t = t' ∧ Stamped ctx.settings.nodeTag ctx.settings.databaseId v v')
    ⟨rfl, rfl, (Stamped.refl v).nextEtag.stamp (by simp)⟩) ?_
  rintro cv _ v₁ ⟨rfl, rfl, hv₁⟩
  unfold record
  extract_lets tomb
  refine Succeeds.bind (Succeeds.change (Q := fun _ t' v' => t'.segments = t.segments ∧
    t'.stats = t.stats ∧ t'.rollups = t.rollups ∧ v₁ = v') ⟨rfl, rfl, rfl, rfl⟩) ?_
  rintro _ t₀ _ ⟨hseg₀, hstats₀, hroll₀, rfl⟩
  refine Succeeds.tables_bind ?_
  extract_lets start keys
  have hwell₀ : t₀.segments.SegmentsWell := hseg₀ ▸ hwell
  obtain ⟨D, B, hDB, hkeys, hD⟩ := visited_rows hwell₀.sorted (hwell₀.series s hs) hfits
  have hkeys' : keys = B.map Prod.fst := hkeys
  rw [hkeys']
  have hfreshB : ∀ r ∈ B, ∃ st, conflictStatus
      (v.changeVector.observe ⟨ctx.settings.nodeTag, v.lastEtag + 1, ctx.settings.databaseId⟩).render
        r.2.value.changeVector = .ok st ∧ st ≠ .alreadyMerged :=
    fun r hr => hfresh r (by rw [← hseg₀, hDB]; exact List.mem_append_right D hr)
  -- the rows visited lie under the prefix of `s`, so under no prefix of another clean series
  have hother : ∀ r : SeriesRef, r.Clean ∧ r.key ≠ s.key →
      ∀ k ∈ B.map Prod.fst, Key.startsWith k r.pre = false := by
    rintro r ⟨hr, hne⟩ k hk
    obtain ⟨x, hx, rfl⟩ := List.mem_map.mp hk
    have hxu : x ∈ t₀.segments.under s.pre := by rw [hDB]; exact List.mem_append_right D hx
    exact SeriesRef.startsWith_pre_eq_false hs hr (Ne.symm hne) (List.mem_filter.mp hxu).2
  refine Succeeds.bind ((deleteInSegments_trims hs hft _ B D { series := s } none t₀ v₁ hwell₀ hDB
    rfl rfl hfreshB).moves_forall (P := fun r : SeriesRef => r.Clean ∧ r.key ≠ s.key)
    (M := fun r => Spares r) fun r hr => deleteInSegments_spares _ fromMs toMs (hother r hr) _ _) ?_
  rintro ⟨w, earliest⟩ t₁ v₂ ⟨⟨hdel, hv₂⟩, hspare⟩
  dsimp -zeta only
  extract_lets finish
  have hstats₁ : t₁.stats = t.stats := hdel.stats.trans hstats₀
  have hroll₁ : t₁.rollups = t.rollups := hdel.rollups.trans hroll₀
  have hlive₀ : t₀.live s = t.live s := live_congr (by rw [hseg₀])
  have hlive₁ : t₁.live s = (t.live s).filter fun q => !q.within fromMs toMs := by
    rw [hdel.live_eq hDB hD, hlive₀]
  -- the live points of every other clean series stay as they were
  have hother₁ : ∀ r : SeriesRef, r.Clean → r.key ≠ s.key → t₁.live r = t.live r := by
    intro r hr hne
    rw [live_congr (hspare r ⟨hr, hne⟩).segments]
    exact live_congr (by rw [hseg₀])
  have hcount : ((t₁.stats? s.collection s.doc s.name).map fun x => (x.count : Int)).getD 0 +
      w.liveDelta = (t₁.live s).length := by
    have hrec := hexact.count_on_record hs hhome
    have hlen := hdel.length_live hDB hD
    rw [hlive₀] at hlen
    simp only [Tables.stats?, Tables.statsOf, hstats₁] at hrec ⊢
    dsimp only at hlen
    omega
  split
  · -- a sample was removed: count the series anew, then schedule its rollup
    next removed =>
    have hrange := hdel.removed_mem (fun _ h => by cases h) removed rfl
    have hwritten : w.changeVector.isSome := hdel.written (fun h => by cases h) rfl
    refine Succeeds.bind (updateStats_restat hdel.well hs hcount) ?_
    rintro count _ v₂ ⟨rfl, rfl, rfl⟩
    extract_lets mark
    have hexact₂ : (t₁.restat s).StatsExact :=
      hexact.restat hstats₁ hother₁ hs hvalid hhome
    -- `mark`: from tables with the segments, statistics and rollups of the recount
    have hmark : ∀ t₃ : Tables, t₃.segments = t₁.segments → t₃.stats = (t₁.restat s).stats →
        t₃.rollups = t₁.rollups → ∀ u, Succeeds (mark u) ctx t₃ v₂ fun res t' v' =>
          RangeTrimmed s fromMs toMs t t' res ∧
            Stamped ctx.settings.nodeTag ctx.settings.databaseId v v' := by
      intro t₃ hseg₃ hstats₃ hroll₃ u
      unfold mark
      refine Succeeds.bind (markForPolicy_ok hgrid hrange.1 hrange.2 _) ?_
      rintro _ t₄ v₄ ⟨hseg₄, hstats₄, hsoon₄, hv₄⟩
      have hseg₄₁ : t₄.segments = t₁.segments := hseg₄.trans hseg₃
      have hsorted₁ : ∀ c ∈ t₁.stats, c.2.Sorted := by rw [hstats₁]; exact hexact.sorted
      refine Succeeds.pure _ ⟨⟨hseg₄₁ ▸ hdel.well, ?_, ?_, fun c' hc' x hx => ?_,
        fun c hc x hx hne => ?_, ?_, fun _ => hwritten⟩, hv₁.trans (hv₂.trans hv₄)⟩
      · refine hexact₂.of_live (hstats₄.trans hstats₃) fun r _ => ?_
        rw [live_restat]
        exact live_congr (by rw [hseg₄₁])
      · have h₄ : t₄.live s = t₁.live s := live_congr (by rw [hseg₄₁])
        rw [h₄, hlive₁]
      · rw [hstats₄, hstats₃] at hc'
        rcases mem_restat_stats hsorted₁ hc' hx with ⟨c, hc, hname, hx, -⟩ | ⟨hname, a, b, -, rfl⟩
        · exact .inl ⟨c, hstats₁ ▸ hc, hname, hx⟩
        · exact .inr ⟨hname, rfl, rfl⟩
      · rw [hstats₄, hstats₃]
        exact mem_restat_stats_of_ne hsorted₁ (hstats₁ ▸ hexact.names) (hstats₁ ▸ hc) hx hne
      · exact (RollupsSooner.of_eq (hroll₃.trans hroll₁)).trans hsoon₄
    split
    · refine Succeeds.bind (Succeeds.discard (Q := fun _ t' v' =>
        t'.segments = (t₁.restat s).segments ∧ t'.stats = (t₁.restat s).stats ∧
          t'.rollups = (t₁.restat s).rollups ∧ v' = v₂) (removeSeriesName_ok _ _)) ?_
      rintro _ t₃ v₂ ⟨hseg₃, hstats₃, hroll₃, rfl⟩
      exact hmark t₃ (hseg₃.trans (restat_segments _ _)) hstats₃
        (hroll₃.trans (restat_rollups _ _)) ()
    · exact hmark _ (restat_segments _ _) rfl (restat_rollups _ _) ()
  · -- nothing was removed: no live point was in the range
    next hnone =>
    have hin : ∀ q ∈ liveOf B, q.within fromMs toMs = false :=
      (hdel.removed_none.mp (by cases earliest <;> simp_all)).2
    -- a live point in the range would be one of the rows visited
    have hout : ∀ q ∈ t.live s, q.within fromMs toMs = false := by
      intro q hq
      by_contra hw
      rw [Bool.not_eq_false] at hw
      rw [hin q (RangeDeleted.mem_handled_of_within hDB hD (hlive₀ ▸ hq) hw)] at hw
      cases hw
    have hsame : t₁.live s = t.live s := by
      rw [hlive₁]
      exact List.filter_eq_self.mpr fun q hq => by simp [hout q hq]
    refine Succeeds.pure _ ⟨⟨hdel.well, ?_, hlive₁, fun c' hc' x hx => .inl ⟨c', hstats₁ ▸ hc', rfl, hx⟩,
      fun c hc x hx _ => ⟨c, hstats₁ ▸ hc, rfl, hx⟩, RollupsSooner.of_eq hroll₁, fun h => ?_⟩,
      hv₁.trans hv₂⟩
    · refine hexact.of_live hstats₁ fun r hr => ?_
      by_cases hk : r.key = s.key
      · rw [live_eq_of_key_eq t₁ hk, live_eq_of_key_eq t hk, hsame]
      · exact hother₁ r hr hk
    · obtain ⟨q, hq, hq'⟩ := h
      rw [hout q hq] at hq'
      cases hq'

/-- A local deletion of a range from a clean series succeeds and trims it, and it spares every
other clean series. -/
theorem deleteRange_trims (hs : s.Clean) (hvalid : Key.validateDocumentId s.doc = .ok ())
    (hft : fromMs ≤ toMs) (hfits : I64.fits fromMs = true)
    (hgrid : Configuration.GridsOk ctx.configuration)
    (hwell : t.segments.SegmentsWell) (hexact : t.StatsExact)
    (hhome : ∀ c ∈ t.stats, ∀ x ∈ c.2.rows, x.1 = s.key → c.1 = Text.lower s.collection)
    (hfresh : ∀ r ∈ t.segments.under s.pre, ∃ st, conflictStatus
      (v.changeVector.observe ⟨ctx.settings.nodeTag, v.lastEtag + 1, ctx.settings.databaseId⟩).render
        r.2.value.changeVector = .ok st ∧ st ≠ .alreadyMerged) :
    Succeeds (deleteRange s fromMs toMs none) ctx t v fun res t' v' =>
      (RangeTrimmed s fromMs toMs t t' res ∧
        Stamped ctx.settings.nodeTag ctx.settings.databaseId v v') ∧
      ∀ r : SeriesRef, r.Clean ∧ r.key ≠ s.key → Spares r t t' :=
  (deleteRange_local hs hvalid hft hfits hgrid hwell hexact hhome hfresh).moves_forall
    fun _ hr => deleteRange_spares hs hr.1 (Ne.symm hr.2) fromMs toMs none

end Txn

end SeriesStore
