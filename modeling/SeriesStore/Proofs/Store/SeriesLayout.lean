import Mathlib
import SeriesStore.Proofs.Store.SegmentBuild
import SeriesStore.Proofs.Store.TableOrder
import SeriesStore.Store.Reader

/-!
# How a series lies in its segment rows

The segment rows of a series are the rows of the segment table under the series prefix, in key
order. Each holds a segment at the baseline its key ends with (`StoredRow.Holds`): built by
appends, with at least one entry, at strictly increasing timestamps. The rows *lie well*
(`SeriesLayout`) when every row holds so and every point of a row lies below the baselines of
the rows after it. Then the points of all rows, row after row, are in timestamp order
(`SeriesLayout.ascending`): they are the series as stored, dead points included.

A reader of a window visits only some rows: from the last one starting at or before the
window, up to the last one starting inside it, skipping those that end before it. Those it
skips hold no point of the window, so it reads exactly the live points of the window
(`values_eq`):

    w.values t = .ok (((seriesPoints rows).filter fun p => isLive p && w.holds p.ms).map toSample)
-/

namespace SeriesStore

namespace StoredRow

/-- The baseline of a stored segment row, read off its key. -/
def baseline (r : Key × Row SegmentRow) : Int := (Key.baselineOf r.1).getD 0

/-- The points a stored segment row holds, dead ones included; none when it cannot be read. -/
def points (r : Key × Row SegmentRow) : List Point :=
  match r.2.value.segment.samples with
  | .ok es => es.map (Point.ofEntry (baseline r))
  | .error _ => []

/-- A row of the series under `pre` holds, at baseline `b`, a segment built from the entries
`es`: at least one, at strictly increasing timestamps. -/
structure Holds (pre : Key) (b : Int) (es : List Entry) (r : Key × Row SegmentRow) : Prop where
  fits : I64.fits b = true
  key_eq : r.1 = Key.segmentOfPrefix pre b
  built : r.2.value.segment.Built es
  ne_nil : es ≠ []
  ascending : Point.Ascending (es.map (Point.ofEntry b))

section Holds

variable {pre : Key} {b : Int} {es : List Entry} {r : Key × Row SegmentRow}

theorem Holds.baseline_eq (h : Holds pre b es r) : baseline r = b := by
  rw [baseline, h.key_eq, Key.baselineOf_segmentOfPrefix pre h.fits]
  rfl

theorem Holds.points_eq (h : Holds pre b es r) : points r = es.map (Point.ofEntry b) := by
  rw [points, h.built.sound.samples, h.baseline_eq]

theorem Holds.ascending_points (h : Holds pre b es r) : Point.Ascending (points r) := by
  rw [h.points_eq]
  exact h.ascending

/-- Every point of a row lies at or past its baseline. -/
theorem Holds.baseline_le (h : Holds pre b es r) {p : Point} (hp : p ∈ points r) : b ≤ p.ms := by
  rw [h.points_eq] at hp
  obtain ⟨e, he, rfl⟩ := List.mem_map.mp hp
  have := h.built.sound.offset_nonneg e he
  simp only [Point.ofEntry]
  omega

/-- Every point of a row lies at or before its last timestamp. -/
theorem Holds.le_lastTimestamp (h : Holds pre b es r) {p : Point} (hp : p ∈ points r) :
    p.ms ≤ r.2.value.segment.lastTimestamp b := by
  rw [h.points_eq] at hp
  obtain ⟨e, he, rfl⟩ := List.mem_map.mp hp
  have := h.built.sound.offset_le_last e he
  simp only [Point.ofEntry, Segment.lastTimestamp]
  omega

/-- The last timestamp of a row is the timestamp of one of its points. -/
theorem Holds.exists_lastTimestamp (h : Holds pre b es r) :
    ∃ p ∈ points r, p.ms = r.2.value.segment.lastTimestamp b := by
  obtain ⟨init, last, heq⟩ := (List.eq_nil_or_concat es).resolve_left h.ne_nil
  rw [List.concat_eq_append] at heq
  refine ⟨Point.ofEntry b last, by rw [h.points_eq, heq]; simp, ?_⟩
  rw [Segment.lastTimestamp, h.built.sound.lastOffset_eq, heq]
  simp [Point.ofEntry]

/-- A row without live samples holds no live point. -/
theorem Holds.isLive_eq_false (h : Holds pre b es r) (hlive : r.2.value.segment.live = 0)
    {p : Point} (hp : p ∈ points r) : Point.isLive p = false := by
  rw [h.points_eq] at hp
  obtain ⟨e, he, rfl⟩ := List.mem_map.mp hp
  rw [h.built.sound.live_eq, List.length_eq_zero_iff, List.filter_eq_nil_iff] at hlive
  simpa [Point.isLive, Point.ofEntry, Entry.isLive] using hlive e he

end Holds

end StoredRow

open StoredRow

/-- The points of a series as its rows store them, row after row, dead ones included. -/
def seriesPoints (rows : List (Key × Row SegmentRow)) : List Point := rows.flatMap points

@[simp] theorem seriesPoints_nil : seriesPoints [] = [] := rfl

@[simp] theorem seriesPoints_cons (r : Key × Row SegmentRow) (rows : List (Key × Row SegmentRow)) :
    seriesPoints (r :: rows) = points r ++ seriesPoints rows := rfl

@[simp] theorem seriesPoints_append (rows rows' : List (Key × Row SegmentRow)) :
    seriesPoints (rows ++ rows') = seriesPoints rows ++ seriesPoints rows' := List.flatMap_append

/-- The segment rows of a series lie well: each holds a built segment at the baseline of its key,
and every point of a row lies below the baselines of the rows after it. -/
structure SeriesLayout (pre : Key) (rows : List (Key × Row SegmentRow)) : Prop where
  holds : ∀ r ∈ rows, ∃ b es, Holds pre b es r
  chain : rows.Pairwise fun r u => ∀ p ∈ points r, p.ms < baseline u

namespace SeriesLayout

variable {pre : Key} {rows rows' : List (Key × Row SegmentRow)}

theorem nil (pre : Key) : SeriesLayout pre [] := ⟨fun _ h => absurd h List.not_mem_nil, .nil⟩

theorem sublist (h : SeriesLayout pre rows) (hs : rows'.Sublist rows) : SeriesLayout pre rows' :=
  ⟨fun r hr => h.holds r (hs.subset hr), h.chain.sublist hs⟩

/-- The points of a series lying well are in timestamp order. -/
theorem ascending (h : SeriesLayout pre rows) : Point.Ascending (seriesPoints rows) := by
  induction rows with
  | nil => exact List.Pairwise.nil
  | cons r rs ih =>
    obtain ⟨b, es, hr⟩ := h.holds r List.mem_cons_self
    have hrest : SeriesLayout pre rs := h.sublist (List.sublist_cons_self r rs)
    refine Point.ascending_append.mpr ⟨hr.ascending_points, ih hrest, fun p hp q hq => ?_⟩
    obtain ⟨u, hu, hqu⟩ := List.mem_flatMap.mp hq
    obtain ⟨bu, esu, hu'⟩ := hrest.holds u hu
    have hpu := (List.pairwise_cons.mp h.chain).1 u hu p hp
    have hbu := hu'.baseline_le hqu
    rw [hu'.baseline_eq] at hpu
    omega

/-- Rows at or below the segment key of a millisecond start at or before it. -/
theorem le_key_iff (h : SeriesLayout pre rows) {r : Key × Row SegmentRow} (hr : r ∈ rows) {m : Int}
    (hm : I64.fits m = true) :
    Key.le r.1 (Key.segmentOfPrefix pre m) = true ↔ baseline r ≤ m := by
  obtain ⟨b, es, hb⟩ := h.holds r hr
  rw [hb.key_eq, hb.baseline_eq, Key.le_segmentOfPrefix_iff pre hb.fits hm]

theorem lt_key_iff (h : SeriesLayout pre rows) {r : Key × Row SegmentRow} (hr : r ∈ rows) {m : Int}
    (hm : I64.fits m = true) :
    Key.lt (Key.segmentOfPrefix pre m) r.1 = true ↔ m < baseline r := by
  obtain ⟨b, es, hb⟩ := h.holds r hr
  rw [hb.key_eq, hb.baseline_eq, Key.lt_segmentOfPrefix_iff pre hm hb.fits]

/-- Baselines strictly increase along rows lying well. -/
theorem baseline_lt (h : SeriesLayout pre rows) :
    rows.Pairwise fun r u => baseline r < baseline u := by
  refine List.Pairwise.imp_of_mem ?_ h.chain
  intro r u hr _ hru
  obtain ⟨b, es, hb⟩ := h.holds r hr
  obtain ⟨p, hp, -⟩ := hb.exists_lastTimestamp
  have := hb.baseline_le hp
  have := hru p hp
  rw [hb.baseline_eq] at *
  omega

end SeriesLayout

/-! ## Lists of rows -/

/-- Rows that add nothing to a list of points can be dropped from it. -/
theorem flatMap_filter_of_nil {α β : Type} {l : List α} {q : α → Bool} {f : α → List β}
    (h : ∀ x ∈ l, q x = false → f x = []) : (l.filter q).flatMap f = l.flatMap f := by
  induction l with
  | nil => rfl
  | cons x xs ih =>
    have ih' := ih fun y hy => h y (List.mem_cons_of_mem x hy)
    by_cases hq : q x = true
    · rw [List.filter_cons_of_pos hq, List.flatMap_cons, List.flatMap_cons, ih']
    · rw [List.filter_cons_of_neg hq, List.flatMap_cons, h x List.mem_cons_self (by simpa using hq),
        List.nil_append, ih']

/-- Keeping what does not meet a test, mapped: a `filterMap` that drops on the test. -/
theorem filterMap_ite_none {α β : Type} (l : List α) (c : α → Prop) [DecidablePred c] (f : α → β) :
    l.filterMap (fun x => if c x then none else some (f x)) =
      (l.filter fun x => !decide (c x)).map f := by
  induction l with
  | nil => rfl
  | cons x xs ih => by_cases hc : c x <;> simp [hc, ih]

/-- A list mapped by a step that succeeds on each member. -/
theorem mapM_eq_ok {α β ε : Type} {l : List α} {f : α → Except ε β} {g : α → β}
    (h : ∀ x ∈ l, f x = .ok (g x)) : l.mapM f = .ok (l.map g) := by
  induction l with
  | nil => rfl
  | cons x xs ih =>
    rw [List.mapM_cons, h x List.mem_cons_self, Except.ok_bind,
      ih fun y hy => h y (List.mem_cons_of_mem x hy)]
    rfl

/-! ## Reading a window -/

/-- The sample a reader reports for a stored point: its instant, values and status, and its tag
read as UTF-8. -/
def Point.toSample (p : Point) : Sample :=
  { time := Instant.ofMillis p.ms, values := p.values, tag := p.tag.map Text.ofUtf8Lossy,
    status := p.status }

/-- A stored row as a reader meets it. -/
def StoredRow.toStored (r : Key × Row SegmentRow) : StoredSegment :=
  { key := r.1, baseline := baseline r, etag := r.2.value.etag, changeVector := r.2.value.changeVector,
    segment := r.2.value.segment }

section Reading

variable {t : Tables} {pre : Key} {fromMs : Int}

/-- Where a reader of a window starting at `fromMs` starts: at the last row starting at or before
it, else at its segment key. The rows before that hold only points below `fromMs`, so they
add nothing a window could keep. -/
theorem flatMap_visited {β : Type} (ht : t.segments.Sorted) (h : SeriesLayout pre (t.segments.under pre))
    (hfrom : I64.fits fromMs = true) {F : Key × Row SegmentRow → List β}
    (hF : ∀ r, (∀ p ∈ points r, p.ms < fromMs) → F r = []) {start : Key}
    (hstart : start = ((t.segments.seekBackward pre (Key.segmentOfPrefix pre fromMs)).map
      fun x => x.1).getD (Key.segmentOfPrefix pre fromMs)) :
    Key.startsWith start pre = true ∧
      ((t.segments.under pre).filter fun x => Key.le start x.1).flatMap F =
        (t.segments.under pre).flatMap F := by
  have hsplit := Table.filter_le_append_filter_lt (ht.under pre) (Key.segmentOfPrefix pre fromMs)
  rw [Table.seekBackward_eq ht (Key.startsWith_segmentOfPrefix pre fromMs)] at hstart
  rcases hA : ((t.segments.under pre).filter fun x => Key.le x.1 (Key.segmentOfPrefix pre fromMs)).getLast?
    with _ | hd
  · -- no row starts at or before the window: the reader starts at the first row
    rw [hA] at hstart
    subst hstart
    have hnil := List.getLast?_eq_none_iff.mp hA
    refine ⟨Key.startsWith_segmentOfPrefix pre fromMs, flatMap_filter_of_nil fun x hx hle => ?_⟩
    have hmem : x ∈ (t.segments.under pre).filter fun x => Key.le x.1 (Key.segmentOfPrefix pre fromMs) :=
      List.mem_filter.mpr ⟨hx, Key.le_of_lt (Key.le_eq_false_iff.mp hle)⟩
    rw [hnil] at hmem
    cases hmem
  · rw [hA] at hstart
    subst hstart
    obtain ⟨A', hA'⟩ := List.getLast?_eq_some_iff.mp hA
    have hhdA : hd ∈ (t.segments.under pre).filter fun x => Key.le x.1 (Key.segmentOfPrefix pre fromMs) := by
      rw [hA']
      exact List.mem_append_right A' List.mem_cons_self
    have hhd := (List.mem_filter.mp hhdA).1
    have hhdle := (List.mem_filter.mp hhdA).2
    refine ⟨Table.startsWith_of_mem_under hhd, flatMap_filter_of_nil fun x hx hle => hF x ?_⟩
    have hxlt : Key.lt x.1 hd.1 = true := Key.le_eq_false_iff.mp hle
    have hxA : x ∈ A' := by
      have hxA : x ∈ A' ++ [hd] := by
        rw [← hA']
        exact List.mem_filter.mpr ⟨hx, Key.le_trans (Key.le_of_lt hxlt) hhdle⟩
      rcases List.mem_append.mp hxA with hxA | hxA
      · exact hxA
      · rw [List.mem_singleton.mp hxA] at hxlt
        simp at hxlt
    -- the row starting the reading comes after `x`, so its baseline bounds `x`'s points
    have hbase := (h.le_key_iff hhd hfrom).mp hhdle
    rw [← hsplit, hA', List.append_assoc] at h
    have hchain := (List.pairwise_append.mp h.chain).2.2 x hxA hd (by simp)
    intro p hp
    have := hchain p hp
    omega

/-- The live samples of a window in one row. -/
theorem liveIn_toStored {w : SeriesWindow} (hoff : w.offset = none) {pre : Key} {b : Int} {es : List Entry}
    {r : Key × Row SegmentRow} (h : Holds pre b es r) :
    w.liveIn (toStored r) =
      .ok (((points r).filter fun p => Point.isLive p && w.holds p.ms).map Point.toSample) := by
  have hreport : ∀ ms e, w.report ms e = pure (Sample.ofEntry (Instant.ofMillis ms) e) := by
    intro ms e
    simp [SeriesWindow.report, hoff, pure, Except.pure]
  unfold SeriesWindow.liveIn StoredSegment.samples
  simp only [toStored, h.built.sound.samples, Except.ok_bind, h.baseline_eq, h.points_eq, hreport,
    pure_bind, List.mapM_pure, List.filter_map, List.map_map]
  rfl

/-- A reader of a window without offset reads exactly the live points of the window, in
timestamp order. -/
theorem values_eq {w : SeriesWindow} {t : Tables} (ht : t.segments.Sorted)
    (h : SeriesLayout w.pre (t.segments.under w.pre)) (hoff : w.offset = none)
    (hfrom : I64.fits w.fromMs = true) :
    w.values t = .ok (((seriesPoints (t.segments.under w.pre)).filter
      fun p => Point.isLive p && w.holds p.ms).map Point.toSample) := by
  by_cases hle : w.fromMs ≤ w.toMs
  · obtain ⟨hstart, hvisit⟩ := flatMap_visited ht h hfrom
      (F := fun r => (points r).filter fun p => Point.isLive p && w.holds p.ms) (fun r hr => by
        refine List.filter_eq_nil_iff.mpr fun p hp => ?_
        have := hr p hp
        simp [SeriesWindow.holds]
        omega) rfl
    set start := ((t.segments.seekBackward w.pre (Key.segmentOfPrefix w.pre w.fromMs)).map
      fun x => x.1).getD (Key.segmentOfPrefix w.pre w.fromMs)
    set V := (t.segments.under w.pre).filter fun x => Key.le start x.1
    have hV : SeriesLayout w.pre V := h.sublist List.filter_sublist
    unfold SeriesWindow.values SeriesWindow.chunks SeriesWindow.segments
    rw [if_neg (by omega)]
    dsimp only
    rw [Table.seekForward_eq ht hstart,
      List.filterMap_congr (g := fun x => some (x.1, x.2, baseline x)) fun x hx => ?_,
      List.filterMap_eq_map', List.takeWhile_map, Table.takeWhile_eq_filter ?_, List.filterMap_map,
      List.filterMap_congr (g := fun x => if (toStored x).endMs < w.fromMs then none else some (toStored x))
        fun x _ => ?_, filterMap_ite_none, List.map_map, List.mapM_map,
      mapM_eq_ok (g := fun x => ((points x).filter fun p => Point.isLive p && w.holds p.ms).map Point.toSample)
        fun x hx => ?_]
    · rw [Except.ok_bind, ← List.flatMap_def, ← List.map_flatMap,
        flatMap_filter_of_nil fun x hx hend => ?_, flatMap_filter_of_nil fun x hx hbase => ?_,
        hvisit, seriesPoints, List.filter_flatMap]
      · rfl
      · -- a row starting past the window holds none of its points
        obtain ⟨b, es, hb⟩ := hV.holds x hx
        simp only [Function.comp, decide_eq_false_iff_not, hb.baseline_eq] at hbase
        refine List.filter_eq_nil_iff.mpr fun p hp => ?_
        have := hb.baseline_le hp
        simp [SeriesWindow.holds]
        omega
      · -- a row ending before the window holds none of its points
        obtain ⟨b, es, hb⟩ := hV.holds x (List.mem_filter.mp hx).1
        simp only [Bool.not_eq_false', decide_eq_true_eq, toStored, StoredSegment.endMs,
          hb.baseline_eq] at hend
        refine List.filter_eq_nil_iff.mpr fun p hp => ?_
        have := hb.le_lastTimestamp hp
        simp [SeriesWindow.holds]
        omega
    · obtain ⟨b, es, hb⟩ := hV.holds x (List.mem_filter.mp (List.mem_filter.mp hx).1).1
      exact liveIn_toStored hoff hb
    · rfl
    · exact (hV.baseline_lt).imp fun hxy hy => by
        simp only [Function.comp, decide_eq_true_eq] at hy ⊢
        omega
    · obtain ⟨b, es, hb⟩ := hV.holds x hx
      rw [hb.key_eq, Key.baselineOf_segmentOfPrefix _ hb.fits, ← hb.key_eq, hb.baseline_eq]
      rfl
  · -- an empty window reads nothing, and holds nothing
    unfold SeriesWindow.values SeriesWindow.chunks SeriesWindow.segments
    rw [if_pos (by omega), List.filter_eq_nil_iff.mpr fun p _ => by
      simp [SeriesWindow.holds]
      omega]
    rfl

end Reading

end SeriesStore
