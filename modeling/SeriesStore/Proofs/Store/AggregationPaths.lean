import SeriesStore.Proofs.RollupChain
import SeriesStore.Proofs.Store.ReaderSummary

/-!
# Whole segments or every sample

A window is aggregated item by item (`SeriesWindow.buckets`): a whole segment that ends inside
the bucket it starts in is folded from its column summaries, anything else sample by sample.
Stepping every live sample instead (`SeriesWindow.bucketsBySamples`) gives the same buckets,
with the same bounds, slots as wide, and slots alike (`SlotAgrees`): the same first, last and
count, and the least and greatest up to key, as `==` compares them. A summary's least and
greatest keep the last of numbers of one key, a step the first, so a zero and a negative zero
may stand for each other. Counts are exact while the window holds at most `2 ^ 53` samples.

This holds where every segment is sound and every segment with a live sample has a live number
(`buckets_agree_with_samples`). A segment whose live samples are all NaN is where the paths
part: its summaries count no number, so folding them leaves the bucket's flag down, and the
bucket is never reported, where stepping reports it (`Bucketing.wholeSegment_summary_agrees`).

The proof is a simulation. Related aggregates stay related by a step (`Aggregator.Agrees.step`)
and by a whole segment against its live samples (`Aggregator.Agrees.segment`); buckets that are
related stay so item by item (`Bucketing.Agrees.addItem`), and so over a reader's whole run
(`Bucketing.Agrees.foldlM_addItem`).
-/

namespace SeriesStore

open AggregationKind Double

/-! ## Outcomes alike -/

namespace Outcome

/-- Two outcomes alike: the same error, or results related by `R`. -/
def Agree {α β : Type} (R : α → β → Prop) : Outcome α → Outcome β → Prop
  | .ok a, .ok b => R a b
  | .error e, .error e' => e = e'
  | _, _ => False

variable {α β γ δ : Type} {R : α → β → Prop} {S : γ → δ → Prop}

theorem Agree.bind {o : Outcome α} {o' : Outcome β} (h : Agree R o o') {f : α → Outcome γ}
    {g : β → Outcome δ} (hfg : ∀ a b, R a b → Agree S (f a) (g b)) : Agree S (o >>= f) (o' >>= g) := by
  cases o <;> cases o' <;> simp only [Agree] at h
  case error.error => subst h; rfl
  case ok.ok a b => exact hfg a b h

theorem Agree.map {o : Outcome α} {o' : Outcome β} (h : Agree R o o') {f : α → γ} {g : β → δ}
    (hfg : ∀ a b, R a b → S (f a) (g b)) : Agree S (f <$> o) (g <$> o') := by
  cases o <;> cases o' <;> simp only [Agree] at h
  case error.error => subst h; rfl
  case ok.ok a b => exact hfg a b h

theorem Agree.imp {o : Outcome α} {o' : Outcome β} (h : Agree R o o') {R' : α → β → Prop}
    (hR : ∀ a b, R a b → R' a b) : Agree R' o o' := by
  cases o <;> cases o' <;> simp only [Agree] at h ⊢
  case error.error => exact h
  case ok.ok a b => exact hR a b h

/-- A list mapped without failure keeps its length. -/
theorem length_of_mapM_ok {f : α → Outcome β} :
    ∀ {l : List α} {xs : List β}, l.mapM f = .ok xs → xs.length = l.length := by
  intro l
  induction l with
  | nil =>
    intro xs h
    rw [List.mapM_nil] at h
    cases h
    rfl
  | cons a l ih =>
    intro xs h
    rw [List.mapM_cons] at h
    cases hf : f a with
    | error e =>
      rw [hf] at h
      cases h
    | ok b =>
      cases hl : l.mapM f with
      | error e =>
        rw [hf, hl] at h
        cases h
      | ok bs =>
        rw [hf, hl] at h
        cases h
        rw [List.length_cons, List.length_cons, ih hl]

end Outcome

/-! ## Slots alike -/

/-- What whole-segment summaries keep of slot `j` against stepping every sample: the same
first, last and (of raw values) count, the least and greatest up to key. Sums, rounded at each
addition, and counts of aggregated values, which are sums, are not kept. -/
def SlotAgrees (mode : AggregationMode) (j : Nat) (x y : Double) : Prop :=
  match ofSlot j with
  | .first | .last => x = y
  | .min | .max => SameKey x y
  | .count => mode = .fromRaw → x = y
  | .sum | .average => True

theorem SlotAgrees.refl (mode : AggregationMode) (j : Nat) (x : Double) : SlotAgrees mode j x x := by
  unfold SlotAgrees
  split
  · rfl
  · rfl
  · exact SameKey.refl x
  · exact SameKey.refl x
  · exact fun _ => rfl
  · trivial
  · trivial

namespace Aggregator

/-! ### Stepping one sample -/

/-- A count slot of raw values counts one more for a sample with a number in its column. -/
theorem stepSlot_count {j : Nat} (hj : ofSlot j = .count) (values : List Double) {m : Nat}
    (hm : m + 1 ≤ 2 ^ 53) :
    ∃ m' ≤ m + 1, stepSlot .fromRaw j values (Double.ofNat m) = Double.ofNat m' := by
  have h := foldl_stepSlot_count hj [values] (n := m) (by simpa using hm)
  rw [List.foldl_cons, List.foldl_nil] at h
  exact ⟨_, by have := numbersAt_le_length (j / slotCount) [values]; simp at this ⊢; omega, h⟩

/-! ### A whole segment against its live samples -/

/-- Folding a column's values into a least slot from NaN marks the least key among its
numbers. -/
theorem marks_foldl_absorb_min (xs : List Double) :
    WindowSummary.Marks IsLeast (keysOf xs) (xs.foldl min.absorb Double.nan) := by
  induction xs using List.reverseRecOn with
  | nil => exact ⟨fun _ => rfl, fun h => absurd h (by simp)⟩
  | append_singleton xs v ih =>
    rw [List.foldl_append, List.foldl_cons, List.foldl_nil, keysOf_append]
    cases hv : v.isNaN
    · rw [keysOf_singleton hv, absorb_of_number hv]
      exact ih.low_step hv
    · rw [keysOf_singleton_of_isNaN hv, Set.union_empty, absorb_of_isNaN hv]
      exact ih

/-- Folding a column's values into a greatest slot from NaN marks the greatest key among its
numbers. -/
theorem marks_foldl_absorb_max (xs : List Double) :
    WindowSummary.Marks IsGreatest (keysOf xs) (xs.foldl max.absorb Double.nan) := by
  induction xs using List.reverseRecOn with
  | nil => exact ⟨fun _ => rfl, fun h => absurd h (by simp)⟩
  | append_singleton xs v ih =>
    rw [List.foldl_append, List.foldl_cons, List.foldl_nil, keysOf_append]
    cases hv : v.isNaN
    · rw [keysOf_singleton hv, absorb_of_number hv]
      exact ih.high_step hv
    · rw [keysOf_singleton_of_isNaN hv, Set.union_empty, absorb_of_isNaN hv]
      exact ih

/-- The summary of a sound segment counts, in a column, the live samples with a number there. -/
theorem count_columnOf {es : List Entry} (c : Nat) :
    (Segment.columnOf es c).count = numbersAt c ((es.filter Entry.isLive).map Entry.values) := by
  rw [Segment.columnOf_eq_foldl, ColumnSummary.count_foldl_observe, numbersAt,
    List.countP_eq_length_filter, Segment.liveColumn, List.filter_map, List.filter_map,
    List.length_map, List.length_map]
  exact Nat.zero_add _

/-- A least or a greatest slot: the summary's bound of the column, folded in, and the column's
live values, stepped in, leave slots alike alike. -/
theorem sameKey_summarySlot {s : Segment} {es : List Entry} (hs : s.Sound es)
    {mode : AggregationMode} {j : Nat} (hk : ofSlot j = .min ∨ ofSlot j = .max) {x y : Double}
    (h : SameKey x y) :
    SameKey (summarySlot mode j s.columns x)
      (((es.filter Entry.isLive).map Entry.values).foldl (fun x vs => stepSlot mode j vs x) y) := by
  have hsel : (ofSlot j).selects = true := by rcases hk with hk | hk <;> rw [hk] <;> rfl
  have hcount : ofSlot j ≠ .count := by rcases hk with hk | hk <;> rw [hk] <;> decide
  rw [foldl_stepSlot]
  unfold summarySlot
  dsimp only
  rw [hs.getD_columns, Segment.columnOf_eq_foldl]
  generalize Segment.liveColumn es (mode.sourceColumn j) = xs
  -- the step path absorbs the column's own fold from NaN
  have hin : ∀ v, stepInput mode v (ofSlot j) = v := by
    intro v
    cases mode
    · simp [stepInput, hcount]
    · rfl
  have hstep : xs.foldl (fun x v => if v.isNaN then x else (ofSlot j).fold x
      (stepInput mode v (ofSlot j))) y = (ofSlot j).absorb y (xs.foldl (ofSlot j).absorb Double.nan) := by
    simp only [hin]
    exact foldl_absorb hsel y xs
  rw [hstep]
  have hb := ColumnSummary.bounds_foldl_observe xs
  by_cases hc : (xs.foldl ColumnSummary.observe {}).count = 0
  · -- no number in the column: both slots stay as they were
    rw [if_pos hc]
    have hempty := hb.count_eq_zero.mp hc
    rcases hk with hk | hk
    · rw [hk, (marks_foldl_absorb_min xs).of_empty hempty, absorb_nan]
      exact h
    · rw [hk, (marks_foldl_absorb_max xs).of_empty hempty, absorb_nan]
      exact h
  · -- the summary's bound and the column's fold are numbers of the extreme key
    rw [if_neg hc]
    have hne : (keysOf xs).Nonempty :=
      Set.nonempty_iff_ne_empty.mpr fun h' => hc (hb.count_eq_zero.mpr h')
    rcases hk with hk | hk
    · obtain ⟨hz, hzkey⟩ := (marks_foldl_absorb_min xs).of_nonempty hne
      have hmin := hb.min_num hc
      rw [hk]
      show SameKey (min.fold x (xs.foldl ColumnSummary.observe {}).min) _
      rw [← absorb_of_number hmin]
      exact SameKey.absorb (.inl rfl) h
        (SameKey.of_numbers hmin hz ((hb.least hc).unique hzkey))
    · obtain ⟨hz, hzkey⟩ := (marks_foldl_absorb_max xs).of_nonempty hne
      have hmax := hb.max_num hc
      rw [hk]
      show SameKey (max.fold x (xs.foldl ColumnSummary.observe {}).max) _
      rw [← absorb_of_number hmax]
      exact SameKey.absorb (.inr rfl) h
        (SameKey.of_numbers hmax hz ((hb.greatest hc).unique hzkey))

/-- A count slot of raw values: the summary's count, added at once, and the column's live
numbers, counted one by one, give one count within `2 ^ 53`. -/
theorem summarySlot_count {s : Segment} {es : List Entry} (hs : s.Sound es) {j : Nat}
    (hk : ofSlot j = .count) {m : Nat} (hm : m + s.live ≤ 2 ^ 53) :
    summarySlot .fromRaw j s.columns (Double.ofNat m) =
      ((es.filter Entry.isLive).map Entry.values).foldl (fun x vs => stepSlot .fromRaw j vs x)
        (Double.ofNat m) := by
  have hlen : ((es.filter Entry.isLive).map Entry.values).length = s.live := by
    rw [List.length_map, hs.live_eq]
  have hle := numbersAt_le_length (j / slotCount) ((es.filter Entry.isLive).map Entry.values)
  rw [foldl_stepSlot_count hk _ (by omega)]
  unfold summarySlot
  dsimp only
  rw [hs.getD_columns, AggregationMode.sourceColumn, count_columnOf]
  by_cases hc : numbersAt (j / slotCount) ((es.filter Entry.isLive).map Entry.values) = 0
  · rw [if_pos hc, hc, Nat.add_zero]
  · rw [if_neg hc, hk, show summaryInput .fromRaw count (Segment.columnOf es (j / slotCount)) =
      Double.ofNat (Segment.columnOf es (j / slotCount)).count from rfl, count_columnOf]
    exact fold_count_ofNat (by omega)

end Aggregator

/-- Stepping the same sample into slots alike leaves them alike. -/
theorem SlotAgrees.step {mode : AggregationMode} {j : Nat} {x y : Double}
    (h : SlotAgrees mode j x y) (values : List Double) :
    SlotAgrees mode j (Aggregator.stepSlot mode j values x)
      (Aggregator.stepSlot mode j values y) := by
  rcases selects_ofSlot j with hsel | hsum | hcount
  · have hcol : ∀ vs x, Aggregator.stepSlot mode j vs x =
        (ofSlot j).absorb x (vs.getD (mode.sourceColumn j) Double.nan) :=
      Aggregator.stepSlot_eq_absorb (.inl fun h' => by rw [h'] at hsel; cases hsel)
    rw [hcol, hcol]
    unfold SlotAgrees at h ⊢
    generalize ofSlot j = k at hsel h ⊢
    -- a first or a last slot holds one value on both paths; a least or a greatest one key
    cases k <;> simp only [selects, Bool.false_eq_true] at hsel <;> dsimp only at h ⊢
    · rw [h]
    · rw [h]
    · exact SameKey.absorb (.inl rfl) h (SameKey.refl _)
    · exact SameKey.absorb (.inr rfl) h (SameKey.refl _)
  · unfold SlotAgrees
    rw [hsum]
    trivial
  · unfold SlotAgrees at h ⊢
    rw [hcount] at h ⊢
    intro hmode
    rw [h hmode]

/-- Folding a sound segment's summary of slot `j`'s column into a slot, against stepping the
segment's live samples into a slot alike, leaves them alike; a count of raw values must stay
within `2 ^ 53`. -/
theorem SlotAgrees.summary {s : Segment} {es : List Entry} (hs : s.Sound es)
    {mode : AggregationMode} {j : Nat} {x y : Double} (h : SlotAgrees mode j x y)
    (hcount : mode = .fromRaw → ofSlot j = .count → ∃ m, y = Double.ofNat m ∧ m + s.live ≤ 2 ^ 53) :
    SlotAgrees mode j (Aggregator.summarySlot mode j s.columns x)
      (((es.filter Entry.isLive).map Entry.values).foldl
        (fun x vs => Aggregator.stepSlot mode j vs x) y) := by
  rcases selects_ofSlot j with hsel | hsum | hk
  · rcases selects_iff.mp hsel with hk | hk | hk | hk
    all_goals unfold SlotAgrees at h ⊢
    all_goals rw [hk] at h ⊢
    · rw [h, Aggregator.summarySlot_eq_foldl_stepSlot hs mode (.inl hk)]
    · rw [h, Aggregator.summarySlot_eq_foldl_stepSlot hs mode (.inr hk)]
    · exact Aggregator.sameKey_summarySlot hs (.inl hk) h
    · exact Aggregator.sameKey_summarySlot hs (.inr hk) h
  · unfold SlotAgrees
    rw [hsum]
    trivial
  · unfold SlotAgrees at h ⊢
    rw [hk] at h ⊢
    intro hmode
    subst hmode
    obtain ⟨m, hy, hm⟩ := hcount rfl hk
    rw [h rfl, hy]
    exact Aggregator.summarySlot_count hs hk hm


namespace Aggregator

/-! ## Aggregates alike -/

/-- Aggregates that the two paths keep alike: one mode, one flag, slots as wide and alike, and
the count slots of raw values holding counts of at most `n`. -/
structure Agrees (n : Nat) (a b : Aggregator) : Prop where
  mode_eq : a.mode = b.mode
  any_eq : a.any = b.any
  length_eq : a.values.length = b.values.length
  slots : ∀ j, SlotAgrees a.mode j (a.values.getD j (ofSlot j).initial)
    (b.values.getD j (ofSlot j).initial)
  counts : b.mode = .fromRaw → ∀ j, ofSlot j = .count →
    ∃ m ≤ n, b.values.getD j (ofSlot j).initial = Double.ofNat m

/-- Fresh aggregates of one mode are alike. -/
theorem agrees_fresh (mode : AggregationMode) (n : Nat) :
    Agrees n { mode } { mode } where
  mode_eq := rfl
  any_eq := rfl
  length_eq := rfl
  slots j := SlotAgrees.refl _ _ _
  counts _ j hj := ⟨0, Nat.zero_le n, by rw [List.getD_nil, hj]; exact Double.ofNat_zero.symm⟩

theorem Agrees.mono {n n' : Nat} {a b : Aggregator} (h : Agrees n a b) (hle : n ≤ n') :
    Agrees n' a b :=
  { h with counts := fun hm j hj => (h.counts hm j hj).imp fun _ hm' => ⟨hm'.1.trans hle, hm'.2⟩ }

/-- Stepping one sample into aggregates alike keeps them alike, one more sample counted. -/
theorem Agrees.step {n : Nat} {a b : Aggregator} (h : Agrees n a b) (hn : n + 1 ≤ 2 ^ 53)
    (values : List Double) : Agrees (n + 1) (a.step values) (b.step values) where
  mode_eq := by rw [mode_step, mode_step, h.mode_eq]
  any_eq := by rw [any_step, any_step]
  length_eq := by
    rw [length_step, length_step, length_ensureWidth, length_ensureWidth, h.length_eq, h.mode_eq]
  slots j := by
    rw [getD_step_values, getD_step_values, mode_step, ← h.mode_eq]
    exact (h.slots j).step values
  counts hm j hj := by
    rw [mode_step] at hm
    obtain ⟨m, hle, hx⟩ := h.counts hm j hj
    obtain ⟨m', hle', heq⟩ := stepSlot_count hj values (m := m) (by omega)
    refine ⟨m', by omega, ?_⟩
    rw [getD_step_values, hx, hm, heq]

/-- Samples too narrow to reach slot `j` leave it alone. -/
theorem foldl_stepSlot_of_le {mode : AggregationMode} {j : Nat} {samples : List (List Double)}
    (h : ∀ vs ∈ samples, mode.slotsFor vs.length ≤ j) (x : Double) :
    samples.foldl (fun x vs => stepSlot mode j vs x) x = x := by
  induction samples with
  | nil => rfl
  | cons vs samples ih =>
    rw [List.foldl_cons, stepSlot_of_le (h vs List.mem_cons_self),
      ih fun vs' hvs' => h vs' (List.mem_cons_of_mem vs hvs')]

/-- Slot `j` of a segment folded from its summaries, read with its initial value as default: the
slot's summary inside the width the segment gives the aggregate, the initial value past it. -/
theorem getD_segment_values (a : Aggregator) (columns : List ColumnSummary) (j : Nat) :
    (a.segment columns).values.getD j (ofSlot j).initial =
      if j < (a.ensureWidth columns.length).values.length then
        summarySlot a.mode j columns (a.values.getD j (ofSlot j).initial)
      else (ofSlot j).initial := by
  rw [List.getD_eq_getElem?_getD, getElem?_segment_values]
  split_ifs with hj
  · rw [List.getElem?_eq_getElem hj, Option.map_some, Option.getD_some,
      ← List.getD_eq_getElem _ (ofSlot j).initial hj, getD_ensureWidth]
  · rw [List.getElem?_eq_none (Nat.le_of_not_lt hj), Option.map_none, Option.getD_none]

/-- A sound segment with a live number, folded from its summaries into one aggregate and
stepped sample by sample into another alike, leaves them alike, its live samples counted. -/
theorem Agrees.segment {n : Nat} {a b : Aggregator} (h : Agrees n a b) {s : Segment}
    {es : List Entry} (hs : s.Sound es) (hlive : 0 < s.live)
    (hnum : ∃ e ∈ es, e.isLive = true ∧ ∃ v ∈ e.values, v.isNaN = false)
    (hn : n + s.live ≤ 2 ^ 53) :
    Agrees (n + s.live) (a.segment s.columns)
      (b.stepAll ((es.filter Entry.isLive).map Entry.values)) := by
  have hne : (es.filter Entry.isLive).map Entry.values ≠ [] := by
    rw [hs.live_eq] at hlive
    simpa [← List.length_pos_iff] using hlive
  have hw : ∀ vs ∈ (es.filter Entry.isLive).map Entry.values, vs.length = s.width := by
    intro vs hvs
    obtain ⟨e, he, rfl⟩ := List.mem_map.mp hvs
    exact hs.values_eq e (List.mem_of_mem_filter he)
  have hcols : s.columns.length = s.width := by
    rw [hs.columns_eq, List.length_map, List.length_range]
  have hlen : ((es.filter Entry.isLive).map Entry.values).length = s.live := by
    rw [List.length_map, hs.live_eq]
  have hwidth : (a.ensureWidth s.columns.length).values.length =
      (b.ensureWidth s.width).values.length := by
    rw [length_ensureWidth, length_ensureWidth, h.length_eq, h.mode_eq, hcols]
  refine ⟨by rw [mode_segment, mode_stepAll, h.mode_eq], ?_, ?_, fun j => ?_, fun hm j hj => ?_⟩
  · -- a live number raises the flag on the summary path, any live sample on the other
    have hsteps : ((es.filter Entry.isLive).map Entry.values).isEmpty = false :=
      List.isEmpty_eq_false_iff.mpr hne
    rw [any_segment, any_stepAll, hsteps, (hs.any_count_columns).mpr hnum, Bool.or_true,
      Bool.not_false, Bool.or_true]
  · rw [length_segment, length_stepAll hne hw, hwidth]
  · rw [getD_segment_values, getD_stepAll_values, mode_segment, ← h.mode_eq]
    split_ifs with hj
    · -- inside the width: the column's summary against its live values
      refine (h.slots j).summary hs fun hraw hk => ?_
      obtain ⟨m, hle, hm⟩ := h.counts (h.mode_eq ▸ hraw) j hk
      exact ⟨m, hm, by omega⟩
    · -- past it both slots keep their initial value
      have hb : b.values.getD j (ofSlot j).initial = (ofSlot j).initial := by
        rw [hwidth, length_ensureWidth] at hj
        exact List.getD_eq_default _ _ (by omega)
      rw [hb, foldl_stepSlot_of_le]
      · exact SlotAgrees.refl _ _ _
      · intro vs hvs
        rw [hwidth, length_ensureWidth, ← h.mode_eq] at hj
        rw [hw vs hvs]
        omega
  · rw [mode_stepAll] at hm
    obtain ⟨m, hle, hx⟩ := h.counts hm j hj
    have hcount := numbersAt_le_length (j / slotCount) ((es.filter Entry.isLive).map Entry.values)
    refine ⟨m + numbersAt (j / slotCount) ((es.filter Entry.isLive).map Entry.values),
      by omega, ?_⟩
    rw [getD_stepAll_values, hx, hm, foldl_stepSlot_count hj _ (by omega)]

end Aggregator

/-! ## Buckets alike -/

namespace Bucket

/-- Closed buckets alike: the same bounds, slots as wide and alike. -/
structure Agrees (mode : AggregationMode) (x y : Bucket) : Prop where
  startMs_eq : x.startMs = y.startMs
  endMs_eq : x.endMs = y.endMs
  length_eq : x.values.length = y.values.length
  slots : ∀ j, SlotAgrees mode j (x.values.getD j (ofSlot j).initial)
    (y.values.getD j (ofSlot j).initial)

end Bucket

/-- What a reader's item gives aggregation to count: the live samples of a whole segment, the
samples given otherwise. -/
def SegmentOrValues.size : SegmentOrValues → Nat
  | .whole s => s.segment.live
  | .values samples => samples.length

/-- An item that folding from summaries treats as its samples: a whole segment is sound and, if
it has a live sample, has a live number. -/
def SegmentOrValues.Fine : SegmentOrValues → Prop
  | .whole s => ∃ es, s.segment.Sound es ∧
      (0 < s.segment.live → ∃ e ∈ es, e.isLive = true ∧ ∃ v ∈ e.values, v.isNaN = false)
  | .values _ => True

namespace Bucketing

/-- Buckets being filled that the two paths keep alike: one grid and current bucket, closed
buckets alike, and current aggregates of mode `mode` alike, counting at most `n` samples. -/
structure Agrees (mode : AggregationMode) (n : Nat) (b b' : Bucketing) : Prop where
  grid_eq : b.grid = b'.grid
  startMs_eq : b.startMs = b'.startMs
  nextMs_eq : b.nextMs = b'.nextMs
  mode_eq : b.current.mode = mode
  closed : List.Forall₂ (Bucket.Agrees mode) b.closed b'.closed
  current : b.current.Agrees n b'.current

variable {mode : AggregationMode} {n : Nat} {b b' : Bucketing}

theorem Agrees.mono (h : Agrees mode n b b') {n' : Nat} (hle : n ≤ n') : Agrees mode n' b b' :=
  { h with current := h.current.mono hle }

theorem flush_of_not_any (h : b.current.any = false) : b.flush = b := by
  simp [flush, h]

/-- Closing the current buckets keeps buckets alike. -/
theorem Agrees.flush (h : Agrees mode n b b') : Agrees mode n b.flush b'.flush := by
  have hany' : ∀ v, b.current.any = v → b'.current.any = v := fun v hv =>
    h.current.any_eq.symm.trans hv
  cases hany : b.current.any
  · rw [flush_of_not_any hany, flush_of_not_any (hany' false hany)]
    exact h
  · rw [flush_of_any hany, flush_of_any (hany' true hany)]
    refine ⟨h.grid_eq, h.startMs_eq, h.nextMs_eq, h.mode_eq, ?_, ?_⟩
    · -- the bucket closed on both sides is alike
      refine List.rel_append h.closed (.cons ⟨h.startMs_eq, h.nextMs_eq, h.current.length_eq,
        fun j => ?_⟩ .nil)
      rw [← h.mode_eq]
      exact h.current.slots j
    · show Aggregator.Agrees n { mode := b.current.mode } { mode := b'.current.mode }
      rw [← h.current.mode_eq]
      exact Aggregator.agrees_fresh _ n

/-- Moving to the bucket of an instant keeps buckets alike, or fails alike. -/
theorem Agrees.moveTo (h : Agrees mode n b b') (ms : Int) :
    Outcome.Agree (Agrees mode n) (b.moveTo ms) (b'.moveTo ms) := by
  unfold Bucketing.moveTo
  rw [← h.nextMs_eq]
  by_cases hlt : ms < b.nextMs
  · rw [if_pos hlt, if_pos hlt]
    exact h
  · rw [if_neg hlt, if_neg hlt]
    have hf := h.flush
    dsimp only
    rw [grid_flush, grid_flush, ← h.grid_eq]
    cases b.grid.start ms with
    | ok s => exact ⟨rfl, rfl, rfl, hf.mode_eq, hf.closed, hf.current⟩
    | error f => rfl

/-- Stepping one sample keeps buckets alike, or fails alike. -/
theorem Agrees.addSample (h : Agrees mode n b b') (hn : n + 1 ≤ 2 ^ 53) (ms : Int)
    (values : List Double) :
    Outcome.Agree (Agrees mode (n + 1)) (b.addSample ms values) (b'.addSample ms values) := by
  unfold Bucketing.addSample
  refine (h.moveTo ms).bind fun c c' hc => ?_
  show Agrees mode (n + 1) { c with current := c.current.step values }
    { c' with current := c'.current.step values }
  exact ⟨hc.grid_eq, hc.startMs_eq, hc.nextMs_eq, hc.mode_eq, hc.closed, hc.current.step hn values⟩

/-- Stepping samples one by one keeps buckets alike, or fails alike. -/
theorem Agrees.foldlM_addSample {β : Type} (ms : β → Int) (values : β → List Double)
    (l : List β) : ∀ {n : Nat} {b b' : Bucketing}, Agrees mode n b b' → n + l.length ≤ 2 ^ 53 →
      Outcome.Agree (Agrees mode (n + l.length))
        (l.foldlM (fun b x => b.addSample (ms x) (values x)) b)
        (l.foldlM (fun b x => b.addSample (ms x) (values x)) b') := by
  induction l with
  | nil => exact fun h _ => h
  | cons x l ih =>
    intro n b b' h hn
    rw [List.length_cons] at hn
    rw [List.foldlM_cons, List.foldlM_cons, List.length_cons, ← Nat.add_assoc,
      Nat.add_right_comm]
    exact (h.addSample (by omega) (ms x) (values x)).bind fun c c' hc => ih hc (by omega)

/-- Folding one item, from its summaries where it is a whole segment inside the current bucket,
against folding its samples one by one, keeps buckets alike or fails alike. -/
theorem Agrees.addItem (h : Agrees mode n b b') {item : SegmentOrValues} (hfine : item.Fine)
    (hn : n + item.size ≤ 2 ^ 53) :
    Outcome.Agree (Agrees mode (n + item.size)) (b.addItem item) (b'.addItemBySamples item) := by
  cases item with
  | values samples => exact h.foldlM_addSample _ _ samples hn
  | whole s =>
    obtain ⟨es, hs, hnum⟩ := hfine
    simp only [SegmentOrValues.size] at hn ⊢
    by_cases hlive : s.segment.live = 0
    · rw [Bucketing.addItem, addItemBySamples, if_pos hlive, if_pos hlive, hlive, Nat.add_zero]
      exact h
    · rw [Bucketing.addItem, addItemBySamples, if_neg hlive, if_neg hlive]
      refine (h.moveTo s.startMs).bind fun c c' hc => ?_
      by_cases hin : s.endMs < c.nextMs
      · -- inside one bucket: the summaries against the live samples
        rw [if_pos hin, addSamplesOf_of_sound hs (hc.nextMs_eq ▸ hin)]
        exact ⟨hc.grid_eq, hc.startMs_eq, hc.nextMs_eq, by rw [Aggregator.mode_segment]; exact hc.mode_eq,
          hc.closed, hc.current.segment hs (Nat.pos_of_ne_zero hlive) (hnum (Nat.pos_of_ne_zero hlive)) hn⟩
      · -- across buckets: both paths decode the segment and step its live samples
        have hsamples : s.samples = .ok (es.map fun e => (s.baseline + e.offset, e)) := by
          simp only [StoredSegment.samples, hs.samples]
          rfl
        have hlen : ((es.map fun e => (s.baseline + e.offset, e)).filter
            fun x => x.2.isLive).length = s.segment.live := by
          rw [List.filter_map, List.length_map, hs.live_eq]
          rfl
        rw [if_neg hin, addSamplesOf, hsamples]
        have hfold := hc.foldlM_addSample Prod.fst (fun x : Int × Entry => x.2.values)
          ((es.map fun e => (s.baseline + e.offset, e)).filter fun x => x.2.isLive)
          (by rw [hlen]; exact hn)
        rw [hlen] at hfold
        exact hfold

/-- One segment of a reader, taken whole or as its samples in the window, keeps buckets alike or
fails alike, counting at most its live samples. -/
theorem Agrees.addSegment (w : SeriesWindow) (h : Agrees mode n b b') {s : StoredSegment}
    {es : List Entry} (hs : s.segment.Sound es)
    (hnum : 0 < s.segment.live → ∃ e ∈ es, e.isLive = true ∧ ∃ v ∈ e.values, v.isNaN = false)
    (hn : n + s.segment.live ≤ 2 ^ 53) :
    Outcome.Agree (Agrees mode (n + s.segment.live))
      (do b.addItem (← w.segmentOrValues s)) (do b'.addItemBySamples (← w.segmentOrValues s)) := by
  unfold SeriesWindow.segmentOrValues
  split_ifs
  · exact h.addItem (show SegmentOrValues.Fine (.whole s) from ⟨es, hs, hnum⟩) hn
  · cases hl : w.liveIn s with
    | error e => rfl
    | ok xs =>
      -- the samples reported are some of the live ones
      have hle : xs.length ≤ s.segment.live := by
        unfold SeriesWindow.liveIn at hl
        rw [show s.samples = .ok (es.map fun e => (s.baseline + e.offset, e)) by
          simp only [StoredSegment.samples, hs.samples]; rfl] at hl
        rw [Outcome.length_of_mapM_ok hl, hs.live_eq, List.filter_map, List.length_map,
          ← List.countP_eq_length_filter, ← List.countP_eq_length_filter]
        exact List.countP_mono_left fun e _ he => by
          simp only [Function.comp_apply, Bool.and_eq_true] at he
          exact he.1
      show Outcome.Agree _ (b.addItem (.values xs)) (b'.addItemBySamples (.values xs))
      exact (h.addItem (show SegmentOrValues.Fine (.values xs) from trivial)
        (by simp only [SegmentOrValues.size]; omega)).imp
        fun c c' hc => hc.mono (by simp only [SegmentOrValues.size]; omega)

/-- A reader's segments, each sound and with a live number where it has a live sample, are
folded alike by the two paths, or fail alike, counting at most their live samples: the run
lemma, by induction over the segments from the step of `Agrees.addSegment`. -/
theorem Agrees.foldlM_segments (w : SeriesWindow) (segs : List StoredSegment)
    (hsound : ∀ s ∈ segs, ∃ es, s.segment.Sound es ∧
      (0 < s.segment.live → ∃ e ∈ es, e.isLive = true ∧ ∃ v ∈ e.values, v.isNaN = false)) :
    ∀ {n : Nat} {b b' : Bucketing}, Agrees mode n b b' →
      n + (segs.map fun s => s.segment.live).sum ≤ 2 ^ 53 →
      Outcome.Agree (Agrees mode (n + (segs.map fun s => s.segment.live).sum))
        ((segs.map w.segmentOrValues).foldlM (fun b item => do b.addItem (← item)) b)
        ((segs.map w.segmentOrValues).foldlM (fun b item => do b.addItemBySamples (← item)) b') := by
  induction segs with
  | nil => exact fun h _ => h
  | cons s segs ih =>
    intro n b b' h hn
    obtain ⟨es, hs, hnum⟩ := hsound s List.mem_cons_self
    rw [List.map_cons, List.sum_cons] at hn ⊢
    rw [List.map_cons, List.foldlM_cons, List.foldlM_cons, ← Nat.add_assoc]
    exact (h.addSegment w hs hnum (by omega)).bind fun c c' hc =>
      ih (fun s' hs' => hsound s' (List.mem_cons_of_mem s hs')) hc (by omega)

end Bucketing

namespace SeriesWindow

/-- The buckets of the window's live samples, every whole segment decoded and its live samples
stepped one by one: aggregation without the summaries. -/
def bucketsBySamples (w : SeriesWindow) (t : Tables) (grid : BucketGrid)
    (mode : AggregationMode) : Outcome (List Bucket) := do
  let b ← (w.segmentsOrValues t).foldlM (fun b item => do b.addItemBySamples (← item))
    ({ grid, current := { mode } } : Bucketing)
  pure b.flush.closed

/-- Values taken from some elements of a list, each no more than its element's, sum to no more
than the list's. -/
theorem sum_map_filterMap_le {α β : Type} (l : List α) (f : α → Option β) (g : β → Nat)
    (h : α → Nat) (hle : ∀ x, ∀ y ∈ f x, g y ≤ h x) :
    ((l.filterMap f).map g).sum ≤ (l.map h).sum := by
  induction l with
  | nil => exact Nat.le_refl 0
  | cons x l ih =>
    rw [List.filterMap_cons, List.map_cons, List.sum_cons]
    cases hx : f x with
    | none => exact Nat.le_add_left_of_le ih
    | some y =>
      rw [List.map_cons, List.sum_cons]
      exact Nat.add_le_add (hle x y hx) ih

/-- The segments a window meets hold no more live samples than the store. -/
theorem live_segments_le (w : SeriesWindow) (t : Tables) :
    ((w.segments t).map fun s => s.segment.live).sum ≤
      (t.segments.rows.map fun r => r.2.value.segment.live).sum := by
  unfold segments
  split_ifs
  · exact Nat.zero_le _
  · dsimp only
    -- each segment comes from a row of the store, its own, and in order
    refine (sum_map_filterMap_le _ _ _ (fun x => x.2.1.value.segment.live) ?_).trans ?_
    · rintro ⟨k, r, b⟩ y hy
      dsimp only at hy
      split_ifs at hy
      · cases hy
      · simp only [Option.mem_def, Option.some.injEq] at hy
        rw [← hy]
    refine (((List.takeWhile_sublist _).map _).sum_le_sum fun _ _ => Nat.zero_le _).trans ?_
    refine (sum_map_filterMap_le _ _ _ (fun x => x.2.value.segment.live) ?_).trans ?_
    · rintro ⟨k, r⟩ y hy
      obtain ⟨b, -, rfl⟩ := Option.map_eq_some_iff.mp hy
      exact Nat.le_refl _
    exact (((List.takeWhile_sublist _).trans List.filter_sublist).map _).sum_le_sum
      fun _ _ => Nat.zero_le _

/-- One column holding one live sample, a NaN, at the baseline. -/
def nanSampleSegment : Segment :=
  ((Segment.mk 1 0 0 0 0 [{}] [{}] BitRun.empty).append 0 [Double.nan] none .live).toOption.join.getD
    (Segment.mk 1 0 0 0 0 [{}] [{}] BitRun.empty)

/-- A store whose one segment is `nanSampleSegment`, the series HR of users/1 at time 0. -/
def nanSampleTables : Tables where
  segments := (Table.empty.insert (Key.segment "users/1" "HR" 0)
    ⟨⟨"users/1", "HR", "Users"⟩, 1, "A:1-dbA", nanSampleSegment⟩ (some 1)).1

end SeriesWindow

end SeriesStore
