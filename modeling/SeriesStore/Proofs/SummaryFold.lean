import SeriesStore.Proofs.Segment
import SeriesStore.Proofs.SlotAlgebra
import SeriesStore.Store.Aggregate

/-!
# Folding a whole segment from its summaries

When a whole segment ends inside the bucket it starts in, aggregation folds it from its column
summaries instead of stepping each live sample (`Bucketing.addItem`). Both paths act slot by
slot: stepping a sample folds the value of a slot's column into it by the slot's kind
(`getElem?_step_values`), and folding summaries folds the column's summary into it
(`getElem?_segment_values`). A sound segment keeps, per column, the summary of the live values
(`Segment.Sound.getD_columns`), so on a first or a last slot the two agree, and both widen the
slots to the segment's width (`Aggregator.segment_agrees_with_stepAll`).

They part on the bucket's any-flag, which decides whether a flush reports the bucket: stepping
raises it for every live sample, folding summaries only for a column that counts a number. A
segment whose live samples are all NaN therefore leaves a bucket unreported that stepping
reports (`Bucketing.wholeSegment_summary_agrees`).

Least, greatest and count slots agree too, the least and greatest up to key and the counts
while they stay within `2 ^ 53`; that, over a reader's whole run, is
`SeriesWindow.buckets_agree_with_samples`. A sum slot is rounded at every addition, and a
summary's sum adds a segment's numbers before they meet the slot, so nothing is stated of sums.
-/

namespace SeriesStore

open AggregationKind

namespace AggregationMode

/-- Slots that `width` input values take: six per value of a raw sample, one per value of an
aggregated one. -/
def slotsFor : AggregationMode → Nat → Nat
  | .fromRaw, width => width * slotCount
  | .fromAggregated, width => width

/-- The input column that slot `j` aggregates. -/
def sourceColumn : AggregationMode → Nat → Nat
  | .fromRaw, j => j / slotCount
  | .fromAggregated, j => j

end AggregationMode

namespace ColumnSummary

theorem foldl_observe_of_isNaN {xs : List Double} (h : ∀ v ∈ xs, v.isNaN = true)
    (c : ColumnSummary) : xs.foldl observe c = c := by
  induction xs with
  | nil => rfl
  | cons v xs ih =>
    rw [List.foldl_cons, show c.observe v = c by simp [observe, h v List.mem_cons_self]]
    exact ih fun x hx => h x (List.mem_cons_of_mem _ hx)

/-- A summary counts the numbers among the values it takes. -/
theorem count_foldl_observe (xs : List Double) (c : ColumnSummary) :
    (xs.foldl observe c).count = c.count + (xs.filter fun v => !v.isNaN).length := by
  induction xs generalizing c with
  | nil => simp
  | cons v xs ih =>
    rw [List.foldl_cons, ih]
    cases hv : v.isNaN
    · have : (c.observe v).count = c.count + 1 := by
        simp only [observe, hv, Bool.false_eq_true, if_false]
        split <;> simp_all
      simp [hv, this]
      omega
    · simp [hv, observe]

/-- A summary that counted nothing yet takes the first number as its first. -/
theorem first_foldl_observe (xs : List Double) (c : ColumnSummary) :
    (xs.foldl observe c).first =
      if c.count = 0 then (xs.filter fun v => !v.isNaN).head?.getD c.first else c.first := by
  induction xs generalizing c with
  | nil => simp
  | cons v xs ih =>
    rw [List.foldl_cons, ih]
    cases hv : v.isNaN
    · by_cases hc : c.count = 0 <;> simp [observe, hv, hc]
    · simp [observe, hv]

/-- A summary's last is the last number it took. -/
theorem last_foldl_observe (xs : List Double) (c : ColumnSummary) :
    (xs.foldl observe c).last = (xs.filter fun v => !v.isNaN).getLast?.getD c.last := by
  induction xs generalizing c with
  | nil => simp
  | cons v xs ih =>
    rw [List.foldl_cons, ih]
    cases hv : v.isNaN
    · have : (c.observe v).last = v := by
        simp only [observe, hv, Bool.false_eq_true, if_false]
        split <;> rfl
      simp [hv, this, List.getLast?_cons]
    · simp [hv, observe]

end ColumnSummary

namespace Segment

/-- The values in column `i` of the live samples, in order. -/
def liveColumn (es : List Entry) (i : Nat) : List Double :=
  (es.filter Entry.isLive).map fun e => e.values.getD i Double.nan

theorem columnOf_eq_foldl (es : List Entry) (i : Nat) :
    columnOf es i = (liveColumn es i).foldl ColumnSummary.observe {} := by
  rw [columnOf, liveColumn, List.foldl_map]

/-- A sound segment keeps the summary of every column, and past its width an empty one. -/
theorem Sound.getD_columns {s : Segment} {es : List Entry} (h : s.Sound es) (i : Nat) :
    s.columns.getD i {} = columnOf es i := by
  rw [h.columns_eq]
  by_cases hi : i < s.width
  · simp [List.getD_eq_getElem?_getD, hi]
  · rw [List.getD_eq_default _ _ (by simp; omega), columnOf_eq_foldl,
      ColumnSummary.foldl_observe_of_isNaN]
    -- past the width every value of a sample is the NaN it is padded with
    intro v hv
    obtain ⟨e, he, rfl⟩ := List.mem_map.mp hv
    have hlen := h.values_eq e (List.mem_of_mem_filter he)
    rw [List.getD_eq_default _ _ (by omega)]
    decide

/-- Some column of a sound segment counts a number exactly when some live sample holds one. -/
theorem Sound.any_count_columns {s : Segment} {es : List Entry} (h : s.Sound es) :
    (s.columns.any fun c => c.count != 0) = true ↔
      ∃ e ∈ es, e.isLive = true ∧ ∃ v ∈ e.values, v.isNaN = false := by
  rw [List.any_eq_true]
  constructor
  · rintro ⟨c, hc, hcount⟩
    obtain ⟨i, -, rfl⟩ : ∃ i, i < s.width ∧ columnOf es i = c := by
      rw [h.columns_eq] at hc
      simpa using hc
    rw [columnOf_eq_foldl, ColumnSummary.count_foldl_observe] at hcount
    obtain ⟨v, hv, hnum⟩ : ∃ v ∈ liveColumn es i, v.isNaN = false := by simpa using hcount
    obtain ⟨e, he, rfl⟩ := List.mem_map.mp hv
    obtain ⟨he, hlive⟩ := List.mem_filter.mp he
    refine ⟨e, he, hlive, ?_⟩
    -- a number is no padding, so it is one of the sample's values
    have hi : i < e.values.length := by
      by_contra hi
      rw [List.getD_eq_default _ _ (by omega)] at hnum
      exact absurd hnum (by decide)
    refine ⟨e.values[i], List.getElem_mem hi, ?_⟩
    simpa [List.getD_eq_getElem?_getD, hi] using hnum
  · rintro ⟨e, he, hlive, v, hv, hnum⟩
    obtain ⟨i, hi, rfl⟩ := List.mem_iff_getElem.mp hv
    have hw : i < s.width := h.values_eq e he ▸ hi
    refine ⟨columnOf es i, by rw [h.columns_eq]; exact List.mem_map_of_mem (List.mem_range.mpr hw), ?_⟩
    rw [columnOf_eq_foldl, ColumnSummary.count_foldl_observe]
    have hmem : e.values[i] ∈ (liveColumn es i).filter fun v => !v.isNaN := by
      refine List.mem_filter.mpr ⟨List.mem_map.mpr ⟨e, List.mem_filter.mpr ⟨he, hlive⟩, ?_⟩, by simp [hnum]⟩
      simp [List.getD_eq_getElem?_getD, hi]
    simpa using List.ne_nil_of_mem hmem

end Segment

namespace Aggregator

/-! ## Slots one at a time -/

theorem length_foldAt (vs : List Double) (i : Nat) (k : AggregationKind) (v : Double) :
    (foldAt vs i k v).length = vs.length :=
  List.length_modify _ _ _

theorem getElem?_foldAt (vs : List Double) (i : Nat) (k : AggregationKind) (v : Double) (j : Nat) :
    (foldAt vs i k v)[j]? = if i = j then vs[j]?.map (k.fold · v) else vs[j]? := by
  rw [foldAt, List.getElem?_modify]
  by_cases h : i = j <;> simp [h]

/-- Fold what a column gives into its slots: each of the six slots of a raw value, or the one
slot of an aggregated value, takes the input its kind asks for. -/
def foldColumn (mode : AggregationMode) (i : Nat) (input : AggregationKind → Double)
    (vs : List Double) : List Double :=
  match mode with
  | .fromRaw => slots.zipIdx.foldl (fun vs (k, o) => foldAt vs (i * slotCount + o) k (input k)) vs
  | .fromAggregated => foldAt vs i (ofSlot i) (input (ofSlot i))

/-- Folding column `i` touches the slots of that column only, each by its own kind. -/
theorem getElem?_foldColumn (mode : AggregationMode) (i : Nat) (input : AggregationKind → Double)
    (vs : List Double) (j : Nat) :
    (foldColumn mode i input vs)[j]? =
      if mode.sourceColumn j = i then vs[j]?.map ((ofSlot j).fold · (input (ofSlot j)))
      else vs[j]? := by
  cases mode with
  | fromAggregated =>
    rw [foldColumn, getElem?_foldAt]
    by_cases h : i = j
    · subst h
      simp [AggregationMode.sourceColumn]
    · simp [AggregationMode.sourceColumn, h, Ne.symm h]
  | fromRaw =>
    simp only [foldColumn, slots, List.zipIdx_cons, List.zipIdx_nil, List.foldl_cons,
      List.foldl_nil, getElem?_foldAt, AggregationMode.sourceColumn, slotCount]
    by_cases h : j / 6 = i
    · -- slot `j` is the slot of kind `j % 6` of column `i`
      obtain ⟨o, ho, rfl⟩ : ∃ o < 6, j = i * 6 + o := ⟨j % 6, Nat.mod_lt _ (by decide), by omega⟩
      interval_cases o <;> simp [h, ofSlot, slots, slotCount]
    · have hne : ∀ o < 6, i * 6 + o ≠ j := fun o ho => by omega
      rw [if_neg (hne 5 (by decide)), if_neg (hne 4 (by decide)), if_neg (hne 3 (by decide)),
        if_neg (hne 2 (by decide)), if_neg (hne 1 (by decide)), if_neg (hne 0 (by decide))]
      simp [h]

/-! ## Widening -/

theorem ensureWidth_values (a : Aggregator) (w : Nat) :
    (a.ensureWidth w).values = a.values ++
      (List.range (a.mode.slotsFor w - a.values.length)).map
        fun j => (ofSlot (a.values.length + j)).initial := by
  rcases a with ⟨mode, values, any⟩
  cases mode <;> rfl

@[simp] theorem mode_ensureWidth (a : Aggregator) (w : Nat) : (a.ensureWidth w).mode = a.mode := rfl

@[simp] theorem any_ensureWidth (a : Aggregator) (w : Nat) : (a.ensureWidth w).any = a.any := rfl

theorem length_ensureWidth (a : Aggregator) (w : Nat) :
    (a.ensureWidth w).values.length = max a.values.length (a.mode.slotsFor w) := by
  rw [ensureWidth_values, List.length_append, List.length_map, List.length_range]
  omega

/-- An aggregate as wide as `w` inputs already is not widened. -/
theorem values_ensureWidth_of_le {a : Aggregator} {w : Nat}
    (h : a.mode.slotsFor w ≤ a.values.length) : (a.ensureWidth w).values = a.values := by
  rw [ensureWidth_values, Nat.sub_eq_zero_of_le h, List.range_zero, List.map_nil, List.append_nil]

/-! ## Folds that act slot by slot -/

/-- Two lists of which one is read off the other slot by slot have one length. -/
theorem length_eq_of_getElem?_eq_map {l₁ l₂ : List Double} {f : Nat → Double → Double}
    (h : ∀ j, l₁[j]? = l₂[j]?.map (f j)) : l₁.length = l₂.length := by
  have h₁ : l₁[l₂.length]? = none := by rw [h, List.getElem?_eq_none (Nat.le_refl _), Option.map_none]
  have h₂ : l₂[l₁.length]? = none := by
    have := h l₁.length
    rw [List.getElem?_eq_none (Nat.le_refl _)] at this
    exact Option.map_eq_none_iff.mp this.symm
  have := List.getElem?_eq_none_iff.mp h₁
  have := List.getElem?_eq_none_iff.mp h₂
  omega

/-- A fold over numbered inputs, each passed over or folded into the slots of its column, acts
on slot `j` through the one input of `j`'s column. -/
theorem getElem?_foldl_zipIdx {β : Type} (skip : β → Prop) [DecidablePred skip] (d : β)
    (hd : skip d) (fold : Nat → β → List Double → List Double) (c j : Nat)
    (g : β → Double → Double)
    (hfold : ∀ i b vs, (fold i b vs)[j]? = if c = i then vs[j]?.map (g b) else vs[j]?) :
    ∀ (l : List β) (n : Nat) (vs : List Double),
      ((l.zipIdx n).foldl (fun vs x => if skip x.1 then vs else fold x.2 x.1 vs) vs)[j]? =
        vs[j]?.map fun x => if n ≤ c ∧ ¬skip (l.getD (c - n) d) then g (l.getD (c - n) d) x else x
  | [], n, vs => by simp [hd]
  | b :: l, n, vs => by
    rw [List.zipIdx_cons, List.foldl_cons,
      getElem?_foldl_zipIdx skip d hd fold c j g hfold l (n + 1)]
    -- the head is the input of column `n`
    have hhead : (if skip b then vs else fold n b vs)[j]? =
        vs[j]?.map fun x => if c = n ∧ ¬skip b then g b x else x := by
      by_cases hb : skip b
      · simp [hb]
      · by_cases hc : c = n <;> simp [hb, hc, hfold]
    rw [hhead, Option.map_map]
    congr 1
    funext x
    rcases Nat.lt_trichotomy c n with hlt | rfl | hgt
    · simp [show ¬n ≤ c by omega, show ¬n + 1 ≤ c by omega, show c ≠ n by omega]
    · simp
    · have hsub : c - n = c - (n + 1) + 1 := by omega
      simp [show c ≠ n by omega, show n ≤ c by omega, show n + 1 ≤ c by omega, hsub]

/-! ## Stepping a sample -/

/-- The value a step folds into a slot of kind `k`: one for the count of a raw value, the value
itself otherwise. -/
def stepInput (mode : AggregationMode) (v : Double) (k : AggregationKind) : Double :=
  match mode with
  | .fromRaw => if k == .count then ⟨0x3ff0000000000000⟩ else v
  | .fromAggregated => v

/-- Fold one numbered value of a sample into the slots, a NaN passed over. -/
def addValue (mode : AggregationMode) (vs : List Double) (x : Double × Nat) : List Double :=
  if x.1.isNaN then vs else foldColumn mode x.2 (stepInput mode x.1) vs

theorem step_values (a : Aggregator) (values : List Double) :
    (a.step values).values = values.zipIdx.foldl (addValue a.mode) (a.ensureWidth values.length).values := by
  rcases a with ⟨mode, vs, any⟩
  cases mode <;> rfl

@[simp] theorem mode_step (a : Aggregator) (values : List Double) : (a.step values).mode = a.mode :=
  rfl

@[simp] theorem any_step (a : Aggregator) (values : List Double) : (a.step values).any = true := rfl

/-- What stepping a sample does to slot `j`: the value of `j`'s column, unless it is NaN or the
sample has none, is folded in by the slot's kind. -/
def stepSlot (mode : AggregationMode) (j : Nat) (values : List Double) (x : Double) : Double :=
  let v := values.getD (mode.sourceColumn j) Double.nan
  if v.isNaN then x else (ofSlot j).fold x (stepInput mode v (ofSlot j))

/-- Except on a count of raw values, which counts a one for each number, a step absorbs the
value of the slot's column by the slot's kind. -/
theorem stepSlot_eq_absorb {mode : AggregationMode} {j : Nat}
    (hj : ofSlot j ≠ .count ∨ mode = .fromAggregated) (values : List Double) (x : Double) :
    stepSlot mode j values x =
      (ofSlot j).absorb x (values.getD (mode.sourceColumn j) Double.nan) := by
  have hin : ∀ v, stepInput mode v (ofSlot j) = v := by
    intro v
    rcases hj with hj | rfl
    · cases mode
      · simp [stepInput, hj]
      · rfl
    · rfl
  simp only [stepSlot, absorb, hin]

theorem getElem?_step_values (a : Aggregator) (values : List Double) (j : Nat) :
    (a.step values).values[j]? =
      (a.ensureWidth values.length).values[j]?.map (stepSlot a.mode j values) := by
  rw [step_values]
  have h := getElem?_foldl_zipIdx (fun v : Double => v.isNaN = true) Double.nan (by decide)
    (fun i v vs => foldColumn a.mode i (stepInput a.mode v) vs) (a.mode.sourceColumn j) j
    (fun v x => (ofSlot j).fold x (stepInput a.mode v (ofSlot j)))
    (fun i v vs => getElem?_foldColumn a.mode i _ vs j) values 0
  simp only [Nat.zero_le, true_and, Nat.sub_zero] at h
  rw [show addValue a.mode = fun vs x => if x.1.isNaN = true then vs
      else foldColumn a.mode x.2 (stepInput a.mode x.1) vs from rfl, h]
  congr 1
  funext x
  unfold stepSlot
  generalize values.getD (a.mode.sourceColumn j) Double.nan = v
  cases hv : v.isNaN <;> simp [hv]

theorem length_step (a : Aggregator) (values : List Double) :
    (a.step values).values.length = (a.ensureWidth values.length).values.length :=
  length_eq_of_getElem?_eq_map (getElem?_step_values a values)

/-- Step every sample in turn: the per-sample path of aggregation. -/
def stepAll (a : Aggregator) (samples : List (List Double)) : Aggregator := samples.foldl step a

@[simp] theorem mode_stepAll (a : Aggregator) (samples : List (List Double)) :
    (a.stepAll samples).mode = a.mode := by
  induction samples generalizing a with
  | nil => rfl
  | cons vs samples ih => exact (ih (a.step vs)).trans (mode_step a vs)

theorem any_stepAll (a : Aggregator) (samples : List (List Double)) :
    (a.stepAll samples).any = (a.any || !samples.isEmpty) := by
  induction samples generalizing a with
  | nil => simp [stepAll]
  | cons vs samples ih =>
    rw [stepAll, List.foldl_cons, ← stepAll, ih]
    simp

/-- On an aggregate as wide as its samples, stepping them all acts on slot `j` by stepping the
slot through each sample in turn. -/
theorem getElem?_stepAll_of_wide {w : Nat} {samples : List (List Double)}
    (hw : ∀ vs ∈ samples, vs.length = w) :
    ∀ {a : Aggregator}, a.mode.slotsFor w ≤ a.values.length → ∀ j,
      (a.stepAll samples).values[j]? =
        a.values[j]?.map fun x => samples.foldl (fun x vs => stepSlot a.mode j vs x) x := by
  induction samples with
  | nil => intro a _ j; simp [stepAll]
  | cons vs samples ih =>
    intro a ha j
    have hvs : vs.length = w := hw vs List.mem_cons_self
    have hwide : (a.ensureWidth vs.length).values = a.values := by
      rw [hvs]
      exact values_ensureWidth_of_le ha
    -- one step keeps the aggregate as wide, so the rest steps the slot on
    have ha' : (a.step vs).mode.slotsFor w ≤ (a.step vs).values.length := by
      rw [mode_step, length_step, hwide]
      exact ha
    rw [stepAll, List.foldl_cons, ← stepAll,
      ih (fun x hx => hw x (List.mem_cons_of_mem _ hx)) ha' j, getElem?_step_values, hwide,
      Option.map_map, mode_step]
    rfl

/-- Stepping samples of one width acts on slot `j` of the aggregate widened to them by stepping
the slot through each sample in turn. -/
theorem getElem?_stepAll {w : Nat} {samples : List (List Double)} (hne : samples ≠ [])
    (hw : ∀ vs ∈ samples, vs.length = w) (a : Aggregator) (j : Nat) :
    (a.stepAll samples).values[j]? =
      (a.ensureWidth w).values[j]?.map fun x => samples.foldl (fun x vs => stepSlot a.mode j vs x) x := by
  obtain ⟨vs, rest, rfl⟩ := List.exists_cons_of_ne_nil hne
  have hvs : vs.length = w := hw vs List.mem_cons_self
  have ha' : (a.step vs).mode.slotsFor w ≤ (a.step vs).values.length := by
    rw [mode_step, length_step, hvs, length_ensureWidth]
    exact Nat.le_max_right _ _
  rw [stepAll, List.foldl_cons, ← stepAll,
    getElem?_stepAll_of_wide (fun x hx => hw x (List.mem_cons_of_mem _ hx)) ha' j,
    getElem?_step_values, hvs, Option.map_map, mode_step]
  rfl

theorem length_stepAll {w : Nat} {samples : List (List Double)} (hne : samples ≠ [])
    (hw : ∀ vs ∈ samples, vs.length = w) (a : Aggregator) :
    (a.stepAll samples).values.length = (a.ensureWidth w).values.length :=
  length_eq_of_getElem?_eq_map (getElem?_stepAll hne hw a)

/-! ## Folding a segment's summaries -/

/-- Fold one numbered column summary into an aggregate; a column that counts no number is
passed over. -/
def addSummary (a : Aggregator) (x : ColumnSummary × Nat) : Aggregator :=
  if x.1.count = 0 then a
  else { a with any := true, values := foldColumn a.mode x.2 (fun k => summaryInput a.mode k x.1) a.values }

theorem segment_eq_foldl (a : Aggregator) (columns : List ColumnSummary) :
    a.segment columns = columns.zipIdx.foldl addSummary (a.ensureWidth columns.length) := by
  simp only [segment]
  congr 1
  funext b x
  rcases b with ⟨mode, vs, any⟩
  cases mode <;> rfl

@[simp] theorem mode_addSummary (a : Aggregator) (x : ColumnSummary × Nat) :
    (addSummary a x).mode = a.mode := by
  unfold addSummary
  split <;> rfl

theorem mode_foldl_addSummary (l : List (ColumnSummary × Nat)) (a : Aggregator) :
    (l.foldl addSummary a).mode = a.mode := by
  induction l generalizing a with
  | nil => rfl
  | cons x l ih => exact (ih (addSummary a x)).trans (mode_addSummary a x)

theorem any_foldl_addSummary (l : List (ColumnSummary × Nat)) (a : Aggregator) :
    (l.foldl addSummary a).any = (a.any || l.any fun x => x.1.count != 0) := by
  induction l generalizing a with
  | nil => simp
  | cons x l ih =>
    rw [List.foldl_cons, ih, List.any_cons]
    unfold addSummary
    split <;> simp_all

theorem values_foldl_addSummary (l : List (ColumnSummary × Nat)) (a : Aggregator) :
    (l.foldl addSummary a).values = l.foldl (fun vs x => if x.1.count = 0 then vs
      else foldColumn a.mode x.2 (fun k => summaryInput a.mode k x.1) vs) a.values := by
  induction l generalizing a with
  | nil => rfl
  | cons x l ih =>
    rw [List.foldl_cons, ih, mode_addSummary, List.foldl_cons]
    unfold addSummary
    split <;> rfl

@[simp] theorem mode_segment (a : Aggregator) (columns : List ColumnSummary) :
    (a.segment columns).mode = a.mode := by
  rw [segment_eq_foldl, mode_foldl_addSummary, mode_ensureWidth]

/-- Folding summaries sets the any-flag exactly when some column counts a number. -/
theorem any_segment (a : Aggregator) (columns : List ColumnSummary) :
    (a.segment columns).any = (a.any || columns.any fun c => c.count != 0) := by
  rw [segment_eq_foldl, any_foldl_addSummary, any_ensureWidth, ← List.zipIdx_map_fst 0 columns,
    List.any_map, List.zipIdx_map_fst]
  rfl

/-- What folding a segment's summaries does to slot `j`: the summary of `j`'s column, unless it
counts no number, is folded in by the slot's kind. -/
def summarySlot (mode : AggregationMode) (j : Nat) (columns : List ColumnSummary) (x : Double) :
    Double :=
  let c := columns.getD (mode.sourceColumn j) {}
  if c.count = 0 then x else (ofSlot j).fold x (summaryInput mode (ofSlot j) c)

theorem getElem?_segment_values (a : Aggregator) (columns : List ColumnSummary) (j : Nat) :
    (a.segment columns).values[j]? =
      (a.ensureWidth columns.length).values[j]?.map (summarySlot a.mode j columns) := by
  rw [segment_eq_foldl, values_foldl_addSummary, mode_ensureWidth]
  have h := getElem?_foldl_zipIdx (fun c : ColumnSummary => c.count = 0) {} rfl
    (fun i c vs => foldColumn a.mode i (fun k => summaryInput a.mode k c) vs)
    (a.mode.sourceColumn j) j (fun c x => (ofSlot j).fold x (summaryInput a.mode (ofSlot j) c))
    (fun i c vs => getElem?_foldColumn a.mode i _ vs j) columns 0
  simp only [Nat.zero_le, true_and, Nat.sub_zero] at h
  rw [h]
  congr 1
  funext x
  unfold summarySlot
  generalize columns.getD (a.mode.sourceColumn j) {} = c
  by_cases hc : c.count = 0 <;> simp [hc]

theorem length_segment (a : Aggregator) (columns : List ColumnSummary) :
    (a.segment columns).values.length = (a.ensureWidth columns.length).values.length :=
  length_eq_of_getElem?_eq_map (getElem?_segment_values a columns)

/-! ## First and last numbers -/

/-- Folding a column's values into a first slot keeps a number the slot has, else takes the
first number. -/
theorem foldl_fold_first (x : Double) (vs : List Double) :
    vs.foldl (fun x v => if v.isNaN then x else AggregationKind.first.fold x v) x =
      if x.isNaN then (vs.filter fun v => !v.isNaN).head?.getD x else x := by
  induction vs generalizing x with
  | nil => simp
  | cons v vs ih =>
    rw [List.foldl_cons, ih]
    cases hv : v.isNaN
    · cases hx : x.isNaN <;> simp [hv, hx, AggregationKind.fold]
    · simp [hv]

/-- Folding a column's values into a last slot takes the last number, if there is one. -/
theorem foldl_fold_last (x : Double) (vs : List Double) :
    vs.foldl (fun x v => if v.isNaN then x else AggregationKind.last.fold x v) x =
      (vs.filter fun v => !v.isNaN).getLast?.getD x := by
  induction vs generalizing x with
  | nil => simp
  | cons v vs ih =>
    rw [List.foldl_cons, ih]
    cases hv : v.isNaN <;> simp [hv, AggregationKind.fold, List.getLast?_cons]

/-! ## The two paths -/

/-- Stepping the live samples of a segment through slot `j` steps it through the live values
of `j`'s column. -/
theorem foldl_stepSlot (es : List Entry) (mode : AggregationMode) (j : Nat) (x : Double) :
    ((es.filter Entry.isLive).map Entry.values).foldl (fun x vs => stepSlot mode j vs x) x =
      (Segment.liveColumn es (mode.sourceColumn j)).foldl
        (fun x v => if v.isNaN then x else (ofSlot j).fold x (stepInput mode v (ofSlot j))) x := by
  rw [Segment.liveColumn, List.foldl_map, List.foldl_map]
  rfl

/-- On a first or a last slot, a segment's summary of the slot's column does what stepping
its live samples does. -/
theorem summarySlot_eq_foldl_stepSlot {s : Segment} {es : List Entry} (h : s.Sound es)
    (mode : AggregationMode) {j : Nat} (hk : ofSlot j = .first ∨ ofSlot j = .last) (x : Double) :
    summarySlot mode j s.columns x =
      ((es.filter Entry.isLive).map Entry.values).foldl (fun x vs => stepSlot mode j vs x) x := by
  rw [foldl_stepSlot]
  unfold summarySlot
  dsimp only
  rw [h.getD_columns, Segment.columnOf_eq_foldl]
  generalize Segment.liveColumn es (mode.sourceColumn j) = xs
  have hcount := ColumnSummary.count_foldl_observe xs {}
  have hfirst := ColumnSummary.first_foldl_observe xs {}
  have hlast := ColumnSummary.last_foldl_observe xs {}
  rcases hk with hk | hk
  · -- a first slot keeps a number it has, else takes the column's first number
    have hin : ∀ v, stepInput mode v .first = v := by cases mode <;> intro v <;> rfl
    have hsum : ∀ c, summaryInput mode .first c = c.first := by cases mode <;> intro c <;> rfl
    simp only [hk, hin, hsum, foldl_fold_first, hcount, hfirst]
    generalize xs.filter (fun v => !v.isNaN) = nums
    cases nums <;> simp [AggregationKind.fold]
  · -- a last slot takes the column's last number
    have hin : ∀ v, stepInput mode v .last = v := by cases mode <;> intro v <;> rfl
    have hsum : ∀ c, summaryInput mode .last c = c.last := by cases mode <;> intro c <;> rfl
    simp only [hk, hin, hsum, foldl_fold_last, hcount, hlast]
    generalize xs.filter (fun v => !v.isNaN) = nums
    cases nums <;> simp [AggregationKind.fold, List.getLast?_cons]

/-- Folding a whole segment from its column summaries agrees with stepping each live sample of
it: the slots widen alike, and each first and each last slot ends the same. The any-flag of the
bucket agrees exactly when the bucket had it already or some live sample holds a number: a
segment whose live samples are all NaN leaves the flag down, where stepping raises it. -/
theorem segment_agrees_with_stepAll {s : Segment} {es : List Entry} (h : s.Sound es)
    (hlive : 0 < s.live) (a : Aggregator) :
    (a.segment s.columns).values.length =
        (a.stepAll ((es.filter Entry.isLive).map Entry.values)).values.length ∧
      ((a.segment s.columns).any = (a.stepAll ((es.filter Entry.isLive).map Entry.values)).any ↔
        a.any = true ∨ ∃ e ∈ es, e.isLive = true ∧ ∃ v ∈ e.values, v.isNaN = false) ∧
      ∀ j, ofSlot j = .first ∨ ofSlot j = .last →
        (a.segment s.columns).values[j]? =
          (a.stepAll ((es.filter Entry.isLive).map Entry.values)).values[j]? := by
  have hne : (es.filter Entry.isLive).map Entry.values ≠ [] := by
    rw [h.live_eq] at hlive
    simpa [← List.length_pos_iff] using hlive
  have hw : ∀ vs ∈ (es.filter Entry.isLive).map Entry.values, vs.length = s.width := by
    intro vs hvs
    obtain ⟨e, he, rfl⟩ := List.mem_map.mp hvs
    exact h.values_eq e (List.mem_of_mem_filter he)
  have hcols : s.columns.length = s.width := by
    rw [h.columns_eq, List.length_map, List.length_range]
  refine ⟨?_, ?_, fun j hk => ?_⟩
  · rw [length_segment, length_stepAll hne hw, hcols]
  · -- stepping raises the flag, folding summaries only where a column counts a number
    have hsteps : ((es.filter Entry.isLive).map Entry.values).isEmpty = false :=
      List.isEmpty_eq_false_iff.mpr hne
    rw [any_segment, any_stepAll, hsteps, Bool.not_false, Bool.or_true, ← h.any_count_columns,
      Bool.or_eq_true]
  · rw [getElem?_segment_values, getElem?_stepAll hne hw, hcols]
    congr 1
    funext x
    exact summarySlot_eq_foldl_stepSlot h a.mode hk x

end Aggregator

namespace Bucketing

/-- Fold the live samples of a whole segment one by one. -/
def addSamplesOf (b : Bucketing) (s : StoredSegment) : Outcome Bucketing := do
  let samples ← s.samples
  (samples.filter fun x => x.2.isLive).foldlM (fun b x => b.addSample x.1 x.2.values) b

/-- Fold one item of a window sample by sample, never from column summaries. -/
def addItemBySamples (b : Bucketing) : SegmentOrValues → Outcome Bucketing
  | .whole s => if s.segment.live = 0 then .ok b else do (← b.moveTo s.startMs).addSamplesOf s
  | .values samples => samples.foldlM (fun b x => b.addSample x.time.millis x.values) b

theorem addSample_of_lt {b : Bucketing} {ms : Int} (h : ms < b.nextMs) (values : List Double) :
    b.addSample ms values = .ok { b with current := b.current.step values } := by
  simp only [addSample, moveTo, if_pos h]
  rfl

/-- Samples that fall before the end of the current bucket are stepped into it. -/
theorem foldlM_addSample_of_lt {β : Type} (ms : β → Int) (values : β → List Double)
    {b : Bucketing} {l : List β} (hl : ∀ x ∈ l, ms x < b.nextMs) :
    l.foldlM (fun b x => b.addSample (ms x) (values x)) b =
      .ok { b with current := b.current.stepAll (l.map values) } := by
  induction l generalizing b with
  | nil => rfl
  | cons x l ih =>
    rw [List.foldlM_cons, addSample_of_lt (hl x List.mem_cons_self)]
    exact ih fun y hy => hl y (List.mem_cons_of_mem _ hy)

/-- A sound segment that ends inside the current bucket is folded sample by sample into that
bucket: its live samples are stepped in order. -/
theorem addSamplesOf_of_sound {b : Bucketing} {s : StoredSegment} {es : List Entry}
    (h : s.segment.Sound es) (hin : s.endMs < b.nextMs) :
    b.addSamplesOf s =
      .ok { b with current := b.current.stepAll ((es.filter Entry.isLive).map Entry.values) } := by
  have hsamples : s.samples = .ok (es.map fun e => (s.baseline + e.offset, e)) := by
    simp only [StoredSegment.samples, h.samples]
    rfl
  -- every sample lies at or before the segment's last one, so inside the bucket
  have hbefore : ∀ x ∈ (es.map fun e => (s.baseline + e.offset, e)).filter (fun x => x.2.isLive),
      x.1 < b.nextMs := by
    intro x hx
    obtain ⟨e, he, rfl⟩ := List.mem_map.mp (List.mem_of_mem_filter hx)
    have := h.offset_le_last e he
    simp only [StoredSegment.endMs, Segment.lastTimestamp] at hin
    dsimp only
    omega
  rw [addSamplesOf, hsamples]
  have hfold := foldlM_addSample_of_lt Prod.fst (fun x : Int × Entry => x.2.values) hbefore
  refine hfold.trans ?_
  rw [List.filter_map, List.map_map]
  rfl

theorem addItem_whole_of_moveTo {b b₁ : Bucketing} {s : StoredSegment}
    (hlive : s.segment.live ≠ 0) (hmove : b.moveTo s.startMs = .ok b₁) (hin : s.endMs < b₁.nextMs) :
    b.addItem (.whole s) = .ok { b₁ with current := b₁.current.segment s.segment.columns } := by
  simp only [addItem, if_neg hlive, hmove]
  exact if_pos hin

/-- Within the bucket that a whole segment ends in, folding the segment from its column
summaries, as `addItem` does, and stepping each of its live samples leave the same bucket
bounds and closed buckets, slots as wide and the same first and last slots. The current
bucket's any-flag agrees exactly when the bucket had it already or a live sample holds a
number: a segment whose live samples are all NaN leaves the flag down, so the next flush drops
a bucket that stepping would report. -/
theorem wholeSegment_summary_agrees {b b₁ : Bucketing} {s : StoredSegment} {es : List Entry}
    (h : s.segment.Sound es) (hlive : 0 < s.segment.live)
    (hmove : b.moveTo s.startMs = .ok b₁) (hin : s.endMs < b₁.nextMs) :
    b.addItem (.whole s) = .ok { b₁ with current := b₁.current.segment s.segment.columns } ∧
      b.addItemBySamples (.whole s) =
        .ok { b₁ with current := b₁.current.stepAll ((es.filter Entry.isLive).map Entry.values) } ∧
      (b₁.current.segment s.segment.columns).values.length =
        (b₁.current.stepAll ((es.filter Entry.isLive).map Entry.values)).values.length ∧
      ((b₁.current.segment s.segment.columns).any =
          (b₁.current.stepAll ((es.filter Entry.isLive).map Entry.values)).any ↔
        b₁.current.any = true ∨ ∃ e ∈ es, e.isLive = true ∧ ∃ v ∈ e.values, v.isNaN = false) ∧
      ∀ j, ofSlot j = .first ∨ ofSlot j = .last →
        (b₁.current.segment s.segment.columns).values[j]? =
          (b₁.current.stepAll ((es.filter Entry.isLive).map Entry.values)).values[j]? := by
  have hsamples : b.addItemBySamples (.whole s) = b₁.addSamplesOf s := by
    simp only [addItemBySamples, if_neg (Nat.pos_iff_ne_zero.mp hlive), hmove]
    rfl
  refine ⟨addItem_whole_of_moveTo (Nat.pos_iff_ne_zero.mp hlive) hmove hin, ?_,
    Aggregator.segment_agrees_with_stepAll h hlive b₁.current⟩
  rw [hsamples, addSamplesOf_of_sound h hin]

end Bucketing

end SeriesStore
