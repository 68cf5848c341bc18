import SeriesStore.Proofs.SummaryFold

/-!
# Rolling up a rollup

A rollup aggregates a time-ordered list of samples into the buckets of a grid, one sample per
bucket stamped a millisecond before the next bucket starts (`aggregate`). Chaining rollups, raw
samples to one grid and that rollup to a coarser grid, is meant to give what rolling the raw
samples up to the coarser grid gives.

It does, on every slot but the sums, when every bucket of the fine grid lies inside a bucket
of the coarse one around each sample (`BucketGrid.Nested`): the two lists have one sample per
bucket of the coarse grid that holds a sample, with equal stamps, equal widths, and equal first,
last, least, greatest and count slots (`rollup_of_rollup`). The proof follows the buckets: a
time-ordered list falls into runs of samples of one bucket (`Runs`), the fold closes one bucket
per run (`aggregate_eq_of_runs`), and the runs of the coarse grid are unions of runs of the fine
one, whose stamps lie inside them. Within a coarse bucket the slots agree because a slot that
selects one of its numbers folds associatively (`AggregationKind.foldl_absorb`), and counts of
raw samples add exactly while there are at most `2 ^ 53` of them (`stepAll_rollup`).

The condition is needed: where a bucket's end is clamped to the end of time, a sample at the
last millisecond falls past its own bucket's end and opens the same bucket again. Sums are
rounded once per addition, so summing a bucket's sums regroups the additions; nothing is stated
of them here.
-/

namespace SeriesStore

open AggregationKind

namespace Instant

/-- A stamp at or after an instant of the range reads back at or after it, and never after the
stamp asked for. -/
theorem millis_ofMillis_mem {t m : Int} (hlo : minMillis ≤ t) (hhi : t ≤ maxMillis)
    (h : t ≤ m) : t ≤ (ofMillis m).millis ∧ (ofMillis m).millis ≤ m := by
  unfold ofMillis millis
  split_ifs with h₁ h₂
  · omega
  · simp only [max, maxMillis, nanosPerMilli] at hhi h₂ ⊢
    omega
  · simp only [nanosPerMilli]
    omega

end Instant

namespace BucketGrid

/-- The bucket of `g` that starts at `s` holds `t`, and `s` is the start `g` gives every instant
of that bucket. -/
def Cell (g : BucketGrid) (s t : Int) : Prop :=
  s ≤ t ∧ t < g.nextStart s ∧ ∀ u, s ≤ u → u < g.nextStart s → g.start u = .ok s

/-- Around `t`, the bucket of `p` lies inside the bucket of `q`. -/
def Nested (p q : BucketGrid) (t : Int) : Prop :=
  ∃ sp sq, p.Cell sp t ∧ q.Cell sq t ∧ sq ≤ sp ∧ p.nextStart sp ≤ q.nextStart sq

variable {g p q : BucketGrid} {s s' t u : Int}

theorem Cell.start_eq (h : g.Cell s t) : g.start t = .ok s := h.2.2 t h.1 h.2.1

/-- An instant has one bucket. -/
theorem Cell.unique (h : g.Cell s t) (h' : g.Cell s' t) : s = s' := by
  have := h.start_eq.symm.trans h'.start_eq
  injection this

/-- Every instant of a bucket has that bucket. -/
theorem Cell.of_mem (h : g.Cell s t) (hu₁ : s ≤ u) (hu₂ : u < g.nextStart s) : g.Cell s u :=
  ⟨hu₁, hu₂, h.2.2⟩

/-- An instant after `t` outside `t`'s bucket is past its end. -/
theorem Cell.nextStart_le (h : g.Cell s t) (htu : t ≤ u) (hu : ¬g.Cell s u) :
    g.nextStart s ≤ u := by
  by_contra hlt
  exact hu (h.of_mem (by have := h.1; omega) (by omega))

/-- Where the buckets nest, the whole bucket of `p` lies in one bucket of `q`. -/
theorem Nested.cover (hn : p.Nested q t) (hp : p.Cell s t) :
    ∃ sq, ∀ u, s ≤ u → u < p.nextStart s → q.Cell sq u := by
  obtain ⟨sp, sq, hsp, hsq, hle, hnext⟩ := hn
  obtain rfl := hp.unique hsp
  exact ⟨sq, fun u hu₁ hu₂ => hsq.of_mem (by omega) (by omega)⟩

/-! ### Grids of milliseconds -/

/-- On a grid of milliseconds, the bucket after the one at `s` starts a step later while that
stays in the 64-bit range. -/
theorem nextStart_of_millis (hu : g.step.unit = .millis) (hlo : I64.min ≤ s + g.step.value)
    (hhi : s + g.step.value ≤ I64.max) : g.nextStart s = s + g.step.value := by
  simp only [nextStart, hu, I64.addSat, I64.clamp]
  rw [if_neg (by omega), if_neg (by omega)]

/-- A grid of milliseconds cuts the time line at the multiples of its step: where the bucket
stays in the 64-bit range, the bucket of `t` starts at the multiple at or below `t`. -/
theorem cell_of_millis (hu : g.step.unit = .millis) (hk : 0 < g.step.value)
    (hlo : I64.min ≤ t / g.step.value * g.step.value)
    (hhi : t / g.step.value * g.step.value + g.step.value ≤ I64.max) :
    g.Cell (t / g.step.value * g.step.value) t := by
  have hnext := nextStart_of_millis hu (by omega) hhi
  have hlt : t < t / g.step.value * g.step.value + g.step.value := by
    have := Int.lt_ediv_add_one_mul_self t hk
    rwa [Int.add_mul, Int.one_mul] at this
  refine ⟨Int.ediv_mul_le t hk.ne', hnext ▸ hlt, fun u hu₁ hu₂ => ?_⟩
  rw [hnext] at hu₂
  -- every instant of the bucket has the quotient of `t`
  have hq : u / g.step.value = t / g.step.value := by
    have h₁ := Int.le_ediv_of_mul_le hk hu₁
    have h₂ := Int.ediv_lt_of_lt_mul hk
      (show u < (t / g.step.value + 1) * g.step.value by rwa [Int.add_mul, Int.one_mul])
    omega
  simp only [start, hu, I64.mul, I64.check, I64.fits, hq]
  rw [if_pos (by simp only [Bool.and_eq_true, decide_eq_true_eq]; omega)]

/-- Grids of milliseconds whose steps divide one another nest wherever the coarse bucket stays
in the 64-bit range, as a rollup of seconds into two-second buckets does. -/
theorem nested_of_millis (hpu : p.step.unit = .millis) (hqu : q.step.unit = .millis)
    (hp : 0 < p.step.value) (hq : 0 < q.step.value) (hdvd : p.step.value ∣ q.step.value)
    (hlo : I64.min ≤ t / q.step.value * q.step.value)
    (hhi : t / q.step.value * q.step.value + q.step.value ≤ I64.max) : p.Nested q t := by
  obtain ⟨m, hm⟩ := hdvd
  -- the coarse start is a multiple of the fine step at or below `t`, so at or below the fine start
  have hstart : t / q.step.value * q.step.value ≤ t / p.step.value * p.step.value := by
    have h₁ : t / q.step.value * m * p.step.value ≤ t := by
      rw [show t / q.step.value * m * p.step.value = t / q.step.value * q.step.value by
        rw [hm]; ring]
      exact Int.ediv_mul_le t hq.ne'
    calc t / q.step.value * q.step.value = t / q.step.value * m * p.step.value := by rw [hm]; ring
      _ ≤ t / p.step.value * p.step.value :=
        Int.mul_le_mul_of_nonneg_right (Int.le_ediv_of_mul_le hp h₁) hp.le
  -- the coarse end is a multiple of the fine step above `t`, so at or above the fine end
  have hend : t / p.step.value * p.step.value + p.step.value ≤
      t / q.step.value * q.step.value + q.step.value := by
    have hlt : t / p.step.value * p.step.value < (t / q.step.value * m + m) * p.step.value := by
      have := Int.lt_ediv_add_one_mul_self t hq
      calc t / p.step.value * p.step.value ≤ t := Int.ediv_mul_le t hp.ne'
        _ < (t / q.step.value + 1) * q.step.value := this
        _ = (t / q.step.value * m + m) * p.step.value := by rw [hm]; ring
    have hquot := Int.lt_of_mul_lt_mul_right hlt hp.le
    calc t / p.step.value * p.step.value + p.step.value
          = (t / p.step.value + 1) * p.step.value := by ring
      _ ≤ (t / q.step.value * m + m) * p.step.value :=
        Int.mul_le_mul_of_nonneg_right (by omega) hp.le
      _ = t / q.step.value * q.step.value + q.step.value := by rw [hm]; ring
  refine ⟨_, _, cell_of_millis hpu hp (by omega) (by omega), cell_of_millis hqu hq hlo hhi,
    hstart, ?_⟩
  rw [nextStart_of_millis hpu (by omega) (by omega), nextStart_of_millis hqu (by omega) hhi]
  exact hend

end BucketGrid

/-! ## Runs -/

/-- A list cut into runs, each a nonempty block of elements that `R` files under one key, the
element after a run not filed under its key. -/
inductive Runs {α : Type} (R : Int → α → Prop) : List α → List (Int × List α) → Prop
  | nil : Runs R [] []
  | cons {k : Int} {grp l : List α} {gs : List (Int × List α)} :
      grp ≠ [] → (∀ a ∈ grp, R k a) → (∀ a ∈ l.head?, ¬R k a) → Runs R l gs →
      Runs R (grp ++ l) ((k, grp) :: gs)

namespace Runs

variable {α β : Type} {R : Int → α → Prop} {l : List α} {gs : List (Int × List α)}

/-- The runs, put back together, are the list. -/
theorem flatMap_eq (h : Runs R l gs) : gs.flatMap Prod.snd = l := by
  induction h with
  | nil => rfl
  | cons _ _ _ _ ih => rw [List.flatMap_cons, ih]

/-- An element of the list is an element of one of its runs. -/
theorem mem_iff (h : Runs R l gs) {a : α} : a ∈ l ↔ ∃ r ∈ gs, a ∈ r.2 := by
  rw [← h.flatMap_eq, List.mem_flatMap]

/-- Each run is a nonempty block filed under its key. -/
theorem mem (h : Runs R l gs) {r : Int × List α} (hr : r ∈ gs) :
    r.2 ≠ [] ∧ ∀ a ∈ r.2, R r.1 a := by
  induction h with
  | nil => exact absurd hr List.not_mem_nil
  | cons hne hall _ _ ih =>
    rcases List.mem_cons.mp hr with rfl | hr
    · exact ⟨hne, hall⟩
    · exact ih hr

/-- A run is no longer than the list. -/
theorem length_le (h : Runs R l gs) {r : Int × List α} (hr : r ∈ gs) : r.2.length ≤ l.length := by
  induction h with
  | nil => exact absurd hr List.not_mem_nil
  | cons _ _ _ _ ih =>
    rw [List.length_append]
    rcases List.mem_cons.mp hr with rfl | hr
    · exact Nat.le_add_right _ _
    · have := ih hr
      omega

/-- A list whose elements each have exactly one key is cut into runs. -/
theorem exists_of_unique (hkey : ∀ a ∈ l, ∃ k, R k a)
    (huniq : ∀ a ∈ l, ∀ k k', R k a → R k' a → k = k') : ∃ gs, Runs R l gs := by
  induction l with
  | nil => exact ⟨[], .nil⟩
  | cons a l ih =>
    obtain ⟨gs, hgs⟩ := ih (fun b hb => hkey b (List.mem_cons_of_mem a hb))
      (fun b hb => huniq b (List.mem_cons_of_mem a hb))
    obtain ⟨k, hk⟩ := hkey a List.mem_cons_self
    cases hgs with
    | nil =>
      exact ⟨[(k, [a])], .cons (List.cons_ne_nil a []) (by simpa using hk) (by simp) .nil⟩
    | @cons k' grp l' gs' hne hall hhead hrest =>
      by_cases hak : R k' a
      · -- `a` joins the first run
        refine ⟨(k', a :: grp) :: gs', ?_⟩
        rw [← List.cons_append]
        exact .cons (List.cons_ne_nil a grp)
          (fun b hb => (List.mem_cons.mp hb).elim (fun h => h ▸ hak) (hall b)) hhead hrest
      · -- `a` starts a run of its own: the first run's head has a key other than `k`
        refine ⟨(k, [a]) :: (k', grp) :: gs',
          .cons (List.cons_ne_nil a []) (by simpa using hk) ?_ (.cons hne hall hhead hrest)⟩
        intro b hb hkb
        obtain ⟨c, grp', rfl⟩ := List.exists_cons_of_ne_nil hne
        have hcb : c = b := by simpa using hb
        subst hcb
        have hb : c ∈ a :: (c :: grp' ++ l') := by simp
        exact hak (huniq c hb k k' hkb (hall c List.mem_cons_self) ▸ hk)

/-- Runs of runs: sending each element to a nonempty block of elements of another list, with
the keys of an element and of its block's members agreeing, sends runs to runs. -/
theorem flatMap {R' : Int → β → Prop} {F : α → List β} (h : Runs R l gs)
    (hne : ∀ a ∈ l, F a ≠ []) (hall : ∀ a ∈ l, ∀ k, R k a → ∀ b ∈ F a, R' k b)
    (hhead : ∀ a ∈ l, ∀ k, ∀ b ∈ (F a).head?, R' k b → R k a) :
    Runs R' (l.flatMap F) (gs.map fun r => (r.1, r.2.flatMap F)) := by
  induction h with
  | nil => exact .nil
  | @cons k grp l gs hgrp hk hl _ ih =>
    have hmem : ∀ a, a ∈ grp ∨ a ∈ l → a ∈ grp ++ l := fun a ha => List.mem_append.mpr ha
    rw [List.flatMap_append]
    refine .cons ?_ ?_ ?_ (ih (fun a ha => hne a (hmem a (.inr ha)))
      (fun a ha => hall a (hmem a (.inr ha))) (fun a ha => hhead a (hmem a (.inr ha))))
    · obtain ⟨a, ha⟩ := List.exists_mem_of_ne_nil grp hgrp
      exact fun h => hne a (hmem a (.inl ha)) (List.flatMap_eq_nil_iff.mp h a ha)
    · intro b hb
      obtain ⟨a, ha, hb⟩ := List.mem_flatMap.mp hb
      exact hall a (hmem a (.inl ha)) k (hk a ha) b hb
    · -- the block after the run starts with the block of the element after it
      intro b hb hkb
      obtain ⟨a, l', rfl⟩ := List.exists_cons_of_ne_nil (l := l) (by rintro rfl; simp at hb)
      have hfa := hne a (hmem a (.inr List.mem_cons_self))
      obtain ⟨c, cs, hc⟩ := List.exists_cons_of_ne_nil hfa
      rw [List.flatMap_cons, hc] at hb
      have hcb : c = b := by simpa using hb
      subst hcb
      exact hl a rfl (hhead a (hmem a (.inr List.mem_cons_self)) k c (by simp [hc]) hkb)

end Runs

/-! ## Slots of a rollup of a rollup -/

namespace Aggregator

/-- Widening adds slots at their initial values: slot `j`, read with its initial value as
default, is unchanged. -/
theorem getD_ensureWidth (a : Aggregator) (w j : Nat) :
    (a.ensureWidth w).values.getD j (ofSlot j).initial = a.values.getD j (ofSlot j).initial := by
  rw [ensureWidth_values]
  by_cases hj : j < a.values.length
  · exact List.getD_append _ _ _ _ hj
  · rw [List.getD_append_right _ _ _ _ (by omega), List.getD_eq_default a.values _ (by omega),
      List.getD_eq_getElem?_getD, List.getElem?_map]
    by_cases hlt : j - a.values.length < a.mode.slotsFor w - a.values.length
    · rw [List.getElem?_range hlt]
      simp [show a.values.length + (j - a.values.length) = j by omega]
    · rw [List.getElem?_eq_none (by simpa using hlt)]
      rfl

/-- A sample too narrow to reach slot `j` leaves it alone. -/
theorem stepSlot_of_le {mode : AggregationMode} {j : Nat} {values : List Double}
    (h : mode.slotsFor values.length ≤ j) (x : Double) : stepSlot mode j values x = x := by
  have hcol : values.length ≤ mode.sourceColumn j := by
    cases mode with
    | fromRaw =>
      simp only [AggregationMode.slotsFor, AggregationMode.sourceColumn, slotCount] at h ⊢
      omega
    | fromAggregated => exact h
  simp only [stepSlot, List.getD_eq_default _ _ hcol]
  exact if_pos (by decide)

/-- Stepping a sample acts on slot `j`, read with its initial value as default, through
`stepSlot`, whether or not the sample reaches it. -/
theorem getD_step_values (a : Aggregator) (values : List Double) (j : Nat) :
    (a.step values).values.getD j (ofSlot j).initial =
      stepSlot a.mode j values (a.values.getD j (ofSlot j).initial) := by
  rw [List.getD_eq_getElem?_getD, getElem?_step_values]
  cases h : (a.ensureWidth values.length).values[j]? with
  | some x =>
    have hx : x = (a.ensureWidth values.length).values.getD j (ofSlot j).initial := by
      simp [List.getD_eq_getElem?_getD, h]
    rw [Option.map_some, Option.getD_some, hx, getD_ensureWidth]
  | none =>
    have hlen := List.getElem?_eq_none_iff.mp h
    rw [length_ensureWidth] at hlen
    rw [Option.map_none, Option.getD_none, List.getD_eq_default _ _ (by omega),
      stepSlot_of_le (by omega)]

/-- Stepping samples of any widths acts on slot `j`, read with its initial value as default, by
stepping the slot through each sample in turn. -/
theorem getD_stepAll_values (a : Aggregator) (samples : List (List Double)) (j : Nat) :
    (a.stepAll samples).values.getD j (ofSlot j).initial =
      samples.foldl (fun x vs => stepSlot a.mode j vs x) (a.values.getD j (ofSlot j).initial) := by
  induction samples generalizing a with
  | nil => rfl
  | cons vs samples ih =>
    rw [stepAll, List.foldl_cons, ← stepAll, ih, mode_step, getD_step_values, List.foldl_cons]

/-- Slot `j` exists after stepping exactly when it did before or some sample reaches it. -/
theorem lt_length_stepAll_iff (a : Aggregator) (samples : List (List Double)) (j : Nat) :
    j < (a.stepAll samples).values.length ↔
      j < a.values.length ∨ ∃ vs ∈ samples, j < a.mode.slotsFor vs.length := by
  induction samples generalizing a with
  | nil => simp [stepAll]
  | cons vs samples ih =>
    rw [stepAll, List.foldl_cons, ← stepAll, ih, mode_step, length_step, length_ensureWidth,
      lt_max_iff]
    simp only [List.mem_cons, exists_eq_or_imp, or_assoc]

/-- The aggregate of a group of raw samples, as a rollup stores it. -/
abbrev groupSlots (grp : List (List Double)) : List Double :=
  (({ mode := .fromRaw } : Aggregator).stepAll grp).values

/-- Slot `j` of a group's aggregate, read with its initial value as default, is the group's fold
of the slot from that value. -/
theorem getD_groupSlots (grp : List (List Double)) (j : Nat) :
    (groupSlots grp).getD j (ofSlot j).initial =
      grp.foldl (fun x vs => stepSlot .fromRaw j vs x) (ofSlot j).initial := by
  rw [getD_stepAll_values]
  rfl

/-- On a slot that selects, stepping a group of raw samples does to the slot what stepping the
group's aggregate, as one aggregated sample, does. -/
theorem foldl_stepSlot_rollup {j : Nat} (hj : (ofSlot j).selects = true)
    (grp : List (List Double)) (x : Double) :
    grp.foldl (fun x vs => stepSlot .fromRaw j vs x) x =
      stepSlot .fromAggregated j (groupSlots grp) x := by
  have hcount : ofSlot j ≠ .count := fun h => by rw [h] at hj; cases hj
  -- both paths absorb the raw column of slot `j`
  have hcol : ∀ y, grp.foldl (fun x vs => stepSlot .fromRaw j vs x) y =
      (grp.map (·.getD (j / slotCount) Double.nan)).foldl (ofSlot j).absorb y := by
    intro y
    rw [List.foldl_map]
    simp only [stepSlot_eq_absorb (.inl hcount), AggregationMode.sourceColumn]
  have hagg := getD_groupSlots grp j
  rw [initial_of_selects hj, hcol] at hagg
  rw [stepSlot_eq_absorb (.inr rfl), AggregationMode.sourceColumn, hagg, hcol,
    foldl_absorb hj]

/-- The samples among `samples` that hold a number in column `c`. -/
def numbersAt (c : Nat) (samples : List (List Double)) : Nat :=
  samples.countP fun vs => !(vs.getD c Double.nan).isNaN

theorem numbersAt_append (c : Nat) (l l' : List (List Double)) :
    numbersAt c (l ++ l') = numbersAt c l + numbersAt c l' :=
  List.countP_append

theorem numbersAt_le_length (c : Nat) (samples : List (List Double)) :
    numbersAt c samples ≤ samples.length :=
  List.countP_le_length

/-- A count slot of raw samples counts, exactly, the samples that hold a number in its column,
while the count stays within `2 ^ 53`. -/
theorem foldl_stepSlot_count {j : Nat} (hj : ofSlot j = .count) (samples : List (List Double))
    {n : Nat} (h : n + samples.length ≤ 2 ^ 53) :
    samples.foldl (fun x vs => stepSlot .fromRaw j vs x) (Double.ofNat n) =
      Double.ofNat (n + numbersAt (j / slotCount) samples) := by
  induction samples generalizing n with
  | nil => rw [List.foldl_nil, numbersAt, List.countP_nil, Nat.add_zero]
  | cons vs samples ih =>
    rw [List.length_cons] at h
    rw [List.foldl_cons, numbersAt, List.countP_cons, ← numbersAt]
    cases hv : (vs.getD (j / slotCount) Double.nan).isNaN
    · -- a sample with a number in the column counts one
      have hstep : stepSlot .fromRaw j vs (Double.ofNat n) = Double.ofNat (n + 1) := by
        rw [stepSlot, AggregationMode.sourceColumn, hv, if_neg (by decide), hj, stepInput,
          if_pos (by decide), ← Double.ofNat_one, fold_count_ofNat (by omega)]
      rw [hstep, ih (by omega), Bool.not_false, if_pos rfl]
      congr 1
      omega
    · -- a sample without one is passed over
      rw [stepSlot, AggregationMode.sourceColumn, hv, if_pos rfl, ih (by omega), Bool.not_true,
        if_neg (by decide), Nat.add_zero]

/-- A count slot stepped with a group's aggregate adds the group's count. -/
theorem stepSlot_count_rollup {j : Nat} (hj : ofSlot j = .count) (grp : List (List Double))
    {n : Nat} (h : n + grp.length ≤ 2 ^ 53) :
    stepSlot .fromAggregated j (groupSlots grp) (Double.ofNat n) =
      Double.ofNat (n + numbersAt (j / slotCount) grp) := by
  have hm := numbersAt_le_length (j / slotCount) grp
  have hinit : (ofSlot j).initial = Double.ofNat 0 := by rw [hj, Double.ofNat_zero]; rfl
  have hagg := getD_groupSlots grp j
  rw [hinit, foldl_stepSlot_count hj grp (by omega), Nat.zero_add] at hagg
  rw [stepSlot, AggregationMode.sourceColumn]
  by_cases hlt : j < (groupSlots grp).length
  · -- the group reached the slot: it holds the group's count
    rw [List.getD_eq_getElem _ _ hlt, ← List.getD_eq_getElem _ (Double.ofNat 0) hlt, hagg,
      Double.isNaN_ofNat (by omega), if_neg (by decide), stepInput, hj,
      fold_count_ofNat (by omega)]
  · -- no sample of the group reached the slot, so none holds a number in its column
    have hnone : numbersAt (j / slotCount) grp = 0 := by
      rw [numbersAt, List.countP_eq_zero]
      intro vs hvs
      have hshort : ¬j < vs.length * slotCount := fun hj' =>
        hlt ((lt_length_stepAll_iff _ grp j).mpr (.inr ⟨vs, hvs, hj'⟩))
      rw [List.getD_eq_default _ _ (by simp only [slotCount] at hshort ⊢; omega)]
      decide
    rw [List.getD_eq_default _ _ (Nat.le_of_not_lt hlt), if_pos (by decide), hnone, Nat.add_zero]

/-- Groups of raw samples, each stepped into a count slot as its aggregate, count the samples
of all the groups that hold a number in the slot's column. -/
theorem foldl_stepSlot_count_rollup {j : Nat} (hj : ofSlot j = .count)
    (groups : List (List (List Double))) {n : Nat} (h : n + groups.flatten.length ≤ 2 ^ 53) :
    (groups.map groupSlots).foldl (fun x vs => stepSlot .fromAggregated j vs x) (Double.ofNat n) =
      Double.ofNat (n + numbersAt (j / slotCount) groups.flatten) := by
  induction groups generalizing n with
  | nil =>
    rw [List.map_nil, List.foldl_nil, List.flatten_nil, numbersAt, List.countP_nil, Nat.add_zero]
  | cons grp groups ih =>
    rw [List.flatten_cons, List.length_append] at h
    have hm := numbersAt_le_length (j / slotCount) grp
    rw [List.map_cons, List.foldl_cons, stepSlot_count_rollup hj grp (by omega), ih (by omega),
      List.flatten_cons, numbersAt_append, Nat.add_assoc]

/-- Two lists of one length that agree at `j` when read with a default agree at `j`. -/
theorem getElem?_eq_of_getD_eq {l₁ l₂ : List Double} {j : Nat} {d : Double}
    (hlen : l₁.length = l₂.length) (h : l₁.getD j d = l₂.getD j d) : l₁[j]? = l₂[j]? := by
  by_cases hj : j < l₁.length
  · rw [List.getD_eq_getElem _ _ hj, List.getD_eq_getElem _ _ (hlen ▸ hj)] at h
    rw [List.getElem?_eq_getElem hj, List.getElem?_eq_getElem (hlen ▸ hj), h]
  · rw [List.getElem?_eq_none (by omega), List.getElem?_eq_none (by omega)]

/-- Rolling up the aggregates of consecutive groups of raw samples gives slots as wide as
rolling up all the samples at once, with the same first, last, least, greatest and count slots
while there are at most `2 ^ 53` samples. -/
theorem stepAll_rollup (groups : List (List (List Double)))
    (hlen : groups.flatten.length ≤ 2 ^ 53) :
    let direct := ({ mode := .fromRaw } : Aggregator).stepAll groups.flatten
    let chained := ({ mode := .fromAggregated } : Aggregator).stepAll (groups.map groupSlots)
    direct.values.length = chained.values.length ∧
      ∀ j, ofSlot j ≠ .sum → direct.values[j]? = chained.values[j]? := by
  intro direct chained
  -- a slot exists in one exactly when a sample of some group reaches it in the other
  have hlt : ∀ j, j < direct.values.length ↔ j < chained.values.length := by
    intro j
    simp [direct, chained, lt_length_stepAll_iff, AggregationMode.slotsFor]
    constructor
    · rintro ⟨vs, ⟨grp, hgrp, hvs⟩, h⟩
      exact ⟨grp, hgrp, vs, hvs, h⟩
    · rintro ⟨grp, hgrp, vs, hvs, h⟩
      exact ⟨vs, ⟨grp, hgrp, hvs⟩, h⟩
  have hlen' := Nat.le_antisymm (Nat.le_of_not_lt fun h => Nat.lt_irrefl _ ((hlt _).mp h))
    (Nat.le_of_not_lt fun h => Nat.lt_irrefl _ ((hlt _).mpr h))
  refine ⟨hlen', fun j hj => getElem?_eq_of_getD_eq hlen' (d := (ofSlot j).initial) ?_⟩
  simp only [direct, chained]
  rw [getD_stepAll_values, getD_stepAll_values]
  simp only [List.getD_nil]
  rcases selects_ofSlot j with hsel | hsum | hcount
  · -- a selecting slot takes each group as the group's own aggregate
    rw [List.foldl_flatten, List.foldl_map]
    simp only [foldl_stepSlot_rollup hsel]
  · exact absurd hsum hj
  · -- a count slot counts the same samples either way
    have hinit : (ofSlot j).initial = Double.ofNat 0 := by rw [hcount, Double.ofNat_zero]; rfl
    rw [hinit, foldl_stepSlot_count hcount _ (by omega),
      foldl_stepSlot_count_rollup hcount groups (by omega)]

end Aggregator

/-! ## The fold over runs -/

namespace Bucketing

/-- The bucket filled by a run of samples starting at `r.1`. -/
def runBucket (grid : BucketGrid) (mode : AggregationMode) (r : Int × List Sample) : Bucket :=
  ⟨r.1, grid.nextStart r.1, (({ mode } : Aggregator).stepAll (r.2.map Sample.values)).values⟩

theorem grid_flush (b : Bucketing) : b.flush.grid = b.grid := by
  unfold flush
  split <;> rfl

/-- A sample at or past the end of the current bucket closes it and opens its own bucket. -/
theorem addSample_of_le {b : Bucketing} {ms s : Int} (h : b.nextMs ≤ ms)
    (hs : b.grid.start ms = .ok s) (values : List Double) :
    b.addSample ms values = .ok { b.flush with
      startMs := s, nextMs := b.grid.nextStart s, current := b.flush.current.step values } := by
  simp only [addSample, moveTo, if_neg (Int.not_lt.mpr h), grid_flush, hs]
  rfl

/-- Flushing a bucket that received samples closes it and leaves a fresh aggregate. -/
theorem flush_of_any {b : Bucketing} (h : b.current.any = true) :
    b.flush = { b with
      current := { mode := b.current.mode }
      closed := b.closed ++ [⟨b.startMs, b.nextMs, b.current.values⟩] } := by
  simp only [flush, h, if_true, Aggregator.take]

variable {g : BucketGrid}

/-- A run of samples of one bucket, the first at or past the end of the current bucket, closes
the current bucket and fills its own. -/
theorem foldlM_run {b : Bucketing} {s : Int} {grp : List Sample} (hb : b.grid = g)
    (hne : grp ≠ []) (hcell : ∀ x ∈ grp, g.Cell s x.time.millis)
    (hfirst : ∀ x ∈ grp.head?, b.nextMs ≤ x.time.millis) :
    grp.foldlM (fun b x => b.addSample x.time.millis x.values) b =
      .ok { b.flush with
        startMs := s, nextMs := g.nextStart s
        current := b.flush.current.stepAll (grp.map Sample.values) } := by
  obtain ⟨x, rest, rfl⟩ := List.exists_cons_of_ne_nil hne
  have hx := hcell x List.mem_cons_self
  rw [List.foldlM_cons, addSample_of_le (hfirst x rfl) (hb ▸ hx.start_eq), hb]
  -- the rest of the run lies before the end of the bucket just opened
  refine (foldlM_addSample_of_lt (fun x : Sample => x.time.millis) Sample.values
    fun y hy => (hcell y (List.mem_cons_of_mem x hy)).2.1).trans ?_
  rfl

/-- The samples after a run of a time-ordered list lie past the end of the run's bucket. -/
theorem nextStart_le_of_run {s : Int} {grp l : List Sample}
    (hsorted : (grp ++ l).Pairwise fun x y => x.time.millis ≤ y.time.millis) (hne : grp ≠ [])
    (hcell : ∀ x ∈ grp, g.Cell s x.time.millis)
    (hhead : ∀ y ∈ l.head?, ¬g.Cell s y.time.millis) :
    ∀ y ∈ l, g.nextStart s ≤ y.time.millis := by
  intro y hy
  obtain ⟨x, hx⟩ := List.exists_mem_of_ne_nil grp hne
  obtain ⟨y₀, l', rfl⟩ := List.exists_cons_of_ne_nil (List.ne_nil_of_mem hy)
  rw [List.pairwise_append, List.pairwise_cons] at hsorted
  -- the first sample after the run is past its end, and the others come later still
  have h₀ : g.nextStart s ≤ y₀.time.millis :=
    (hcell x hx).nextStart_le (hsorted.2.2 x hx y₀ List.mem_cons_self) (hhead y₀ rfl)
  rcases List.mem_cons.mp hy with rfl | hy
  · exact h₀
  · exact Int.le_trans h₀ (hsorted.2.1.1 y hy)

/-- Folding the runs of a time-ordered list closes one bucket per run, after those already
closed. -/
theorem foldlM_runs (mode : AggregationMode) {xs : List Sample} {gs : List (Int × List Sample)}
    (hr : Runs (fun s x => g.Cell s x.time.millis) xs gs)
    (hsorted : xs.Pairwise fun x y => x.time.millis ≤ y.time.millis) :
    ∀ {b : Bucketing}, b.grid = g → b.flush.current = { mode } →
      (∀ x ∈ xs.head?, b.nextMs ≤ x.time.millis) →
      ∃ b', xs.foldlM (fun b x => b.addSample x.time.millis x.values) b = .ok b' ∧
        b'.grid = g ∧ b'.flush.current = { mode } ∧
        b'.flush.closed = b.flush.closed ++ gs.map (runBucket g mode) := by
  induction hr with
  | nil => exact fun {b} hb hcur _ => ⟨b, rfl, hb, hcur, by simp⟩
  | @cons s grp l gs hne hcell hhead _ ih =>
    intro b hb hcur hfirst
    have hnext : ∀ y ∈ l.head?, g.nextStart s ≤ y.time.millis := fun y hy =>
      nextStart_le_of_run hsorted hne hcell hhead y (List.mem_of_mem_head? hy)
    rw [List.pairwise_append] at hsorted
    obtain ⟨x, rest, rfl⟩ := List.exists_cons_of_ne_nil hne
    set b₁ : Bucketing := { b.flush with
      startMs := s, nextMs := g.nextStart s
      current := b.flush.current.stepAll ((x :: rest).map Sample.values) } with hb₁
    have hany : b₁.current.any = true := by
      simp [b₁, Aggregator.any_stepAll]
    have hflush₁ : b₁.flush.current = { mode } ∧
        b₁.flush.closed = b.flush.closed ++ [runBucket g mode (s, x :: rest)] := by
      rw [flush_of_any hany]
      simp [b₁, hcur, runBucket]
    obtain ⟨b', hfold, hgrid, hcur', hclosed⟩ :=
      ih hsorted.2.1 (b := b₁) (by simp [b₁, grid_flush, hb]) hflush₁.1 hnext
    refine ⟨b', ?_, hgrid, hcur', ?_⟩
    · rw [List.foldlM_append, foldlM_run hb hne hcell (fun y hy => hfirst y (by simpa using hy))]
      exact hfold
    · rw [hclosed, hflush₁.2, List.map_cons, List.append_assoc]
      rfl

end Bucketing

/-- Aggregate a list of samples into the buckets of a grid: one sample per bucket that received
one, stamped a millisecond before the next bucket starts, with all its slots. This is what
`SeriesWindow.aggregatedValues` does with a window of loose samples. -/
def aggregate (grid : BucketGrid) (mode : AggregationMode) (xs : List Sample) :
    Outcome (List Sample) := do
  let b ← ({ grid, current := { mode } } : Bucketing).addItem (.values xs)
  pure (b.flush.closed.map fun b => { time := Instant.ofMillis (b.endMs - 1), values := b.values })

/-- The sample reported for a run of samples starting at `r.1`. -/
def runSample (grid : BucketGrid) (mode : AggregationMode) (r : Int × List Sample) : Sample :=
  { time := Instant.ofMillis (grid.nextStart r.1 - 1),
    values := (({ mode } : Aggregator).stepAll (r.2.map Sample.values)).values }

/-- A time-ordered list of samples cut into runs of one bucket each is aggregated run by run. -/
theorem aggregate_eq_of_runs {g : BucketGrid} (mode : AggregationMode) {xs : List Sample}
    {gs : List (Int × List Sample)} (hr : Runs (fun s x => g.Cell s x.time.millis) xs gs)
    (hsorted : xs.Pairwise fun x y => x.time.millis ≤ y.time.millis)
    (hmin : ∀ x ∈ xs, I64.min ≤ x.time.millis) :
    aggregate g mode xs = .ok (gs.map (runSample g mode)) := by
  obtain ⟨b', hfold, -, -, hclosed⟩ := Bucketing.foldlM_runs mode hr hsorted
    (b := { grid := g, current := { mode } }) rfl rfl
    (fun x hx => hmin x (List.mem_of_mem_head? hx))
  have hnone : ({ grid := g, current := { mode } } : Bucketing).flush.closed = [] := rfl
  rw [hnone, List.nil_append] at hclosed
  rw [aggregate, Bucketing.addItem, hfold]
  show Except.ok (b'.flush.closed.map _) = _
  rw [hclosed, List.map_map]
  rfl

/-! ## Chaining rollups -/

section Chain

variable {g p q : BucketGrid} {xs : List Sample} {gs : List (Int × List Sample)}

/-- The stamp of a run of samples of the range lies in the run's bucket, at or after each of
its samples. -/
theorem le_runSample_millis (mode : AggregationMode) {r : Int × List Sample}
    (hcell : ∀ x ∈ r.2, g.Cell r.1 x.time.millis) {x : Sample} (hx : x ∈ r.2)
    (hrange : Instant.minMillis ≤ x.time.millis ∧ x.time.millis ≤ Instant.maxMillis) :
    x.time.millis ≤ (runSample g mode r).time.millis ∧
      (runSample g mode r).time.millis < g.nextStart r.1 := by
  have hlt := (hcell x hx).2.1
  have h := Instant.millis_ofMillis_mem (m := g.nextStart r.1 - 1) hrange.1 hrange.2 (by omega)
  exact ⟨h.1, by simp only [runSample]; omega⟩

/-- The runs of a time-ordered list of samples of the range are stamped in strictly increasing
order: one sample per bucket. -/
theorem Runs.stamps_increase (mode : AggregationMode)
    (hr : Runs (fun s x => g.Cell s x.time.millis) xs gs)
    (hsorted : xs.Pairwise fun x y => x.time.millis ≤ y.time.millis)
    (hrange : ∀ x ∈ xs, Instant.minMillis ≤ x.time.millis ∧ x.time.millis ≤ Instant.maxMillis) :
    (gs.map (runSample g mode)).Pairwise fun y z => y.time.millis < z.time.millis := by
  induction hr with
  | nil => exact .nil
  | @cons s grp l gs hne hcell hhead hrest ih =>
    have hsorted' := List.pairwise_append.mp hsorted
    have hin : ∀ x, x ∈ grp ∨ x ∈ l → x ∈ grp ++ l := fun x hx => List.mem_append.mpr hx
    rw [List.map_cons, List.pairwise_cons]
    refine ⟨?_, ih hsorted'.2.1 fun x hx => hrange x (hin x (.inr hx))⟩
    intro z hz
    obtain ⟨r, hr, rfl⟩ := List.mem_map.mp hz
    obtain ⟨hne', hcell'⟩ := hrest.mem hr
    obtain ⟨x, hx⟩ := List.exists_mem_of_ne_nil grp hne
    obtain ⟨y, hy⟩ := List.exists_mem_of_ne_nil r.2 hne'
    have hyl : y ∈ l := hrest.mem_iff.mpr ⟨r, hr, hy⟩
    -- the run's stamp is before the end of its bucket, which every later sample is past
    calc (runSample g mode (s, grp)).time.millis
        < g.nextStart s := (le_runSample_millis mode hcell hx (hrange x (hin x (.inl hx)))).2
      _ ≤ y.time.millis := Bucketing.nextStart_le_of_run hsorted hne hcell hhead y hyl
      _ ≤ (runSample g mode r).time.millis :=
        (le_runSample_millis mode hcell' hy (hrange y (hin y (.inr hyl)))).1

section Nested

variable {gp : List (Int × List Sample)} (hgp : Runs (fun s x => p.Cell s x.time.millis) xs gp)
  (hnested : ∀ x ∈ xs, p.Nested q x.time.millis)
  (hrange : ∀ x ∈ xs, Instant.minMillis ≤ x.time.millis ∧ x.time.millis ≤ Instant.maxMillis)
include hgp hnested hrange

/-- Where the buckets nest, a run of the fine grid, samples and stamp, lies in one bucket of the
coarse grid. -/
theorem Runs.coarse_cell (mode : AggregationMode) {r : Int × List Sample} (hr : r ∈ gp) :
    ∃ sq, (∀ x ∈ r.2, q.Cell sq x.time.millis) ∧ q.Cell sq (runSample p mode r).time.millis := by
  obtain ⟨hne, hcell⟩ := hgp.mem hr
  obtain ⟨x, hx⟩ := List.exists_mem_of_ne_nil r.2 hne
  have hxs : x ∈ xs := hgp.mem_iff.mpr ⟨r, hr, hx⟩
  obtain ⟨sq, hsq⟩ := (hnested x hxs).cover (hcell x hx)
  have hstamp := le_runSample_millis mode hcell hx (hrange x hxs)
  refine ⟨sq, fun y hy => hsq _ (hcell y hy).1 (hcell y hy).2.1, hsq _ ?_ hstamp.2⟩
  exact Int.le_trans (hcell x hx).1 hstamp.1

/-- Where the buckets nest, the runs of the coarse grid are unions of consecutive runs of the
fine grid: they cut both the samples and the fine grid's stamps. -/
theorem Runs.coarsen (mode : AggregationMode) :
    ∃ gqp : List (Int × List (Int × List Sample)),
      Runs (fun s x => q.Cell s x.time.millis) xs (gqp.map fun c => (c.1, c.2.flatMap Prod.snd)) ∧
      Runs (fun s y => q.Cell s y.time.millis) (gp.map (runSample p mode))
        (gqp.map fun c => (c.1, c.2.map (runSample p mode))) := by
  -- a fine run is filed under the coarse bucket of its samples, which is also its stamp's
  have hkey : ∀ r ∈ gp, ∀ k, (∀ x ∈ r.2, q.Cell k x.time.millis) ↔
      q.Cell k (runSample p mode r).time.millis := by
    intro r hr k
    obtain ⟨sq, hsq, hstamp⟩ := hgp.coarse_cell hnested hrange mode hr
    obtain ⟨x, hx⟩ := List.exists_mem_of_ne_nil r.2 (hgp.mem hr).1
    constructor
    · intro hk
      exact (hk x hx).unique (hsq x hx) ▸ hstamp
    · intro hk
      exact hk.unique hstamp ▸ hsq
  have hmemb : ∀ r ∈ gp, ∀ k, ∀ y ∈ r.2, q.Cell k y.time.millis →
      ∀ x ∈ r.2, q.Cell k x.time.millis := by
    intro r hr k y hy hk
    obtain ⟨sq, hsq, -⟩ := hgp.coarse_cell hnested hrange mode hr
    exact hk.unique (hsq y hy) ▸ hsq
  obtain ⟨gqp, hgqp⟩ := Runs.exists_of_unique (R := fun k (r : Int × List Sample) =>
      ∀ x ∈ r.2, q.Cell k x.time.millis)
    (fun r hr => (hgp.coarse_cell hnested hrange mode hr).imp fun _ h => h.1)
    (fun r hr k k' hk hk' => by
      obtain ⟨x, hx⟩ := List.exists_mem_of_ne_nil r.2 (hgp.mem hr).1
      exact (hk x hx).unique (hk' x hx))
  refine ⟨gqp, ?_, ?_⟩
  · have h : Runs (fun s x => q.Cell s x.time.millis) (gp.flatMap Prod.snd)
        (gqp.map fun c => (c.1, c.2.flatMap Prod.snd)) :=
      hgqp.flatMap (fun r hr => (hgp.mem hr).1) (fun _ _ _ hk => hk)
        (fun r hr k y hy hk => hmemb r hr k y (List.mem_of_mem_head? hy) hk)
    rwa [hgp.flatMap_eq] at h
  · have h : Runs (fun s y => q.Cell s y.time.millis) (gp.flatMap fun r => [runSample p mode r])
        (gqp.map fun c => (c.1, c.2.flatMap fun r => [runSample p mode r])) :=
      hgqp.flatMap (fun _ _ => List.cons_ne_nil _ _)
        (fun r hr k hk y hy => (List.mem_singleton.mp hy) ▸ (hkey r hr k).mp hk)
        (fun r hr k y hy hk => (hkey r hr k).mpr (by simpa using (List.mem_singleton.mp
          (List.mem_of_mem_head? hy)) ▸ hk))
    simpa only [← List.map_eq_flatMap] using h

end Nested

end Chain

/-- Rolling raw samples up to a fine grid and that rollup up to a coarse grid agrees with rolling
the samples up to the coarse grid, where every bucket of the fine grid around a sample lies in
the coarse grid's bucket of that sample. For a time-ordered list of samples of the range, the
direct rollup reports one sample per coarse bucket that holds a sample, stamped a millisecond
before the next coarse bucket, in strictly increasing order; and the chained rollup reports
samples with the same stamps, slots as wide and the same first and last slots. -/
theorem rollup_of_rollup (p q : BucketGrid) (xs : List Sample)
    (hsorted : xs.Pairwise fun x y => x.time.millis ≤ y.time.millis)
    (hrange : ∀ x ∈ xs, Instant.minMillis ≤ x.time.millis ∧ x.time.millis ≤ Instant.maxMillis)
    (hnested : ∀ x ∈ xs, p.Nested q x.time.millis) (hcount : xs.length ≤ 2 ^ 53) :
    ∃ ys, aggregate q .fromRaw xs = .ok ys ∧
      (ys.map fun y => y.time.millis).Pairwise (· < ·) ∧
      (∀ y ∈ ys, ∃ x ∈ xs, ∃ sq, q.Cell sq x.time.millis ∧
        y.time = Instant.ofMillis (q.nextStart sq - 1)) ∧
      (∀ x ∈ xs, ∃ sq, q.Cell sq x.time.millis ∧
        ∃ y ∈ ys, y.time = Instant.ofMillis (q.nextStart sq - 1)) ∧
      ∃ zs, (aggregate p .fromRaw xs >>= aggregate q .fromAggregated) = .ok zs ∧
        List.Forall₂ (fun y z => y.time = z.time ∧ y.values.length = z.values.length ∧
          ∀ j, ofSlot j ≠ .sum → y.values[j]? = z.values[j]?) ys zs := by
  have hmin : ∀ x ∈ xs, I64.min ≤ x.time.millis :=
    fun x hx => Int.le_trans (by decide) (hrange x hx).1
  -- the runs of the fine grid, and the coarse runs made of them
  obtain ⟨gp, hgp⟩ := Runs.exists_of_unique (R := fun s (x : Sample) => p.Cell s x.time.millis)
    (fun x hx => by obtain ⟨sp, -, h, -⟩ := hnested x hx; exact ⟨sp, h⟩)
    (fun _ _ _ _ hk hk' => hk.unique hk')
  obtain ⟨gqp, hq, hqs⟩ := hgp.coarsen hnested hrange .fromRaw
  -- the fine stamps increase and lie in the range, so the second rollup folds them run by run
  have hfine := hgp.stamps_increase .fromRaw hsorted hrange
  have hstamps : ∀ y ∈ gp.map (runSample p .fromRaw), I64.min ≤ y.time.millis := by
    intro y hy
    obtain ⟨r, hr, rfl⟩ := List.mem_map.mp hy
    obtain ⟨hne, hcell⟩ := hgp.mem hr
    obtain ⟨x, hx⟩ := List.exists_mem_of_ne_nil r.2 hne
    have hxs : x ∈ xs := hgp.mem_iff.mpr ⟨r, hr, hx⟩
    exact Int.le_trans (hmin x hxs) (le_runSample_millis .fromRaw hcell hx (hrange x hxs)).1
  have hchain := aggregate_eq_of_runs .fromAggregated hqs
    (hfine.imp fun h => Int.le_of_lt h) hstamps
  refine ⟨_, aggregate_eq_of_runs .fromRaw hq hsorted hmin, ?_, ?_, ?_, _,
    by rw [aggregate_eq_of_runs .fromRaw hgp hsorted hmin]; exact hchain, ?_⟩
  · rw [List.pairwise_map]
    simpa only [List.pairwise_map] using hq.stamps_increase .fromRaw hsorted hrange
  · intro y hy
    obtain ⟨c, hc, rfl⟩ := List.mem_map.mp hy
    obtain ⟨hne, hcell⟩ := hq.mem hc
    obtain ⟨x, hx⟩ := List.exists_mem_of_ne_nil c.2 hne
    exact ⟨x, hq.mem_iff.mpr ⟨c, hc, hx⟩, c.1, hcell x hx, rfl⟩
  · intro x hx
    obtain ⟨c, hc, hxc⟩ := hq.mem_iff.mp hx
    exact ⟨c.1, (hq.mem hc).2 x hxc, _, List.mem_map_of_mem hc, rfl⟩
  · -- each coarse run rolls up the fine runs it is made of
    rw [List.map_map, List.map_map, List.forall₂_map_left_iff, List.forall₂_map_right_iff,
      List.forall₂_same]
    intro c hc
    refine ⟨rfl, ?_⟩
    -- a coarse run holds no more samples than the list
    have hbound : (c.2.map fun r => r.2.map Sample.values).flatten.length ≤ 2 ^ 53 := by
      have hle := hq.length_le (List.mem_map_of_mem (f := fun c => (c.1, c.2.flatMap Prod.snd)) hc)
      simp only [List.length_flatten, List.length_flatMap, List.map_map, Function.comp_def,
        List.length_map] at hle ⊢
      omega
    have h := Aggregator.stepAll_rollup (c.2.map fun r => r.2.map Sample.values) hbound
    simp only [Function.comp_apply, runSample, List.flatMap_def, List.map_flatten, List.map_map]
      at h ⊢
    exact h

/-- Samples at the middle of each of the first three seconds, rolled up by seconds and then by
two seconds, against rolling them up by two seconds at once. -/
theorem rollup_of_rollup_seconds :
    let p : BucketGrid := ⟨⟨1000, .millis⟩⟩
    let q : BucketGrid := ⟨⟨2000, .millis⟩⟩
    let xs : List Sample := [500, 1500, 2500].map fun ms =>
      { time := Instant.ofMillis ms, values := [Double.zero] }
    (xs.Pairwise fun x y => x.time.millis ≤ y.time.millis) ∧
    (∀ x ∈ xs, Instant.minMillis ≤ x.time.millis ∧ x.time.millis ≤ Instant.maxMillis) ∧
    (∀ x ∈ xs, p.Nested q x.time.millis) ∧ xs.length ≤ 2 ^ 53 ∧
    ∃ ys, aggregate q .fromRaw xs = .ok ys ∧
      (ys.map fun y => y.time.millis).Pairwise (· < ·) ∧
      (∀ y ∈ ys, ∃ x ∈ xs, ∃ sq, q.Cell sq x.time.millis ∧
        y.time = Instant.ofMillis (q.nextStart sq - 1)) ∧
      (∀ x ∈ xs, ∃ sq, q.Cell sq x.time.millis ∧
        ∃ y ∈ ys, y.time = Instant.ofMillis (q.nextStart sq - 1)) ∧
      ∃ zs, (aggregate p .fromRaw xs >>= aggregate q .fromAggregated) = .ok zs ∧
        List.Forall₂ (fun y z => y.time = z.time ∧ y.values.length = z.values.length ∧
          ∀ j, ofSlot j ≠ .sum → y.values[j]? = z.values[j]?) ys zs := by
  intro p q xs
  have hsorted : xs.Pairwise fun x y => x.time.millis ≤ y.time.millis := by decide
  have hrange : ∀ x ∈ xs,
      Instant.minMillis ≤ x.time.millis ∧ x.time.millis ≤ Instant.maxMillis := by
    decide
  have hbounds : ∀ x ∈ xs, I64.min ≤ x.time.millis / q.step.value * q.step.value ∧
      x.time.millis / q.step.value * q.step.value + q.step.value ≤ I64.max := by
    decide
  have hnested : ∀ x ∈ xs, p.Nested q x.time.millis := fun x hx =>
    BucketGrid.nested_of_millis rfl rfl (by decide) (by decide) (by decide) (hbounds x hx).1
      (hbounds x hx).2
  have hcount : xs.length ≤ 2 ^ 53 := by decide
  exact ⟨hsorted, hrange, hnested, hcount, rollup_of_rollup p q xs hsorted hrange hnested hcount⟩

end SeriesStore
