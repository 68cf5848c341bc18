import Mathlib
import SeriesStore.Time.Span

/-!
# The order of spans

Spans are ordered by four keys taken one after the other (`compare_eq_lex`): whether the span is
the infinite one, its average length in milliseconds, whether it counts months, and its amount.
The keys determine the span, and a lexicographic comparison of lawful comparisons is lawful, so
the order of spans is a total order in which only equal spans compare equal, with the infinite
span on top (`compare_total_order`).

The keys are only a reading of `Span.compare`, which compares two spans of one unit by their
amounts and two spans of different units by their averages. They agree because the average of a
month span grows with its amount, also where the product with the average month saturates at an
end of the 64-bit range: spans that saturate together are then told apart by their amounts.
-/

namespace SeriesStore

namespace I64

theorem min_lt_max : min < max := by
  unfold min max
  norm_num

theorem clamp_mono {a b : Int} (h : a ≤ b) : clamp a ≤ clamp b := by
  have := min_lt_max
  unfold clamp
  split_ifs <;> omega

end I64

namespace Span

/-! ## The keys of the order -/

section Keys

variable {a b : Span}

theorem eq_infinite_of_isInfinite (h : a.isInfinite = true) : a = infinite := by
  simpa [isInfinite] using h

theorem unit_eq_of_isMonths_eq (h : a.isMonths = b.isMonths) : a.unit = b.unit := by
  cases ha : a.unit <;> cases hb : b.unit <;> simp_all [isMonths]

@[simp] theorem approxMillis_of_millis (h : a.unit = .millis) : a.approxMillis = a.value := by
  simp [approxMillis, h]

/-- Comparing by a key that grows with the amount, then by the amount, compares by the amount. -/
theorem compare_then_of_mono {f : Int → Int} (hf : Monotone f) (x y : Int) :
    (Ord.compare (f x) (f y)).then (Ord.compare x y) = Ord.compare x y := by
  rcases lt_trichotomy x y with h | rfl | h
  · rcases (hf h.le).lt_or_eq with h' | h'
    · rw [compare_lt_iff_lt.mpr h', compare_lt_iff_lt.mpr h]; rfl
    · rw [h', compare_eq_iff_eq.mpr rfl, Ordering.eq_then]
  · simp
  · rcases (hf h.le).lt_or_eq with h' | h'
    · rw [compare_gt_iff_gt.mpr h', compare_gt_iff_gt.mpr h]; rfl
    · rw [h', compare_eq_iff_eq.mpr rfl, Ordering.eq_then]

/-- Spans of one unit compare their averages, then their amounts, as their amounts. -/
theorem compare_approx_then (hu : a.unit = b.unit) :
    (Ord.compare a.approxMillis b.approxMillis).then (Ord.compare a.value b.value) =
      Ord.compare a.value b.value := by
  cases ha : a.unit
  · rw [approxMillis_of_millis ha, approxMillis_of_millis (hu ▸ ha), Ordering.then_self]
  · -- the average is the amount pushed through one monotone map, saturation included
    let g : Int → Int := fun v => I64.clamp (v * approxMsPerMonth)
    have hg : Monotone g := fun x y h =>
      I64.clamp_mono (Int.mul_le_mul_of_nonneg_right h (by decide))
    have hA : a.approxMillis = g a.value := by simp [approxMillis, ha, g, I64.mulSat]
    have hB : b.approxMillis = g b.value := by simp [approxMillis, ← hu, ha, g, I64.mulSat]
    rw [hA, hB]
    exact compare_then_of_mono hg _ _

end Keys

/-- The order of spans, key by key: infinite last, then average length, a month span after a
millisecond span of the same average, then amount. -/
theorem compare_eq_lex :
    Span.compare = compareLex (compareOn isInfinite)
      (compareLex (compareOn approxMillis)
        (compareLex (compareOn isMonths) (compareOn value))) := by
  funext a b
  simp only [compareLex, compareOn]
  cases ha : a.isInfinite <;> cases hb : b.isInfinite
  · -- two finite spans: one unit compares amounts, two units averages then units
    simp only [Span.compare, ha, hb]
    rw [show Ord.compare false false = .eq from rfl, Ordering.eq_then]
    by_cases hu : a.unit = b.unit
    · have hm : a.isMonths = b.isMonths := by simp [isMonths, hu]
      rw [if_pos (by simpa using hu), hm, compare_eq_iff_eq.mpr rfl, Ordering.eq_then]
      exact (compare_approx_then hu).symm
    · have hm : a.isMonths ≠ b.isMonths := fun h => hu (unit_eq_of_isMonths_eq h)
      rw [if_neg (by simpa using hu)]
      -- the averages decide; on a tie the month span is the greater
      cases h₁ : a.isMonths <;> cases h₂ : b.isMonths
      · exact absurd (h₁.trans h₂.symm) hm
      · cases Ord.compare a.approxMillis b.approxMillis <;> rfl
      · cases Ord.compare a.approxMillis b.approxMillis <;> rfl
      · exact absurd (h₁.trans h₂.symm) hm
  · simp only [Span.compare, ha, hb]
    rw [show Ord.compare false true = .lt from rfl, Ordering.lt_then]
  · simp only [Span.compare, ha, hb]
    rw [show Ord.compare true false = .gt from rfl, Ordering.gt_then]
  · rw [eq_infinite_of_isInfinite ha, eq_infinite_of_isInfinite hb]
    simp only [Span.compare, show infinite.isInfinite = true from rfl]
    simp

instance : Std.TransCmp Span.compare := by
  rw [compare_eq_lex]
  infer_instance

instance : Std.LawfulEqCmp Span.compare where
  compare_self := by
    intro a
    simp [compare_eq_lex, compareLex, compareOn]
  eq_of_compare := by
    intro a b h
    simp only [compare_eq_lex, compareLex_eq_eq, compareOn, compare_eq_iff_eq] at h
    obtain ⟨-, -, hm, hv⟩ := h
    cases a
    cases b
    simp only at hv
    exact Span.mk.injEq _ _ _ _ ▸ ⟨hv, unit_eq_of_isMonths_eq hm⟩

/-! ## Laws of the order -/

section Laws

variable {a b c : Span}

theorem compare_swap (a b : Span) : Span.compare b a = (Span.compare a b).swap :=
  Std.OrientedCmp.eq_swap

theorem compare_eq_iff : Span.compare a b = .eq ↔ a = b := Std.LawfulEqCmp.compare_eq_iff_eq

theorem compare_lt_trans (h₁ : Span.compare a b = .lt) (h₂ : Span.compare b c = .lt) :
    Span.compare a c = .lt :=
  Std.TransCmp.lt_trans h₁ h₂

theorem compare_le_trans (h₁ : Span.compare a b ≠ .gt) (h₂ : Span.compare b c ≠ .gt) :
    Span.compare a c ≠ .gt :=
  Std.TransCmp.le_trans h₁ h₂

theorem compare_lt_of_lt_of_le (h₁ : Span.compare a b = .lt) (h₂ : Span.compare b c ≠ .gt) :
    Span.compare a c = .lt :=
  Std.TransCmp.lt_of_lt_of_isLE h₁ (Ordering.isLE_iff_ne_gt.mpr h₂)

/-- A span at most another and different from it is below it. -/
theorem compare_lt_of_le_of_ne (h₁ : Span.compare a b ≠ .gt) (h₂ : a ≠ b) :
    Span.compare a b = .lt := by
  cases h : Span.compare a b
  · rfl
  · exact absurd (compare_eq_iff.mp h) h₂
  · exact absurd h h₁

/-- Of two spans, one is at most the other. -/
theorem compare_le_total (a b : Span) : Span.compare a b ≠ .gt ∨ Span.compare b a ≠ .gt := by
  rw [compare_swap a b]
  cases Span.compare a b <;> simp

/-- No span is greater than the infinite one. -/
theorem compare_infinite (s : Span) : Span.compare s infinite ≠ .gt := by
  by_cases h : s = infinite
  · rw [h, compare_eq_iff.mpr rfl]
    simp
  · have hs : s.isInfinite = false := by simpa [isInfinite] using h
    rw [compare_eq_lex]
    simp only [compareLex, compareOn, hs, show infinite.isInfinite = true from rfl]
    rw [show Ord.compare false true = .lt from rfl]
    simp

/-- A finite millisecond span with a 64-bit amount stays below the amount of the infinite
span. -/
theorem value_lt_max (h : a.isInfinite = false) (hu : a.unit = .millis)
    (hfit : I64.fits a.value = true) : a.value < I64.max := by
  simp only [I64.fits, Bool.and_eq_true, decide_eq_true_eq] at hfit
  rcases lt_or_eq_of_le hfit.2 with hlt | heq
  · exact hlt
  · have : a = infinite := by
      cases a
      simp_all [infinite]
    simp [this, show infinite.isInfinite = true from rfl] at h

/-- Two spans of one unit whose amounts are 64-bit numbers compare as their amounts. -/
theorem compare_of_unit_eq (hu : a.unit = b.unit) (ha : I64.fits a.value = true)
    (hb : I64.fits b.value = true) : Span.compare a b = Ord.compare a.value b.value := by
  rw [compare_eq_lex]
  simp only [compareLex, compareOn]
  have hm : a.isMonths = b.isMonths := by simp [isMonths, hu]
  rw [hm, compare_eq_iff_eq.mpr rfl, Ordering.eq_then, compare_approx_then hu]
  -- the infinite span has the greatest amount, so the first key orders as the amounts do
  cases ha' : a.isInfinite <;> cases hb' : b.isInfinite
  · rfl
  · obtain rfl := eq_infinite_of_isInfinite hb'
    rw [show infinite.value = I64.max from rfl, compare_lt_iff_lt.mpr (value_lt_max ha' hu ha)]
    rfl
  · obtain rfl := eq_infinite_of_isInfinite ha'
    rw [show infinite.value = I64.max from rfl, compare_gt_iff_gt.mpr (value_lt_max hb' hu.symm hb)]
    rfl
  · rw [eq_infinite_of_isInfinite ha', eq_infinite_of_isInfinite hb']
    simp

end Laws

/-- Spans are totally ordered: the comparison of spans is antisymmetric and transitive, only
equal spans compare equal, no span is above the infinite one, and two spans of one unit whose
amounts are 64-bit numbers compare as their amounts. -/
theorem compare_total_order :
    Std.TransOrd Span ∧ Std.LawfulEqOrd Span ∧
    (∀ s : Span, Ord.compare s infinite ≠ .gt) ∧
    ∀ a b : Span, a.unit = b.unit → I64.fits a.value = true → I64.fits b.value = true →
      Ord.compare a b = Ord.compare a.value b.value :=
  ⟨inferInstanceAs (Std.TransCmp Span.compare), inferInstanceAs (Std.LawfulEqCmp Span.compare),
    compare_infinite, fun _ _ hu ha hb => compare_of_unit_eq hu ha hb⟩

end Span

end SeriesStore
