import Mathlib
import SeriesStore.Proofs.Time.BucketTiling
import SeriesStore.Store.Schedule

/-!
# A rolled-up series is next due after the clock

A rollup at the instant `now` aggregates its source up to the last bucket that closed one
aggregation span before `now`: it stops just before `N`, the start of the bucket after the one
holding `now` minus a span. When the source has samples past that point, it is scheduled again
from `N`, due at the start of the bucket after the one holding `N`. That instant lies past `now`
for every instant of the range below its last (`lt_nextRollup_nextRollup`), so the entry a
rollup leaves behind is never due at the clock that rolled it up.

On a grid of milliseconds the two buckets after `now` minus a span reach past `now` by the
floored quotients, whatever the 64-bit saturation does. On a grid of months the step back lands
in the month a span before the month of `now`, or on the first instant of the range, and the
bucket two steps on starts past the month of `now`, or at the last instant of the range.
-/

namespace SeriesStore

open Instant

/-- The bucket after the one holding `ms`, on the grid of a policy's aggregation span. -/
theorem nextRollup_eq_ok {ms d : Int} {p : Policy} (h : nextRollup ms p = .ok d) :
    0 < p.aggregation.value ∧ p.aggregation.isInfinite = false ∧
      ∃ s, (⟨p.aggregation⟩ : BucketGrid).start ms = .ok s ∧
        d = (⟨p.aggregation⟩ : BucketGrid).nextStart s := by
  unfold nextRollup at h
  cases hg : BucketGrid.ofSpan p.aggregation with
  | error e =>
    rw [hg] at h
    cases h
  | ok g =>
    obtain ⟨rfl, hv, hinf⟩ := BucketGrid.ofSpan_eq_ok hg
    simp only [hg, bind, Except.bind] at h
    refine ⟨hv, hinf, ?_⟩
    unfold BucketGrid.nextAfter at h
    cases hs : (⟨p.aggregation⟩ : BucketGrid).start ms with
    | error f =>
      rw [hs] at h
      cases h
    | ok s =>
      rw [hs] at h
      exact ⟨s, rfl, (Except.ok.inj h).symm⟩

theorem millis_min : Instant.min.millis = minMillis := by
  simp [Instant.min, millis, nanosPerMilli]

namespace BucketGrid

/-! ## Grids of milliseconds -/

/-- On a grid of milliseconds, the bucket two steps after the one holding `now` minus a step
starts past `now`. -/
theorem lt_nextStart_nextStart_millis {g : BucketGrid} (hu : g.step.unit = .millis)
    (hv : 0 < g.step.value) {now s n s' : Int} (hnow : now < I64.max)
    (hlo : I64.min ≤ now)
    (hs : g.start (I64.subSat now g.step.value) = .ok s) (hn : n = g.nextStart s)
    (hs' : g.start n = .ok s') : now < g.nextStart s' := by
  obtain ⟨v, hvv⟩ : ∃ v, g.step.value = v := ⟨_, rfl⟩
  -- the step back lies within a step below `now`
  generalize hS : I64.subSat now g.step.value = S at hs
  have hS₁ : now - v ≤ S ∧ S ≤ now := by
    rw [← hS, hvv]
    simp only [I64.subSat, I64.clamp, I64.min, I64.max] at hlo hnow ⊢
    split_ifs <;> omega
  simp only [start, hu, hvv, I64.mul, I64.check] at hs hs'
  split_ifs at hs hs' with hf hf'
  obtain rfl := Except.ok.inj hs
  obtain rfl := Except.ok.inj hs'
  simp only [nextStart, hu, hvv] at hn ⊢
  rw [hvv] at hv
  -- the floored bucket starts on either side
  have hq₁ := Int.ediv_mul_le S hv.ne'
  have hq₂ : S < S / v * v + v := by
    have := Int.lt_ediv_add_one_mul_self S hv
    rwa [Int.add_mul, Int.one_mul] at this
  have hr₁ := Int.ediv_mul_le n hv.ne'
  have hr₂ : n < n / v * v + v := by
    have := Int.lt_ediv_add_one_mul_self n hv
    rwa [Int.add_mul, Int.one_mul] at this
  simp only [I64.fits, Bool.and_eq_true, decide_eq_true_eq] at hf hf'
  rcases (show S / v * v + v ≤ I64.max ∨ I64.max < S / v * v + v by omega) with hfit | hover
  · -- the next bucket starts at a multiple of the step, so it is its own bucket's start
    have hn' : n = S / v * v + v := by
      rw [hn, I64.addSat, I64.clamp, if_neg (by omega), if_neg (by omega)]
    have hself : n / v * v = n := by
      rw [hn', show S / v * v + v = (S / v + 1) * v by ring, Int.mul_ediv_cancel _ hv.ne']
    simp only [I64.addSat, I64.clamp]
    split_ifs <;> omega
  · -- the next bucket is cut at the greatest 64-bit count
    have hn' : n = I64.max := by
      rw [hn, I64.addSat, I64.clamp, if_neg (by omega), if_pos hover]
    simp only [I64.addSat, I64.clamp]
    split_ifs <;> omega

/-! ## Grids of months -/

section Months

variable {g : BucketGrid} (hu : g.step.unit = .months) (hv : 0 < g.step.value)
include hu hv

/-- A step of months back from an instant of the range lands in the range, at most a step of
months before the month of the instant. -/
theorem subtractFromMillis_months_mem {now : Int} (h₁ : minMillis ≤ now) (h₂ : now ≤ maxMillis) :
    minMillis ≤ g.step.subtractFromMillis now ∧ g.step.subtractFromMillis now ≤ maxMillis ∧
      monthOf now ≤ monthOf (g.step.subtractFromMillis now) + g.step.value := by
  by_cases hk : 12 * minYear ≤ monthOf now - g.step.value
  · obtain ⟨hS₁, hS₂, hm⟩ := subtractFromMillis_mem hu hv h₁ h₂ hk
    exact ⟨hS₁, hS₂, by omega⟩
  · -- the month a step before is before the range: the step back stops at its first instant
    have hnone : (ofMillis now).addMonths? (-g.step.value) = none := by
      cases hu' : (ofMillis now).addMonths? (-g.step.value) with
      | none => rfl
      | some u =>
        have := (millis_addMonths? h₁ h₂ (neg_ne_zero.mpr hv.ne') hu').1.1
        omega
    have hS : g.step.subtractFromMillis now = minMillis := by
      simp only [Span.subtractFromMillis_months hu hv, hnone, Option.getD_none, millis_min]
    have hmin : monthOf minMillis = 12 * minYear := by
      rw [minMillis_eq, monthOf_monthStartMillis (le_refl _) (by simp [minYear, maxYear])]
    rw [hS, hmin]
    refine ⟨le_refl _, by simp [minMillis, maxMillis], by omega⟩

/-- On a grid of months, the bucket after the one holding an instant `T` of the range starts
past every instant of a month before the first month a step after the multiple of the step
below the month of `T`. -/
theorem lt_nextStart_of_month {T now x : Int} (hT₁ : minMillis ≤ T) (hT₂ : T ≤ maxMillis)
    (hnow₁ : minMillis ≤ now) (hnow₂ : now < maxMillis) (hx : g.start T = .ok x)
    (hlt : monthOf now < monthOf T / g.step.value * g.step.value + g.step.value) :
    now < g.nextStart x := by
  have hmT := monthOf_mem hT₁ hT₂
  rw [start_months_eq hu hv hT₁ hT₂] at hx
  obtain rfl := Except.ok.inj hx
  have hj := Int.ediv_mul_le (monthOf T) hv.ne'
  rw [nextStart_monthStartMillis hu hv (le_max_right _ _) (by omega)]
  split_ifs with hin
  · calc now < monthStartMillis (monthOf now + 1) := (monthOf_spec hnow₁ hnow₂.le).2
      _ ≤ _ := monthStartMillis_strictMono.monotone (by omega)
  · exact hnow₂

/-- On a grid of months, the bucket two steps after one holding an instant `S` of the range
starts past every instant whose month is at most a step after the month of `S`. -/
theorem lt_nextStart_nextStart_months {S now s n s' : Int} (hS₁ : minMillis ≤ S)
    (hS₂ : S ≤ maxMillis) (hnow₁ : minMillis ≤ now) (hnow₂ : now < maxMillis)
    (hm : monthOf now ≤ monthOf S + g.step.value)
    (hs : g.start S = .ok s) (hn : n = g.nextStart s) (hs' : g.start n = .ok s') :
    now < g.nextStart s' := by
  have hmS := monthOf_mem hS₁ hS₂
  rw [start_months_eq hu hv hS₁ hS₂] at hs
  obtain rfl := Except.ok.inj hs
  have hq₁ := Int.ediv_mul_le (monthOf S) hv.ne'
  have hq₂ : monthOf S < monthOf S / g.step.value * g.step.value + g.step.value := by
    have := Int.lt_ediv_add_one_mul_self (monthOf S) hv
    rwa [Int.add_mul, Int.one_mul] at this
  rw [nextStart_monthStartMillis hu hv (le_max_right _ _) (by omega)] at hn
  split_ifs at hn with hin
  · -- the next bucket starts at the first instant of month `j₁ + v`, a month of the range
    obtain ⟨j₁, hj₁⟩ : ∃ j₁, max (monthOf S / g.step.value * g.step.value) (12 * minYear) = j₁ :=
      ⟨_, rfl⟩
    have hj₁lo : monthOf S / g.step.value * g.step.value ≤ j₁ := hj₁ ▸ le_max_left _ _
    have hj₁lo' : 12 * minYear ≤ j₁ := hj₁ ▸ le_max_right _ _
    rw [hj₁] at hin hn
    obtain ⟨hn₁, hn₂⟩ := monthStartMillis_mem (show 12 * minYear ≤ j₁ + g.step.value by omega) hin
    subst hn
    refine lt_nextStart_of_month hu hv hn₁ hn₂ hnow₁ hnow₂ hs' ?_
    rw [monthOf_monthStartMillis (by omega) hin]
    -- the bucket of that month is a whole step past the one of `S`
    have hr : monthOf S / g.step.value + 1 ≤ (j₁ + g.step.value) / g.step.value := by
      rw [Int.add_ediv_of_dvd_right (dvd_refl _), Int.ediv_self hv.ne']
      have := Int.le_ediv_of_mul_le hv hj₁lo
      omega
    have hrv := Int.mul_le_mul_of_nonneg_right hr hv.le
    rw [Int.add_mul, Int.one_mul] at hrv
    omega
  · -- the next bucket is cut at the last instant of the range
    subst hn
    have hmax₁ : minMillis ≤ maxMillis := by simp [minMillis, maxMillis]
    refine lt_nextStart_of_month hu hv hmax₁ le_rfl hnow₁ hnow₂ hs' ?_
    have hmono := monthOf_mono hnow₁ hnow₂.le hmax₁ le_rfl hnow₂.le
    have hq := Int.lt_ediv_add_one_mul_self (monthOf maxMillis) hv
    rw [Int.add_mul, Int.one_mul] at hq
    omega

end Months

end BucketGrid

/-- A series rolled up at an instant of the range below its last is next due past that
instant: the start of the bucket after the one holding the start of the bucket after the one
holding the instant a span before. -/
theorem lt_nextRollup_nextRollup {p : Policy} {now N D : Int} (h₁ : minMillis ≤ now)
    (h₂ : now < maxMillis) (hN : nextRollup (p.aggregation.subtractFromMillis now) p = .ok N)
    (hD : nextRollup N p = .ok D) : now < D := by
  obtain ⟨hv, hinf, s, hs, rfl⟩ := nextRollup_eq_ok hN
  obtain ⟨-, -, s', hs', rfl⟩ := nextRollup_eq_ok hD
  cases hu : p.aggregation.unit with
  | millis =>
    rw [Span.subtractFromMillis_millis hu hinf] at hs
    refine BucketGrid.lt_nextStart_nextStart_millis (g := ⟨p.aggregation⟩) hu hv ?_ ?_ hs rfl hs'
    · have : maxMillis < I64.max := by simp [maxMillis, I64.max]
      omega
    · have : I64.min ≤ minMillis := by simp [minMillis, I64.min]
      omega
  | months =>
    obtain ⟨hS₁, hS₂, hm⟩ :=
      BucketGrid.subtractFromMillis_months_mem (g := ⟨p.aggregation⟩) hu hv h₁ h₂.le
    exact BucketGrid.lt_nextStart_nextStart_months hu hv hS₁ hS₂ h₁ h₂ hm hs rfl hs'

end SeriesStore
