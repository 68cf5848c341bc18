import Mathlib
import SeriesStore.Time.Buckets
import SeriesStore.Proofs.Time.CivilDays
import SeriesStore.Proofs.RollupChain
import SeriesStore.Proofs.Store.KeyOrder

/-!
# Buckets tile the time line

A grid cuts the range of instants into buckets of one step each. A step of milliseconds cuts at
the multiples of the step. A step of months cuts at the first instant of every month whose
number, counted from January of year 0, is a multiple of the step. The months come from the
civil calendar (`Calendar.civilOfDays_spec`): `monthOf t` is the month of `t` and
`monthStartMillis k` the first millisecond of month `k`, strictly increasing in `k`.

`TilesAt g t s n` gathers what the grid does around an instant `t` whose bucket starts at `s`
and whose next bucket starts at `n`; `tiles_time_line` shows it for every instant of the range
and every 64-bit step a grid accepts. The grid stops at the ends of the range. A grid of months
clamps a bucket that starts before the range to its first instant and one that starts after it
to its last, so at the last instant of the range the next bucket starts at the instant itself.
On a grid of milliseconds, a step back from an instant near the 64-bit ends may land in a bucket
whose start is not a 64-bit count (`tiling_stops_at_ends`). So what crosses from one bucket to
another is stated for buckets whose first month or millisecond lies in the range (`Starts`).
-/

namespace SeriesStore

/-- Saturation leaves a 64-bit value as it is. -/
theorem I64.clamp_of_fits {x : Int} (h : I64.fits x = true) : I64.clamp x = x := by
  simp only [I64.fits, Bool.and_eq_true, decide_eq_true_eq] at h
  rw [I64.clamp, if_neg (by omega), if_neg (by omega)]

namespace Instant

open Calendar

theorem ofMillis_of_mem {t : Int} (h₁ : minMillis ≤ t) (h₂ : t ≤ maxMillis) :
    ofMillis t = ⟨t * nanosPerMilli⟩ := by
  unfold ofMillis
  rw [if_neg (by omega), if_neg (by omega)]

theorem civil_ofMillis {t : Int} (h₁ : minMillis ≤ t) (h₂ : t ≤ maxMillis) :
    (ofMillis t).civil = (civilOfDays (t / 86400000), ((t % 86400000) * 1000000).toNat) := by
  rw [ofMillis_of_mem h₁ h₂]
  simp only [civil, nanosPerMilli, nanosPerDay]
  congr 2 <;> omega

/-- The month of a millisecond count, counted from January of year 0. -/
def monthOf (t : Int) : Int :=
  let ((y, m, _), _) := (ofMillis t).civil
  y * 12 + ((m : Int) - 1)

/-- The first millisecond of month `k`. -/
def monthStartMillis (k : Int) : Int := monthFirstDay k * 86400000

theorem monthStartMillis_strictMono : StrictMono monthStartMillis := fun a b h => by
  have := monthFirstDay_strictMono h
  unfold monthStartMillis
  omega

theorem minMillis_eq : minMillis = monthStartMillis (12 * minYear) := by
  norm_num [minMillis, monthStartMillis, monthFirstDay, marchDays, minYear]

theorem maxMillis_eq : maxMillis + 1 = monthStartMillis (12 * maxYear + 12) := by
  norm_num [maxMillis, monthStartMillis, monthFirstDay, marchDays, maxYear]

theorem monthOf_eq_civil {t : Int} (h₁ : minMillis ≤ t) (h₂ : t ≤ maxMillis) :
    monthOf t = (civilOfDays (t / 86400000)).1 * 12 + (((civilOfDays (t / 86400000)).2.1 : Int) - 1) := by
  unfold monthOf
  rw [civil_ofMillis h₁ h₂]

theorem monthOf_spec {t : Int} (h₁ : minMillis ≤ t) (h₂ : t ≤ maxMillis) :
    monthStartMillis (monthOf t) ≤ t ∧ t < monthStartMillis (monthOf t + 1) := by
  obtain ⟨-, -, hlo, hhi, -⟩ := civilOfDays_spec (t / 86400000)
  rw [monthOf_eq_civil h₁ h₂]
  unfold monthStartMillis
  omega

/-- An instant of the range between the first milliseconds of month `k` and of the next has
month `k`. -/
theorem monthOf_eq {t k : Int} (h₁ : minMillis ≤ t) (h₂ : t ≤ maxMillis)
    (hk₁ : monthStartMillis k ≤ t) (hk₂ : t < monthStartMillis (k + 1)) : monthOf t = k := by
  obtain ⟨-, -, hlo, hhi, -⟩ := civilOfDays_spec (t / 86400000)
  unfold monthStartMillis at hk₁ hk₂
  rw [monthOf_eq_civil h₁ h₂]
  exact month_unique hlo hhi (by omega) (by omega)

/-- The months of the range: from January of the first year to December of the last. -/
theorem monthOf_mem {t : Int} (h₁ : minMillis ≤ t) (h₂ : t ≤ maxMillis) :
    12 * minYear ≤ monthOf t ∧ monthOf t < 12 * maxYear + 12 := by
  obtain ⟨hlo, hhi⟩ := monthOf_spec h₁ h₂
  constructor
  · by_contra h
    have := monthStartMillis_strictMono.monotone (show monthOf t + 1 ≤ 12 * minYear by omega)
    rw [← minMillis_eq] at this
    omega
  · by_contra h
    have := monthStartMillis_strictMono.monotone (show 12 * maxYear + 12 ≤ monthOf t by omega)
    rw [← maxMillis_eq] at this
    omega

/-- The first millisecond of a month of the range lies in the range. -/
theorem monthStartMillis_mem {k : Int} (h₁ : 12 * minYear ≤ k) (h₂ : k < 12 * maxYear + 12) :
    minMillis ≤ monthStartMillis k ∧ monthStartMillis k ≤ maxMillis := by
  have hlo := monthStartMillis_strictMono.monotone h₁
  have hhi := monthStartMillis_strictMono h₂
  rw [← minMillis_eq] at hlo
  rw [← maxMillis_eq] at hhi
  omega

theorem monthOf_monthStartMillis {k : Int} (h₁ : 12 * minYear ≤ k) (h₂ : k < 12 * maxYear + 12) :
    monthOf (monthStartMillis k) = k := by
  obtain ⟨hlo, hhi⟩ := monthStartMillis_mem h₁ h₂
  exact monthOf_eq hlo hhi (le_refl _) (monthStartMillis_strictMono (by omega))

/-- A date of month `k` lies in the range exactly when month `k` does. -/
theorem ofCivil?_month (k : Int) (d ns : Nat) :
    ofCivil? (k / 12) ((k % 12).toNat + 1) d ns =
      if 12 * minYear ≤ k ∧ k < 12 * maxYear + 12 then
        some ⟨(monthFirstDay k + ((d : Int) - 1)) * nanosPerDay + ns⟩
      else none := by
  unfold ofCivil?
  have hk : k / 12 * 12 + ((((k % 12).toNat + 1 : Nat) : Int) - 1) = k := by omega
  rw [daysOfCivil_eq d (by omega) (by omega), hk]
  by_cases h : 12 * minYear ≤ k ∧ k < 12 * maxYear + 12
  · rw [if_pos (by simp only [minYear, maxYear] at h ⊢; omega), if_pos h]
  · rw [if_neg (by simp only [minYear, maxYear] at h ⊢; omega), if_neg h]

/-- Adding months keeps the day, cut to the length of the new month, and the time of day. -/
theorem addMonths?_ofMillis {t n : Int} (h₁ : minMillis ≤ t) (h₂ : t ≤ maxMillis) (hn : n ≠ 0) :
    (ofMillis t).addMonths? n =
      ofCivil? ((monthOf t + n) / 12) (((monthOf t + n) % 12).toNat + 1)
        (Nat.min (civilOfDays (t / 86400000)).2.2
          (monthDays ((monthOf t + n) / 12) (((monthOf t + n) % 12).toNat + 1)))
        ((t % 86400000) * 1000000).toNat := by
  unfold addMonths?
  rw [if_neg hn, monthOf_eq_civil h₁ h₂, civil_ofMillis h₁ h₂]

/-- Months added to an instant of the range land in the month that many months on, if it is in
the range. -/
theorem millis_addMonths? {t n : Int} {u : Instant} (h₁ : minMillis ≤ t) (h₂ : t ≤ maxMillis)
    (hn : n ≠ 0) (hu : (ofMillis t).addMonths? n = some u) :
    (12 * minYear ≤ monthOf t + n ∧ monthOf t + n < 12 * maxYear + 12) ∧
      monthStartMillis (monthOf t + n) ≤ u.millis ∧ u.millis < monthStartMillis (monthOf t + n + 1) := by
  rw [addMonths?_ofMillis h₁ h₂ hn, ofCivil?_month] at hu
  split_ifs at hu with hk
  obtain rfl := Option.some.inj hu
  obtain ⟨-, -, hlo, -, hday⟩ := civilOfDays_spec (t / 86400000)
  generalize hk' : monthOf t + n = k' at hk ⊢
  have hnext := monthFirstDay_next (k' / 12) (m := (k' % 12).toNat + 1) (by omega) (by omega)
  rw [show k' / 12 * 12 + ((((k' % 12).toNat + 1 : Nat) : Int) - 1) = k' by omega] at hnext
  -- the day, cut to the new month's length, is a day of that month
  have hmin : Nat.min (civilOfDays (t / 86400000)).2.2 (monthDays (k' / 12) ((k' % 12).toNat + 1)) ≤
      monthDays (k' / 12) ((k' % 12).toNat + 1) := Nat.min_le_right _ _
  have hpos : 1 ≤ Nat.min (civilOfDays (t / 86400000)).2.2
      (monthDays (k' / 12) ((k' % 12).toNat + 1)) :=
    Nat.le_min.mpr ⟨by omega, by have := monthDays_ge (k' / 12) ((k' % 12).toNat + 1); omega⟩
  generalize Nat.min (civilOfDays (t / 86400000)).2.2
    (monthDays (k' / 12) ((k' % 12).toNat + 1)) = d at hmin hpos
  refine ⟨hk, ?_, ?_⟩ <;> simp only [millis, monthStartMillis, nanosPerDay, nanosPerMilli] <;> omega

/-- Months added to the first instant of a month give the first instant of the month that many
on, if it is in the range. -/
theorem addMonths?_monthStartMillis {k n : Int} (h₁ : 12 * minYear ≤ k)
    (h₂ : k < 12 * maxYear + 12) (hn : n ≠ 0) :
    (ofMillis (monthStartMillis k)).addMonths? n = BucketGrid.monthStart? (k + n) := by
  obtain ⟨hlo, hhi⟩ := monthStartMillis_mem h₁ h₂
  have hday : monthStartMillis k / 86400000 = monthFirstDay k := by
    unfold monthStartMillis
    omega
  have hfirst := (civilOfDays_of_mem (le_refl (monthFirstDay k)) (monthFirstDay_lt_succ k)).2
  rw [← hday] at hfirst
  rw [addMonths?_ofMillis hlo hhi hn, monthOf_monthStartMillis h₁ h₂, BucketGrid.monthStart?]
  have hd : (civilOfDays (monthStartMillis k / 86400000)).2.2 = 1 := by omega
  have hns : (monthStartMillis k % 86400000 * 1000000).toNat = 0 := by
    unfold monthStartMillis
    omega
  have hmin : Nat.min 1 (monthDays ((k + n) / 12) (((k + n) % 12).toNat + 1)) = 1 :=
    Nat.min_eq_left (by have := monthDays_ge ((k + n) / 12) (((k + n) % 12).toNat + 1); omega)
  rw [hd, hns, hmin]

/-- The first instant of a month of the range, by the month's number. -/
theorem monthStart?_map_millis (k : Int) :
    (BucketGrid.monthStart? k).map millis =
      if 12 * minYear ≤ k ∧ k < 12 * maxYear + 12 then some (monthStartMillis k) else none := by
  rw [BucketGrid.monthStart?, ofCivil?_month]
  split_ifs
  · simp only [Option.map_some, millis, monthStartMillis, nanosPerDay, nanosPerMilli]
    congr 1
    omega
  · rfl

/-- Months can be added to an instant of the range when the month they lead to is in it. -/
theorem addMonths?_isSome {t n : Int} (h₁ : minMillis ≤ t) (h₂ : t ≤ maxMillis) (hn : n ≠ 0)
    (hk₁ : 12 * minYear ≤ monthOf t + n) (hk₂ : monthOf t + n < 12 * maxYear + 12) :
    ∃ u, (ofMillis t).addMonths? n = some u := by
  rw [addMonths?_ofMillis h₁ h₂ hn, ofCivil?_month, if_pos ⟨hk₁, hk₂⟩]
  exact ⟨_, rfl⟩

theorem monthOf_mono {t u : Int} (ht₁ : minMillis ≤ t) (ht₂ : t ≤ maxMillis) (hu₁ : minMillis ≤ u)
    (hu₂ : u ≤ maxMillis) (h : t ≤ u) : monthOf t ≤ monthOf u := by
  by_contra hlt
  have hle := monthStartMillis_strictMono.monotone (show monthOf u + 1 ≤ monthOf t by omega)
  have := (monthOf_spec hu₁ hu₂).2
  have := (monthOf_spec ht₁ ht₂).1
  omega

end Instant

namespace Span

theorem isInfinite_eq_false_of_months {s : Span} (h : s.unit = .months) : s.isInfinite = false := by
  cases s
  simp_all [isInfinite, infinite]

/-- Months taken from an instant of the range: the instant that many months back, or the first
instant of the range when that is before it. -/
theorem subtractFromMillis_months {s : Span} (h : s.unit = .months) (hv : 0 < s.value) (t : Int) :
    s.subtractFromMillis t = (((Instant.ofMillis t).addMonths? (-s.value)).getD Instant.min).millis := by
  simp only [subtractFromMillis, subtractFrom, h, isInfinite_eq_false_of_months h,
    Bool.false_eq_true, if_false]
  rw [if_neg (show ¬ -s.value ≥ 0 by omega)]
  rfl

/-- A finite span of milliseconds is taken from a count of milliseconds, stopping at the ends of
the 64-bit range. -/
theorem subtractFromMillis_millis {s : Span} (h : s.unit = .millis) (hinf : s.isInfinite = false)
    (t : Int) : s.subtractFromMillis t = I64.subSat t s.value := by
  simp [subtractFromMillis, h, hinf]

end Span

namespace BucketGrid

open Instant

theorem start_months {g : BucketGrid} (hu : g.step.unit = .months) (t : Int) :
    g.start t =
      .ok (((monthStart? (monthOf t / g.step.value * g.step.value)).map millis).getD minMillis) := by
  simp only [start, hu]
  rfl

/-- The floored quotient of a number lying between two consecutive multiples of `v`. -/
theorem ediv_eq_of_mem {a b v : Int} (hv : 0 < v) (h₁ : b * v ≤ a) (h₂ : a < b * v + v) :
    a / v = b := by
  have hlo := Int.le_ediv_of_mul_le hv h₁
  have hhi := Int.ediv_lt_of_lt_mul hv (show a < (b + 1) * v by rw [Int.add_mul, Int.one_mul]; exact h₂)
  omega

section Months

variable {g : BucketGrid} (hu : g.step.unit = .months) (hv : 0 < g.step.value)
include hu hv

/-- On a grid of months, the bucket of an instant of the range starts at the first instant of
its first month, or at the first instant of the range when that month is before it. -/
theorem start_months_eq {t : Int} (h₁ : minMillis ≤ t) (h₂ : t ≤ maxMillis) :
    g.start t = .ok (monthStartMillis (max (monthOf t / g.step.value * g.step.value) (12 * minYear))) := by
  rw [start_months hu, monthStart?_map_millis]
  have hk := monthOf_mem h₁ h₂
  have hf : monthOf t / g.step.value * g.step.value ≤ monthOf t := Int.ediv_mul_le _ hv.ne'
  split_ifs with hin
  · rw [max_eq_left hin.1]
    rfl
  · rw [max_eq_right (by omega), ← minMillis_eq]
    rfl

/-- The bucket after one starting at the first instant of a month of the range starts `step`
months later, or at the last instant of the range when that is past it. -/
theorem nextStart_monthStartMillis {j : Int} (h₁ : 12 * minYear ≤ j) (h₂ : j < 12 * maxYear + 12) :
    g.nextStart (monthStartMillis j) =
      if j + g.step.value < 12 * maxYear + 12 then monthStartMillis (j + g.step.value)
      else maxMillis := by
  simp only [nextStart, hu, Span.addTo, Span.isInfinite_eq_false_of_months hu,
    Bool.false_eq_true, if_false]
  rw [addMonths?_monthStartMillis h₁ h₂ hv.ne', if_pos hv.le]
  have hmap := monthStart?_map_millis (j + g.step.value)
  cases hs : monthStart? (j + g.step.value) with
  | none =>
    rw [hs] at hmap
    split_ifs at hmap with hin
    · simp at hmap
    · rw [if_neg (fun h => hin ⟨by omega, h⟩)]
      simp only [Option.getD_none, millis, Instant.max, maxMillis, nanosPerMilli]
      omega
  | some u =>
    rw [hs] at hmap
    split_ifs at hmap with hin
    · rw [if_pos hin.2]
      simpa using hmap
    · simp at hmap

/-- The first instant of a month of the range lies in the bucket of its month. -/
theorem start_monthStartMillis {j : Int} (h₁ : 12 * minYear ≤ j) (h₂ : j < 12 * maxYear + 12) :
    g.start (monthStartMillis j) =
      .ok (monthStartMillis (max (j / g.step.value * g.step.value) (12 * minYear))) := by
  obtain ⟨hlo, hhi⟩ := monthStartMillis_mem h₁ h₂
  rw [start_months_eq hu hv hlo hhi, monthOf_monthStartMillis h₁ h₂]

/-- A month grid steps back from an instant whose month, moved back a step, stays in the range,
to an instant of that earlier month. -/
theorem subtractFromMillis_mem {t : Int} (h₁ : minMillis ≤ t) (h₂ : t ≤ maxMillis)
    (hk : 12 * minYear ≤ monthOf t - g.step.value) :
    let w := g.step.subtractFromMillis t
    minMillis ≤ w ∧ w ≤ maxMillis ∧ monthOf w = monthOf t - g.step.value := by
  intro w
  have hk' := monthOf_mem h₁ h₂
  obtain ⟨u, hu'⟩ := addMonths?_isSome h₁ h₂ (neg_ne_zero.mpr hv.ne') (by omega) (by omega)
  obtain ⟨-, hlo, hhi⟩ := millis_addMonths? h₁ h₂ (neg_ne_zero.mpr hv.ne') hu'
  have hw : w = u.millis := by
    simp only [w, Span.subtractFromMillis_months hu hv, hu', Option.getD_some]
  rw [← sub_eq_add_neg] at hlo hhi
  obtain ⟨hmlo, hmhi⟩ := monthStartMillis_mem hk (by omega)
  have hnext := monthStartMillis_strictMono.monotone
    (show monthOf t - g.step.value + 1 ≤ 12 * maxYear + 12 by omega)
  rw [← maxMillis_eq] at hnext
  refine ⟨by omega, by omega, ?_⟩
  rw [hw]
  exact monthOf_eq (by omega) (by omega) hlo hhi

/-- A month grid steps back from the first instant of a month to the first instant of the month
a step before, while that is in the range. -/
theorem subtractFromMillis_monthStartMillis {j : Int} (h₁ : 12 * minYear ≤ j - g.step.value)
    (h₂ : j < 12 * maxYear + 12) :
    g.step.subtractFromMillis (monthStartMillis j) = monthStartMillis (j - g.step.value) := by
  have hmap := monthStart?_map_millis (j - g.step.value)
  rw [if_pos ⟨h₁, by omega⟩] at hmap
  obtain ⟨u, hu', hm⟩ := Option.map_eq_some_iff.mp hmap
  rw [Span.subtractFromMillis_months hu hv, addMonths?_monthStartMillis (by omega) h₂
    (neg_ne_zero.mpr hv.ne'), ← sub_eq_add_neg, hu', Option.getD_some]
  exact hm

end Months

/-- The number of the bucket of `g` holding `t`: the floored quotient by the step of `t`, or,
for a step of months, of the month of `t`. -/
def index (g : BucketGrid) (t : Int) : Int :=
  match g.step.unit with
  | .millis => t / g.step.value
  | .months => monthOf t / g.step.value

/-- Whether bucket `j` of `g` starts where the grid can name it: at a 64-bit count of
milliseconds, or, for a step of months, at a month of the range of instants. -/
def Starts (g : BucketGrid) (j : Int) : Prop :=
  match g.step.unit with
  | .millis => I64.fits (j * g.step.value) = true
  | .months => 12 * minYear ≤ j * g.step.value ∧ j * g.step.value < 12 * maxYear + 12

/-- How the buckets of `g` lie around an instant `t` of the range whose bucket starts at `s` and
is followed by one starting at `n`. -/
structure TilesAt (g : BucketGrid) (t s n : Int) : Prop where
  start_eq : g.start t = .ok s
  nextAfter_eq : g.nextAfter t = .ok n
  start_le : s ≤ t
  start_start : g.start s = .ok s
  start_mono : ∀ u, t ≤ u → u ≤ maxMillis → ∃ s', g.start u = .ok s' ∧ s ≤ s'
  lt_next : t < n ∨ g.step.unit = .months ∧ t = maxMillis ∧ n = maxMillis
  start_clamp : ¬g.Starts (g.index t) → s = minMillis
  next_clamp : g.Starts (g.index t) → ¬g.Starts (g.index t + 1) → n = maxMillis
  start_next : g.Starts (g.index t) → g.Starts (g.index t + 1) → g.start n = .ok n
  back_next : g.Starts (g.index t) → g.Starts (g.index t + 1) → g.step.subtractFromMillis n = s
  next_back : g.Starts (g.index t - 1) → g.nextAfter (g.step.subtractFromMillis t) = .ok s
  starts_millis : g.step.unit = .millis → g.Starts (g.index t) ∧ g.Starts (g.index t + 1)

theorem nextAfter_of_start {g : BucketGrid} {t s : Int} (h : g.start t = .ok s) :
    g.nextAfter t = .ok (g.nextStart s) := by
  simp only [nextAfter, h]
  rfl

section Months

variable {g : BucketGrid} (hu : g.step.unit = .months) (hv : 0 < g.step.value)
include hu hv

theorem tilesAt_months {t : Int} (h₁ : minMillis ≤ t) (h₂ : t ≤ maxMillis) :
    ∃ s n, g.TilesAt t s n := by
  have hk := monthOf_mem h₁ h₂
  have hkt := monthOf_spec h₁ h₂
  obtain ⟨b, hb⟩ : ∃ b, monthOf t / g.step.value = b := ⟨_, rfl⟩
  have hf : b * g.step.value ≤ monthOf t := hb ▸ Int.ediv_mul_le _ hv.ne'
  have hf' : monthOf t < b * g.step.value + g.step.value := by
    have := Int.lt_ediv_add_one_mul_self (monthOf t) hv
    rw [hb, Int.add_mul, Int.one_mul] at this
    exact this
  have hindex : g.index t = b := by simp only [index, hu, hb]
  -- the buckets around `t`, by where their first months lie
  have hstarts : ∀ j, g.Starts j ↔
      12 * minYear ≤ j * g.step.value ∧ j * g.step.value < 12 * maxYear + 12 := by
    intro j
    simp only [Starts, hu]
  -- the bucket of `t` starts at month `m`, its own first month or the first of the range
  set m := max (b * g.step.value) (12 * minYear) with hm
  have hmr : 12 * minYear ≤ m ∧ m ≤ monthOf t := ⟨le_max_right _ _, max_le hf hk.1⟩
  have hstart : g.start t = .ok (monthStartMillis m) := by
    rw [start_months_eq hu hv h₁ h₂, hb]
  have hnext := nextStart_monthStartMillis hu hv hmr.1 (show m < 12 * maxYear + 12 by omega)
  have hmono := monthStartMillis_strictMono.monotone
  refine ⟨monthStartMillis m, g.nextStart (monthStartMillis m), ⟨hstart, nextAfter_of_start hstart,
    ?start_le, ?start_start, ?start_mono, ?lt_next, ?start_clamp, ?next_clamp, ?start_next,
    ?back_next, ?next_back, ?starts_millis⟩⟩
  case start_le => exact (hmono hmr.2).trans hkt.1
  case start_start =>
    rw [start_monthStartMillis hu hv hmr.1 (by omega)]
    congr 2
    by_cases hfb : 12 * minYear ≤ b * g.step.value
    · have hmb : m = b * g.step.value := max_eq_left hfb
      rw [hmb, Int.mul_ediv_cancel _ hv.ne', max_eq_left hfb]
    · have hmb : m = 12 * minYear := max_eq_right (by omega)
      have hq : 12 * minYear / g.step.value = b := ediv_eq_of_mem hv (by omega) (by omega)
      rw [hmb, hq, max_eq_right (by omega)]
  case start_mono =>
    intro u htu hu₂
    have hku := monthOf_mono h₁ h₂ (by omega) hu₂ htu
    have hbu : b * g.step.value ≤ monthOf u / g.step.value * g.step.value :=
      Int.mul_le_mul_of_nonneg_right (hb ▸ Int.ediv_le_ediv hv hku) hv.le
    refine ⟨_, start_months_eq hu hv (by omega) hu₂, hmono (max_le_max hbu (le_refl _))⟩
  case lt_next =>
    rw [hnext]
    split_ifs with htop
    · have := hmono (show monthOf t + 1 ≤ m + g.step.value by omega)
      omega
    · rcases (show t < maxMillis ∨ t = maxMillis by omega) with ht | ht
      · exact .inl ht
      · exact .inr ⟨hu, ht, rfl⟩
  case start_clamp =>
    intro hclamp
    rw [hindex, hstarts] at hclamp
    rw [hm, max_eq_right (by omega), ← minMillis_eq]
  case next_clamp =>
    intro hb₁ hb₂
    rw [hindex, hstarts] at hb₁
    rw [hindex, hstarts, Int.add_mul, Int.one_mul] at hb₂
    rw [hnext, if_neg (by omega)]
  case start_next =>
    intro hb₁ hb₂
    rw [hindex, hstarts] at hb₁
    rw [hindex, hstarts, Int.add_mul, Int.one_mul] at hb₂
    have hmb : m = b * g.step.value := max_eq_left hb₁.1
    rw [hnext, if_pos (by omega), start_monthStartMillis hu hv (by omega) (by omega), hmb,
      show b * g.step.value + g.step.value = (b + 1) * g.step.value by ring,
      Int.mul_ediv_cancel _ hv.ne', max_eq_left (by linarith)]
  case back_next =>
    intro hb₁ hb₂
    rw [hindex, hstarts] at hb₁
    rw [hindex, hstarts, Int.add_mul, Int.one_mul] at hb₂
    have hmb : m = b * g.step.value := max_eq_left hb₁.1
    rw [hnext, if_pos (by omega), subtractFromMillis_monthStartMillis hu hv (by omega) (by omega),
      add_sub_cancel_right]
  case next_back =>
    intro hb₁
    rw [hindex, hstarts, Int.sub_mul, Int.one_mul] at hb₁
    have hmb : m = b * g.step.value := max_eq_left (by omega)
    obtain ⟨hw₁, hw₂, hw⟩ := subtractFromMillis_mem hu hv h₁ h₂ (by omega)
    rw [nextAfter_of_start (start_months_eq hu hv hw₁ hw₂), hw,
      ediv_eq_of_mem hv (show (b - 1) * g.step.value ≤ monthOf t - g.step.value by linarith)
        (by linarith),
      max_eq_left (by linarith), nextStart_monthStartMillis hu hv (by linarith) (by linarith),
      if_pos (by linarith), hmb]
    congr 2
    ring
  case starts_millis =>
    intro hms
    rw [hu] at hms
    cases hms

end Months

/-! ### Grids of milliseconds -/

/-- The bucket of an instant of the range, and the one after it, start at 64-bit counts: a step
longer than the instant's distance from the epoch puts it in the bucket at 0 or at minus the
step, and a shorter one keeps the bucket within a step of it. -/
theorem bucket_fits_of_millis {v t : Int} (hv : 0 < v) (hmax : v < I64.max)
    (h₁ : minMillis ≤ t) (h₂ : t ≤ maxMillis) :
    I64.fits (t / v * v) = true ∧ I64.fits (t / v * v + v) = true := by
  generalize hq : t / v = q
  have hle : q * v ≤ t := hq ▸ Int.ediv_mul_le t hv.ne'
  have hlt : t < q * v + v := by
    have := Int.lt_ediv_add_one_mul_self t hv
    rwa [hq, Int.add_mul, Int.one_mul] at this
  -- where the multiple lies against `-2 * v`, `-v`, `0` and `v`, by the sign of the quotient
  have e1 : q ≤ -2 → q * v ≤ -2 * v := fun h => by nlinarith
  have e2 : q = -1 → q * v = -v := fun h => by subst h; ring
  have e3 : 0 ≤ q → 0 ≤ q * v := fun h => by positivity
  have e4 : 1 ≤ q → v ≤ q * v := fun h => by nlinarith
  have e5 : q = 0 → q * v = 0 := fun h => by subst h; ring
  simp only [Key.fits_iff, minMillis, maxMillis, I64.max] at h₁ h₂ hmax ⊢
  omega

/-- On a grid of milliseconds, the bucket of `t` starts at the multiple of the step at or below
`t`, while that is a 64-bit count. -/
theorem start_millis_eq {g : BucketGrid} (hu : g.step.unit = .millis) {t : Int}
    (h : I64.fits (t / g.step.value * g.step.value) = true) :
    g.start t = .ok (t / g.step.value * g.step.value) := by
  simp only [start, hu, I64.mul, I64.check, h, if_true]

section Millis

variable {g : BucketGrid} (hu : g.step.unit = .millis) (hv : 0 < g.step.value)
  (hmax : g.step.value < I64.max)
include hu hv hmax

theorem tilesAt_millis {t : Int} (h₁ : minMillis ≤ t) (h₂ : t ≤ maxMillis) :
    ∃ s n, g.TilesAt t s n := by
  obtain ⟨q, hq⟩ : ∃ q, t / g.step.value = q := ⟨_, rfl⟩
  obtain ⟨hfit, hfit'⟩ := bucket_fits_of_millis hv hmax h₁ h₂
  rw [hq] at hfit hfit'
  have hle : q * g.step.value ≤ t := hq ▸ Int.ediv_mul_le t hv.ne'
  have hlt : t < q * g.step.value + g.step.value := by
    have := Int.lt_ediv_add_one_mul_self t hv
    rwa [hq, Int.add_mul, Int.one_mul] at this
  have hindex : g.index t = q := by simp only [index, hu, hq]
  have hstarts : ∀ j, g.Starts j ↔ I64.fits (j * g.step.value) = true := by
    intro j
    simp only [Starts, hu]
  have hinf : g.step.isInfinite = false := by
    rw [Span.isInfinite, beq_eq_false_iff_ne]
    intro h
    rw [h] at hmax
    exact absurd hmax (lt_irrefl _)
  -- a multiple of the step is its own bucket
  have hself : ∀ j, I64.fits (j * g.step.value) = true → g.start (j * g.step.value) =
      .ok (j * g.step.value) := by
    intro j hj
    rw [start_millis_eq hu (by rwa [Int.mul_ediv_cancel _ hv.ne']),
      Int.mul_ediv_cancel _ hv.ne']
  have hstart : g.start t = .ok (q * g.step.value) := by
    rw [start_millis_eq hu (by rwa [hq]), hq]
  have hnext : g.nextStart (q * g.step.value) = q * g.step.value + g.step.value :=
    nextStart_of_millis hu (by rw [Key.fits_iff] at hfit'; exact hfit'.1)
      (by rw [Key.fits_iff] at hfit'; exact hfit'.2)
  refine ⟨q * g.step.value, q * g.step.value + g.step.value, ⟨hstart, hnext ▸ nextAfter_of_start hstart,
    hle, hself q hfit, ?start_mono, .inl hlt, ?start_clamp, ?next_clamp, ?start_next,
    ?back_next, ?next_back, ?starts_millis⟩⟩
  case start_mono =>
    intro u htu hu₂
    obtain ⟨hfu, -⟩ := bucket_fits_of_millis hv hmax (by omega) hu₂
    exact ⟨_, start_millis_eq hu hfu,
      hq ▸ Int.mul_le_mul_of_nonneg_right (Int.ediv_le_ediv hv htu) hv.le⟩
  case start_clamp =>
    intro hclamp
    rw [hindex, hstarts] at hclamp
    exact absurd hfit hclamp
  case next_clamp =>
    intro _ hclamp
    rw [hindex, hstarts, Int.add_mul, Int.one_mul] at hclamp
    exact absurd hfit' hclamp
  case start_next =>
    intro _ _
    have := hself (q + 1) (by rwa [Int.add_mul, Int.one_mul])
    rwa [Int.add_mul, Int.one_mul] at this
  case back_next =>
    intro _ _
    rw [Span.subtractFromMillis_millis hu hinf, I64.subSat, add_sub_cancel_right,
      I64.clamp_of_fits hfit]
  case next_back =>
    intro hback
    rw [hindex, hstarts] at hback
    have hb := Key.fits_iff.mp hback
    have hb' := Key.fits_iff.mp hfit
    rw [Int.sub_mul, Int.one_mul] at hb
    -- a step back from `t` lands in the bucket before, which is a 64-bit count
    have hsub : g.step.subtractFromMillis t = t - g.step.value := by
      rw [Span.subtractFromMillis_millis hu hinf, I64.subSat,
        I64.clamp_of_fits (Key.fits_iff.mpr ⟨by omega, by omega⟩)]
    have hq' : (t - g.step.value) / g.step.value = q - 1 :=
      ediv_eq_of_mem hv (by rw [Int.sub_mul, Int.one_mul]; omega)
        (by rw [Int.sub_mul, Int.one_mul]; omega)
    have hback' : (q - 1) * g.step.value + g.step.value = q * g.step.value := by ring
    rw [hsub, nextAfter_of_start (start_millis_eq hu (by rwa [hq'])), hq',
      nextStart_of_millis hu (by rw [hback', I64.min]; omega) (by rw [hback', I64.max]; omega),
      hback']
  case starts_millis =>
    intro _
    rw [hindex, hstarts, hstarts, Int.add_mul, Int.one_mul]
    exact ⟨hfit, hfit'⟩

end Millis

/-! ### Every accepted step tiles the range -/

/-- A grid is made only of a positive step that is not the infinite one. -/
theorem ofSpan_eq_ok {step : Span} {g : BucketGrid} (hg : ofSpan step = .ok g) :
    g = ⟨step⟩ ∧ 0 < step.value ∧ step.isInfinite = false := by
  unfold ofSpan at hg
  split at hg
  · cases hg
  · next h =>
    cases hg
    simp only [Bool.or_eq_true, Bool.not_eq_true', not_or, Bool.not_eq_false, Span.isPositive,
      decide_eq_true_eq] at h
    exact ⟨rfl, h.1, by simpa using h.2⟩

/-- Buckets tile the range of instants. For a 64-bit step that a grid accepts, every instant of
the range has a bucket start at or below it and a following start, both computed without fault.
The start is its own bucket's start and grows with the instant. The following start lies past
the instant, but for a grid of months at the last instant of the range, where it stops. Where the
bucket and the next one start in the range, the following start is a bucket start and a step
back from it is the bucket's start. Where the bucket before starts in the range, the following
start of the instant a step back is the bucket's start. A grid of months clamps the buckets that
start outside the range to its ends; on a grid of milliseconds every bucket of the range and the
one after it start at 64-bit counts. -/
theorem tiles_time_line {step : Span} {g : BucketGrid} (hg : ofSpan step = .ok g)
    (hfit : I64.fits step.value = true) {t : Int} (h₁ : minMillis ≤ t) (h₂ : t ≤ maxMillis) :
    ∃ s n, g.TilesAt t s n := by
  obtain ⟨rfl, hv, hinf⟩ := ofSpan_eq_ok hg
  cases hu : step.unit with
  | millis =>
    -- the only 64-bit step of milliseconds that is not below the top is the infinite one
    have hmax : step.value < I64.max := by
      have hne : step.value ≠ I64.max := by
        intro he
        rw [Span.isInfinite, beq_eq_false_iff_ne] at hinf
        exact hinf (by cases step; simp_all [Span.infinite])
      simp only [I64.fits, Bool.and_eq_true, decide_eq_true_eq] at hfit
      omega
    exact tilesAt_millis hu hv hmax h₁ h₂
  | months => exact tilesAt_months hu hv h₁ h₂

/-- Hourly buckets tile the range at the epoch. -/
theorem tiles_time_line_hourly :
    ofSpan ⟨3600000, .millis⟩ = .ok ⟨⟨3600000, .millis⟩⟩ ∧ I64.fits 3600000 = true ∧
      ∃ s n, (⟨⟨3600000, .millis⟩⟩ : BucketGrid).TilesAt 0 s n := by
  have hg : ofSpan ⟨3600000, .millis⟩ = .ok ⟨⟨3600000, .millis⟩⟩ := by decide
  have hfit : I64.fits 3600000 = true := by decide
  exact ⟨hg, hfit, tiles_time_line hg hfit (by decide) (by decide)⟩

/-- The tiling stops at the ends of the range and of the 64-bit counts. A grid of one month
stops at the last instant of the range: the bucket after it starts at the instant itself. A grid
of milliseconds with a step above 2^62 faults on the bucket a step back from just before the
epoch, whose start is below the least 64-bit count. -/
theorem tiling_stops_at_ends :
    ofSpan ⟨1, .months⟩ = .ok ⟨⟨1, .months⟩⟩ ∧
      (⟨⟨1, .months⟩⟩ : BucketGrid).nextAfter maxMillis = .ok maxMillis ∧
      ofSpan ⟨2 ^ 62 + 1, .millis⟩ = .ok ⟨⟨2 ^ 62 + 1, .millis⟩⟩ ∧
      (⟨⟨2 ^ 62 + 1, .millis⟩⟩ : BucketGrid).nextAfter
        ((⟨2 ^ 62 + 1, .millis⟩ : Span).subtractFromMillis (-1)) = .error .overflow := by
  decide

end BucketGrid

end SeriesStore
