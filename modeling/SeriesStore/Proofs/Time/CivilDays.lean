import Mathlib
import SeriesStore.Time.Calendar

/-!
# Days and civil dates

`Calendar.daysOfCivil` and `Calendar.civilOfDays` count days in eras of 400 years, with years
starting in March so that the leap day closes a year. Read that way, the first day of March of
year `y` lies `marchDays y` days after the first of March of year 0, and the first day of every
month is a closed form of the month's number `k = 12 y + (m - 1)` (`monthFirstDay`):

    daysOfCivil y m d = monthFirstDay (12 y + (m - 1)) + (d - 1)              (daysOfCivil_eq)
    monthFirstDay (k + 1) = monthFirstDay k + monthDays y m                  (monthFirstDay_next)

So the first days of months increase strictly, and the months tile the days. `civilOfDays z`
finds the month whose days hold `z` and the day within it (`civilOfDays_of_mem`). The one step
that is not plain arithmetic is the year of the era the day count reads off its quotients by
1460, 36524 and 146096 (`yearOfEra_spec`): an era has four centuries of 36524 days, the last one
a day longer, each of 25 blocks of four years that end with their leap day.
-/

namespace SeriesStore

namespace Calendar

/-- Days from the first of March of year 0 to the first of March of year `y`: 365 a year, and
one more for each leap day between. -/
def marchDays (y : Int) : Int := 365 * y + y / 4 - y / 100 + y / 400

/-- The day, counted from 1970-01-01, of the first day of month `k`, months being counted from
January of year 0: the month `(k - 2) % 12` of the year starting in March of year
`(k - 2) / 12`. -/
def monthFirstDay (k : Int) : Int :=
  marchDays ((k - 2) / 12) + (153 * ((k - 2) % 12) + 2) / 5 - 719468

/-! ## Years from March -/

/-- What an era of 400 years computes, in the days of its March-based years. -/
theorem marchDays_era (y : Int) :
    y / 400 * 146097 + ((y - y / 400 * 400) * 365 + (y - y / 400 * 400) / 4 -
      (y - y / 400 * 400) / 100) = marchDays y := by
  unfold marchDays
  omega

theorem marchDays_add_era (y e : Int) : marchDays (y + e * 400) = marchDays y + e * 146097 := by
  unfold marchDays
  omega

/-- Years of an era by century, block of four years and year of the block. -/
theorem marchDays_block {c q j : Int} (hc0 : 0 ≤ c) (hc : c ≤ 3) (hq0 : 0 ≤ q) (hq : q ≤ 24)
    (hj0 : 0 ≤ j) (hj : j ≤ 3) :
    marchDays (100 * c + 4 * q + j) = 36524 * c + 1461 * q + 365 * j := by
  unfold marchDays
  omega

/-- The March-based year before `y + 1` holds the leap day of `y + 1`, if it has one. -/
theorem marchDays_succ (y : Int) :
    marchDays (y + 1) = marchDays y + if isLeap (y + 1) then 366 else 365 := by
  unfold marchDays isLeap
  split_ifs with h
  · simp only [Bool.and_eq_true, beq_iff_eq, Bool.or_eq_true, bne_iff_ne, ne_eq] at h
    omega
  · simp only [Bool.and_eq_true, beq_iff_eq, Bool.or_eq_true, bne_iff_ne, ne_eq, not_and,
      not_or, not_not] at h
    omega

/-- The year of its era a day lies in, as the day count reads it off its quotients. -/
theorem yearOfEra_spec {doe : Int} (h0 : 0 ≤ doe) (h1 : doe < 146097) :
    let yoe := (doe - doe / 1460 + doe / 36524 - doe / 146096) / 365
    0 ≤ yoe ∧ yoe < 400 ∧ marchDays yoe ≤ doe ∧ doe < marchDays (yoe + 1) := by
  intro yoe
  obtain ⟨c, u, hc0, hc3, hu0, hu1, hdoe, hlast⟩ : ∃ c u : Int, 0 ≤ c ∧ c ≤ 3 ∧ 0 ≤ u ∧
      u ≤ 36524 ∧ doe = 36524 * c + u ∧ (u = 36524 → c = 3) := by
    by_cases h : doe / 36524 ≤ 3
    · exact ⟨doe / 36524, doe % 36524, by omega, h, by omega, by omega, by omega, by omega⟩
    · exact ⟨3, doe - 36524 * 3, by omega, le_refl _, by omega, by omega, by omega, fun _ => rfl⟩
  obtain ⟨q, r, hq0, hq, hr0, hr, hu⟩ : ∃ q r : Int, 0 ≤ q ∧ q ≤ 24 ∧ 0 ≤ r ∧ r ≤ 1460 ∧
      u = 1461 * q + r :=
    ⟨u / 1461, u % 1461, by omega, by omega, by omega, by omega, by omega⟩
  subst hdoe hu
  -- the quotients by 1460, 36524 and 146096 count blocks, centuries and the era's last day
  have e1 : (36524 * c + (1461 * q + r)) / 1460 = 25 * c + q + (24 * c + q + r) / 1460 := by
    omega
  have e2 : (36524 * c + (1461 * q + r)) / 36524 - (36524 * c + (1461 * q + r)) / 146096 = c := by
    omega
  have hy : yoe = 100 * c + 4 * q + (r - (24 * c + q + r) / 1460) / 365 := by
    simp only [yoe]
    omega
  have hlast' : q = 24 → c = 3 ∨ r ≤ 1459 := by omega
  generalize hd : (24 * c + q + r) / 1460 = δ at hy
  generalize hj : (r - δ) / 365 = j at hy
  have hδ : δ = 0 ∧ 24 * c + q + r < 1460 ∨ δ = 1 ∧ 1460 ≤ 24 * c + q + r := by omega
  have hjr : 365 * j ≤ r - δ ∧ r - δ < 365 * j + 365 := by omega
  have hj0 : 0 ≤ j := by omega
  have hj3 : j ≤ 3 := by omega
  rw [hy]
  refine ⟨by omega, by omega, ?_, ?_⟩
  · rw [marchDays_block hc0 hc3 hq0 hq hj0 hj3]
    omega
  -- the next year starts in the same block, the next block, the next century or the next era
  rcases (show j < 3 ∨ j = 3 by omega) with hj | rfl
  · rw [show 100 * c + 4 * q + j + 1 = 100 * c + 4 * q + (j + 1) by ring,
      marchDays_block hc0 hc3 hq0 hq (by omega) (by omega)]
    omega
  rcases (show q < 24 ∨ q = 24 by omega) with hq' | rfl
  · rw [show 100 * c + 4 * q + 3 + 1 = 100 * c + 4 * (q + 1) + 0 by ring,
      marchDays_block hc0 hc3 (by omega) (by omega) (le_refl 0) (by norm_num)]
    omega
  rcases (show c < 3 ∨ c = 3 by omega) with hc' | rfl
  · rw [show 100 * c + 4 * 24 + 3 + 1 = 100 * (c + 1) + 4 * 0 + 0 by ring,
      marchDays_block (by omega) (by omega) (le_refl 0) (by norm_num) (le_refl 0) (by norm_num)]
    omega
  · have h400 : marchDays (100 * 3 + 4 * 24 + 3 + 1) = 146097 := by norm_num [marchDays]
    rw [h400]
    omega

/-! ## First days of months -/

/-- The first day of month `j` of the year that starts in March of year `y`. -/
theorem monthFirstDay_march (y j : Int) (h0 : 0 ≤ j) (h1 : j < 12) :
    monthFirstDay (12 * y + j + 2) = marchDays y + (153 * j + 2) / 5 - 719468 := by
  unfold monthFirstDay
  rw [show 12 * y + j + 2 - 2 = j + y * 12 by ring, Int.add_mul_ediv_right _ _ (by norm_num),
    Int.add_mul_emod_self_right, Int.ediv_eq_zero_of_lt h0 h1, Int.emod_eq_of_lt h0 h1, zero_add]

theorem daysOfCivil_eq {y : Int} {m : Nat} (d : Nat) (h1 : 1 ≤ m) (h12 : m ≤ 12) :
    daysOfCivil y m d = monthFirstDay (y * 12 + ((m : Int) - 1)) + ((d : Int) - 1) := by
  unfold daysOfCivil monthFirstDay
  by_cases hm : m ≤ 2
  · have hY : (y * 12 + ((m : Int) - 1) - 2) / 12 = y - 1 := by omega
    have hR : (y * 12 + ((m : Int) - 1) - 2) % 12 = m + 9 := by omega
    have e := marchDays_era (y - 1)
    simp only [hm, if_true, show ¬ m > 2 by omega, if_false, hY, hR]
    omega
  · have hY : (y * 12 + ((m : Int) - 1) - 2) / 12 = y := by omega
    have hR : (y * 12 + ((m : Int) - 1) - 2) % 12 = m - 3 := by omega
    have e := marchDays_era y
    simp only [hm, if_false, show m > 2 by omega, if_true, hY, hR]
    omega

/-- Each month starts `monthDays` days after the one before. -/
theorem monthFirstDay_next (y : Int) {m : Nat} (h1 : 1 ≤ m) (h12 : m ≤ 12) :
    monthFirstDay (y * 12 + ((m : Int) - 1) + 1) =
      monthFirstDay (y * 12 + ((m : Int) - 1)) + monthDays y m := by
  rcases (show m ≤ 2 ∨ 3 ≤ m by omega) with hm | hm
  -- January and February close the March-based year before `y`; February ends it
  · have hfeb := marchDays_succ (y - 1)
    rw [show y - 1 + 1 = y by ring] at hfeb
    interval_cases m
    · rw [show y * 12 + ((1 : Nat) - 1 : Int) + 1 = 12 * (y - 1) + 11 + 2 by push_cast; ring,
        show y * 12 + ((1 : Nat) - 1 : Int) = 12 * (y - 1) + 10 + 2 by push_cast; ring,
        monthFirstDay_march _ _ (by norm_num) (by norm_num),
        monthFirstDay_march _ _ (by norm_num) (by norm_num)]
      simp only [monthDays]
      omega
    · rw [show y * 12 + ((2 : Nat) - 1 : Int) + 1 = 12 * y + 0 + 2 by push_cast; ring,
        show y * 12 + ((2 : Nat) - 1 : Int) = 12 * (y - 1) + 11 + 2 by push_cast; ring,
        monthFirstDay_march _ _ (by norm_num) (by norm_num),
        monthFirstDay_march _ _ (by norm_num) (by norm_num), hfeb]
      simp only [monthDays]
      split_ifs <;> omega
  · rw [show y * 12 + ((m : Int) - 1) + 1 = 12 * y + ((m : Int) - 2) + 2 by ring,
      show y * 12 + ((m : Int) - 1) = 12 * y + ((m : Int) - 3) + 2 by ring,
      monthFirstDay_march _ _ (by omega) (by omega), monthFirstDay_march _ _ (by omega) (by omega)]
    interval_cases m <;> simp only [monthDays] <;> omega

theorem monthDays_ge (y : Int) (m : Nat) : 28 ≤ monthDays y m := by
  unfold monthDays
  split
  · split <;> omega
  all_goals omega

theorem monthFirstDay_lt_succ (k : Int) : monthFirstDay k < monthFirstDay (k + 1) := by
  have hk : k = k / 12 * 12 + ((((k % 12).toNat + 1 : Nat) : Int) - 1) := by omega
  have h := monthFirstDay_next (k / 12) (m := (k % 12).toNat + 1) (by omega) (by omega)
  rw [← hk] at h
  have := monthDays_ge (k / 12) ((k % 12).toNat + 1)
  omega

theorem monthFirstDay_strictMono : StrictMono monthFirstDay :=
  strictMono_int_of_lt_succ monthFirstDay_lt_succ

/-- A day lies in one month only. -/
theorem month_unique {k k' z : Int} (h₁ : monthFirstDay k ≤ z) (h₂ : z < monthFirstDay (k + 1))
    (h₁' : monthFirstDay k' ≤ z) (h₂' : z < monthFirstDay (k' + 1)) : k = k' := by
  have hlt := monthFirstDay_strictMono.lt_iff_lt.mp (lt_of_le_of_lt h₁ h₂')
  have hlt' := monthFirstDay_strictMono.lt_iff_lt.mp (lt_of_le_of_lt h₁' h₂)
  omega

/-! ## Civil dates of days -/

/-- The civil date of a day is a month whose days hold it, and the day's place in that month. -/
theorem civilOfDays_spec (z : Int) :
    let c := civilOfDays z
    let k := c.1 * 12 + ((c.2.1 : Int) - 1)
    1 ≤ c.2.1 ∧ c.2.1 ≤ 12 ∧ monthFirstDay k ≤ z ∧ z < monthFirstDay (k + 1) ∧
      (c.2.2 : Int) = z - monthFirstDay k + 1 := by
  intro c k
  simp only [c, k, civilOfDays]
  generalize hera : (z + 719468) / 146097 = era
  have hdoe : 0 ≤ z + 719468 - era * 146097 ∧ z + 719468 - era * 146097 < 146097 := by omega
  have H := yearOfEra_spec hdoe.1 hdoe.2
  generalize hdoe' : z + 719468 - era * 146097 = doe at H hdoe ⊢
  simp only at H
  generalize hyoe : (doe - doe / 1460 + doe / 36524 - doe / 146096) / 365 = yoe at H ⊢
  obtain ⟨hy0, hy400, hlo, hhi⟩ := H
  -- the day of the March-based year, and its month counted from March
  have hlen := marchDays_succ yoe
  have hdoy : 365 * yoe + yoe / 4 - yoe / 100 = marchDays yoe := by unfold marchDays; omega
  rw [hdoy]
  generalize hdoy' : doe - marchDays yoe = doy
  generalize hmp : (5 * doy + 2) / 153 = mp
  have hmp' : 0 ≤ mp ∧ mp < 12 ∧ (153 * mp + 2) / 5 ≤ doy := by split_ifs at hlen <;> omega
  generalize hm : (if mp < 10 then mp + 3 else mp - 9) = m
  have hm' : mp < 10 ∧ m = mp + 3 ∨ 10 ≤ mp ∧ m = mp - 9 := by split_ifs at hm <;> omega
  generalize hy : (if m ≤ 2 then yoe + era * 400 + 1 else yoe + era * 400) = y
  have hy' : y * 12 + ((m.toNat : Int) - 1) = 12 * (yoe + era * 400) + mp + 2 := by
    split_ifs at hy <;> omega
  rw [hy', monthFirstDay_march _ _ hmp'.1 hmp'.2.1, marchDays_add_era]
  have hnext : monthFirstDay (12 * (yoe + era * 400) + mp + 2 + 1) ≥
      marchDays yoe + era * 146097 + doy + 1 - 719468 := by
    rcases (show mp < 11 ∨ mp = 11 by omega) with h11 | rfl
    · rw [show 12 * (yoe + era * 400) + mp + 2 + 1 = 12 * (yoe + era * 400) + (mp + 1) + 2 by ring,
        monthFirstDay_march _ _ (by omega) (by omega), marchDays_add_era]
      omega
    · rw [show 12 * (yoe + era * 400) + 11 + 2 + 1 = 12 * (yoe + 1 + era * 400) + 0 + 2 by ring,
        monthFirstDay_march _ _ (le_refl 0) (by norm_num), marchDays_add_era]
      split_ifs at hlen <;> omega
  refine ⟨by omega, by omega, by omega, by omega, by omega⟩

/-- A day between the first days of month `k` and of the month after has month `k`. -/
theorem civilOfDays_of_mem {k z : Int} (h₁ : monthFirstDay k ≤ z) (h₂ : z < monthFirstDay (k + 1)) :
    (civilOfDays z).1 * 12 + (((civilOfDays z).2.1 : Int) - 1) = k ∧
      ((civilOfDays z).2.2 : Int) = z - monthFirstDay k + 1 := by
  obtain ⟨-, -, hlo, hhi, hday⟩ := civilOfDays_spec z
  have hk := month_unique hlo hhi h₁ h₂
  exact ⟨hk, hk ▸ hday⟩

end Calendar

end SeriesStore
