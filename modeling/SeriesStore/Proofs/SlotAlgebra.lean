import SeriesStore.Proofs.Number.Doubles
import SeriesStore.Aggregation

/-!
# One slot at a time

A step folds a number into a slot by the slot's kind and passes a NaN over (`absorb`). For the
kinds whose slot keeps one of the numbers it was given, first, last, least and greatest
(`selects`), this is an associative operation with NaN on its right as identity
(`absorb_assoc`). A slot therefore takes a list of numbers as it takes their own fold from NaN
(`foldl_absorb`): however the numbers are grouped, into rollups of rollups or into the
summaries of whole segments, the slot ends the same.

Least and greatest choose by the numbers' keys alone, so slots that are both NaN, or hold
numbers of one key (`SameKey`), stay so when related numbers are folded into them
(`SameKey.absorb`). A count slot counts exactly while its count stays within `2 ^ 53`
(`fold_count_ofNat`).
-/

namespace SeriesStore

open Double

namespace AggregationKind

/-- Fold a value into a slot of kind `k`, a NaN passed over, as a step does. -/
def absorb (k : AggregationKind) (x v : Double) : Double := if v.isNaN then x else k.fold x v

/-- The kinds whose slot holds one of the numbers it was given. -/
def selects : AggregationKind → Bool
  | .first | .last | .min | .max => true
  | .sum | .count | .average => false

theorem selects_iff {k : AggregationKind} :
    k.selects = true ↔ k = .first ∨ k = .last ∨ k = .min ∨ k = .max := by
  cases k <;> simp [selects]

/-- Every slot selects, or is a sum or a count. -/
theorem selects_ofSlot (j : Nat) :
    (ofSlot j).selects = true ∨ ofSlot j = .sum ∨ ofSlot j = .count := by
  have h := Nat.mod_lt j (show 0 < slotCount by decide)
  simp only [ofSlot, slots, slotCount] at h ⊢
  interval_cases j % 6 <;> simp [selects]

variable {k : AggregationKind} {x v w : Double}

@[simp] theorem absorb_nan (k : AggregationKind) (x : Double) : k.absorb x Double.nan = x :=
  if_pos (by decide)

theorem absorb_of_isNaN (hv : v.isNaN = true) : k.absorb x v = x := if_pos hv

theorem absorb_of_number (hv : v.isNaN = false) : k.absorb x v = k.fold x v :=
  if_neg (by simp [hv])

/-! ## Slots that select -/

section Selects

variable (hk : k.selects = true)
include hk

/-- A selecting slot starts as NaN. -/
theorem initial_of_selects : k.initial = Double.nan := by
  cases k <;> simp_all [selects, initial]

/-- A selecting slot that holds no number takes the number given. -/
theorem fold_of_isNaN (hx : x.isNaN = true) : k.fold x v = v := by
  cases k <;> simp_all [selects, fold]

/-- A selecting slot keeps one of its two numbers. -/
theorem fold_eq_or (hx : x.isNaN = false) : k.fold x v = x ∨ k.fold x v = v := by
  cases k <;> simp only [selects, Bool.false_eq_true] at hk
  case first | last => simp [fold, hx]
  case min | max =>
    simp only [fold, hx, Bool.false_or]
    split_ifs <;> simp

theorem isNaN_fold (hx : x.isNaN = false) (hv : v.isNaN = false) : (k.fold x v).isNaN = false := by
  rcases fold_eq_or hk (v := v) hx with h | h <;> rw [h] <;> assumption

end Selects

/-- On numbers, a least slot takes a number of smaller key and keeps its own on a tie. -/
theorem fold_min (hx : x.isNaN = false) (hv : v.isNaN = false) :
    min.fold x v = if v.orderKey < x.orderKey then v else x := by
  simp only [fold, hx, Bool.false_or]
  by_cases h : v.orderKey < x.orderKey
  · rw [if_pos ((lt_eq_true_iff hv hx).mpr h), if_pos h]
  · rw [if_neg (mt (lt_eq_true_iff hv hx).mp h), if_neg h]

/-- On numbers, a greatest slot takes a number of larger key and keeps its own on a tie. -/
theorem fold_max (hx : x.isNaN = false) (hv : v.isNaN = false) :
    max.fold x v = if x.orderKey < v.orderKey then v else x := by
  simp only [fold, hx, Bool.false_or]
  by_cases h : x.orderKey < v.orderKey
  · rw [if_pos ((lt_eq_true_iff hx hv).mpr h), if_pos h]
  · rw [if_neg (mt (lt_eq_true_iff hx hv).mp h), if_neg h]

/-- Folding numbers into a slot that holds one: the earliest extreme number wins, whichever
pair is folded first. -/
theorem fold_assoc_of_numbers (hk : k.selects = true) (hx : x.isNaN = false)
    (hv : v.isNaN = false) (hw : w.isNaN = false) :
    k.fold (k.fold x v) w = k.fold x (k.fold v w) := by
  cases k <;> simp only [selects, Bool.false_eq_true] at hk
  case first => simp [fold, hx]
  case last => rfl
  case min =>
    rw [fold_min hx hv, fold_min hv hw]
    by_cases hvx : v.orderKey < x.orderKey <;> by_cases hwv : w.orderKey < v.orderKey <;>
      simp only [hvx, hwv, if_true, if_false, fold_min hx hv, fold_min hx hw, fold_min hv hw]
    all_goals split_ifs <;> first | rfl | omega
  case max =>
    rw [fold_max hx hv, fold_max hv hw]
    by_cases hvx : x.orderKey < v.orderKey <;> by_cases hwv : v.orderKey < w.orderKey <;>
      simp only [hvx, hwv, if_true, if_false, fold_max hx hv, fold_max hx hw, fold_max hv hw]
    all_goals split_ifs <;> first | rfl | omega

/-- A selecting slot folds associatively. -/
theorem absorb_assoc (hk : k.selects = true) (x v w : Double) :
    k.absorb (k.absorb x v) w = k.absorb x (k.absorb v w) := by
  cases hw : w.isNaN
  case true => rw [absorb_of_isNaN hw, absorb_of_isNaN hw]
  case false =>
    cases hv : v.isNaN
    case true =>
      -- a NaN in the middle is passed over on both sides
      rw [absorb_of_isNaN hv, absorb_of_number (x := v) hw, fold_of_isNaN hk hv]
    case false =>
      rw [absorb_of_number hv, absorb_of_number hw, absorb_of_number hw,
        absorb_of_number (isNaN_fold hk hv hw)]
      cases hx : x.isNaN
      case true => rw [fold_of_isNaN hk hx, fold_of_isNaN hk hx]
      case false => exact fold_assoc_of_numbers hk hx hv hw

/-- A selecting slot takes a list of values as it takes their own fold from NaN. -/
theorem foldl_absorb (hk : k.selects = true) (x : Double) (l : List Double) :
    l.foldl k.absorb x = k.absorb x (l.foldl k.absorb Double.nan) := by
  have : Std.Associative k.absorb := ⟨absorb_assoc hk⟩
  conv_lhs => rw [← absorb_nan k x]
  exact List.foldl_assoc

/-! ## Counts -/

/-- A count slot holding a count adds a count exactly, within `2 ^ 53`. -/
theorem fold_count_ofNat {a b : Nat} (h : a + b ≤ 2 ^ 53) :
    count.fold (Double.ofNat a) (Double.ofNat b) = Double.ofNat (a + b) := by
  simp only [fold, isNaN_ofNat (show a ≤ 2 ^ 53 by omega), Bool.false_eq_true, if_false]
  exact ofNat_add_ofNat (by omega) (by omega)

end AggregationKind

/-! ## Slots no comparison tells apart -/

namespace Double

/-- Two slot values that no comparison tells apart: both NaNs, or numbers of one key. -/
def SameKey (a b : Double) : Prop := a.isNaN = b.isNaN ∧ (a.isNaN = false → a.orderKey = b.orderKey)

theorem SameKey.refl (a : Double) : SameKey a a := ⟨rfl, fun _ => rfl⟩

theorem SameKey.of_numbers {a b : Double} (ha : a.isNaN = false) (hb : b.isNaN = false)
    (h : a.orderKey = b.orderKey) : SameKey a b :=
  ⟨ha.trans hb.symm, fun _ => h⟩

end Double

namespace AggregationKind

/-- Least and greatest slots decide by keys: related values folded into related slots leave
them related. -/
theorem SameKey.absorb {k : AggregationKind} (hk : k = .min ∨ k = .max) {x y v w : Double}
    (hxy : SameKey x y) (hvw : SameKey v w) : SameKey (k.absorb x v) (k.absorb y w) := by
  have hsel : k.selects = true := by rcases hk with rfl | rfl <;> rfl
  cases hv : v.isNaN
  case true => rwa [absorb_of_isNaN hv, absorb_of_isNaN (hvw.1 ▸ hv)]
  case false =>
    have hw : w.isNaN = false := hvw.1 ▸ hv
    have hkey := hvw.2 hv
    rw [absorb_of_number hv, absorb_of_number hw]
    cases hx : x.isNaN
    case true => rw [fold_of_isNaN hsel hx, fold_of_isNaN hsel (hxy.1 ▸ hx)]; exact hvw
    case false =>
      have hy : y.isNaN = false := hxy.1 ▸ hx
      have hxkey := hxy.2 hx
      rcases hk with rfl | rfl
      · rw [fold_min hx hv, fold_min hy hw, hkey, hxkey]
        split_ifs
        · exact SameKey.of_numbers hv hw hkey
        · exact SameKey.of_numbers hx hy hxkey
      · rw [fold_max hx hv, fold_max hy hw, hkey, hxkey]
        split_ifs
        · exact SameKey.of_numbers hv hw hkey
        · exact SameKey.of_numbers hx hy hxkey

end AggregationKind

end SeriesStore
