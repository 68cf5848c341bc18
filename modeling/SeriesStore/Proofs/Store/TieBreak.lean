import Mathlib
import SeriesStore.Proofs.Store.ReaderSummary
import SeriesStore.Proofs.Store.PointOrder

/-!
# The tie-break between a stored point and a replicated one

When a replicated point meets a stored one at the same instant, `Point.keepLocal` decides which
stays. It looks at the values alone, trailing NaN padding cut off: more values win, then the
first place where the values differ, NaN lowest and numbers in their IEEE order. Each value thus
has a rank (`Double.rank`, a NaN below every number), and the tie-break is the `≥` of a total
preorder on the ranks:

* of two points, at least one keeps itself against the other (`keepLocal_total`);
* both do exactly when their values tie (`keepLocal_both_iff`): as many values once the padding
  is cut, and in each place two NaNs or two numbers of one key.

A tie is not sameness: tags are never compared, nor are NaN payloads, and `0` ties `-0`
(`rank_eq_iff`, `orderKey_eq_iff`). Points whose values do not tie are ordered strictly, and
points that tie each stay where they are stored (`keepLocal_tags_tie`). So two replicas that
merge each other's points keep the same instants, and at each the same point unless the values
tie (`merge_replicas_agree_up_to_ties`).
-/

namespace SeriesStore

namespace Double

/-! ## The rank of a value -/

/-- Where a value stands in the tie-break: a NaN below every number, a number by its key. -/
def rank (x : Double) : WithBot Int := if x.isNaN then ⊥ else (x.orderKey : WithBot Int)

variable {a b : Double}

theorem rank_of_isNaN (h : a.isNaN = true) : a.rank = ⊥ := by simp [rank, h]

theorem rank_of_number (h : a.isNaN = false) : a.rank = a.orderKey := by simp [rank, h]

/-- The key of a pattern through its natural number: the low 63 bits, negated when the top bit
is set. -/
theorem orderKey_eq_toNat (x : Double) :
    x.orderKey = if 2 ^ 63 ≤ x.bits.toNat then -((x.bits.toNat % 2 ^ 63 : Nat) : Int)
      else (x.bits.toNat : Int) := by
  have hlt := x.bits.toNat_lt
  have hmag : (x.bits &&& 0x7fffffffffffffff).toNat = x.bits.toNat % 2 ^ 63 := by
    rw [UInt64.toNat_and, show (0x7fffffffffffffff : UInt64).toNat = 2 ^ 63 - 1 from rfl,
      Nat.and_two_pow_sub_one_eq_mod]
  simp only [orderKey, hmag, signBit_eq, decide_eq_true_eq]
  split_ifs with h
  · rfl
  · rw [Nat.mod_eq_of_lt (by omega)]

/-- Two patterns share a key exactly when they are equal or both are zeros. -/
theorem orderKey_eq_iff :
    a.orderKey = b.orderKey ↔ a = b ∨ (a.orderKey = 0 ∧ b.orderKey = 0) := by
  have hab : a = b ↔ a.bits.toNat = b.bits.toNat := by
    rw [UInt64.toNat_inj]
    exact ⟨fun h => h ▸ rfl, fun h => by cases a; cases b; cases h; rfl⟩
  have ha := a.bits.toNat_lt
  have hb := b.bits.toNat_lt
  rw [hab, orderKey_eq_toNat, orderKey_eq_toNat]
  split_ifs <;> omega

/-- Two values rank alike when both are NaN, or both are numbers of one key. -/
theorem rank_eq_iff :
    a.rank = b.rank ↔ (a.isNaN = true ∧ b.isNaN = true) ∨
      (a.isNaN = false ∧ b.isNaN = false ∧ a.orderKey = b.orderKey) := by
  cases ha : a.isNaN <;> cases hb : b.isNaN <;>
    simp [rank_of_isNaN, rank_of_number, ha, hb]

end Double

open Double

namespace Point

/-! ## Comparing values, NaN lowest -/

/-- Comparing two values with NaN lowest compares their ranks. -/
theorem compareNanLowest_eq_compare (a b : Double) :
    compareNanLowest a b = compare a.rank b.rank := by
  unfold compareNanLowest
  cases ha : a.isNaN <;> cases hb : b.isNaN <;> dsimp only
  · -- two numbers: by their keys
    rw [rank_of_number ha, rank_of_number hb]
    rcases lt_trichotomy a.orderKey b.orderKey with h | h | h
    · rw [if_pos ((lt_eq_true_iff ha hb).mpr h)]
      exact (compare_lt_iff_lt.mpr (WithBot.coe_lt_coe.mpr h)).symm
    · rw [if_neg (by simp [lt_eq_true_iff ha hb, h]), if_neg (by simp [lt_eq_true_iff hb ha, h]),
        h]
      exact (compare_eq_iff_eq.mpr rfl).symm
    · rw [if_neg (by simp [lt_eq_true_iff ha hb, h.le]), if_pos ((lt_eq_true_iff hb ha).mpr h)]
      exact (compare_gt_iff_gt.mpr (WithBot.coe_lt_coe.mpr h)).symm
  · rw [rank_of_number ha, rank_of_isNaN hb]
    exact (compare_gt_iff_gt.mpr (WithBot.bot_lt_coe _)).symm
  · rw [rank_of_isNaN ha, rank_of_number hb]
    exact (compare_lt_iff_lt.mpr (WithBot.bot_lt_coe _)).symm
  · rw [rank_of_isNaN ha, rank_of_isNaN hb]
    exact (compare_eq_iff_eq.mpr rfl).symm

/-- Of two lists of values, at least one beats the other place by place. -/
theorem winsByValues_total (xs ys : List Double) :
    winsByValues xs ys = true ∨ winsByValues ys xs = true := by
  induction xs generalizing ys with
  | nil => exact .inl (by cases ys <;> rfl)
  | cons x xs ih =>
    cases ys with
    | nil => exact .inr rfl
    | cons y ys =>
      simp only [winsByValues, compareNanLowest_eq_compare]
      rcases lt_trichotomy x.rank y.rank with h | h | h
      · rw [compare_gt_iff_gt.mpr h]
        exact .inr rfl
      · rw [h, compare_eq_iff_eq.mpr rfl]
        exact ih ys
      · rw [compare_gt_iff_gt.mpr h]
        exact .inl rfl

/-- Two lists of values of one length beat each other exactly when they rank alike place by
place. -/
theorem winsByValues_both_iff {xs ys : List Double} (hlen : xs.length = ys.length) :
    winsByValues xs ys = true ∧ winsByValues ys xs = true ↔ xs.map rank = ys.map rank := by
  induction xs generalizing ys with
  | nil =>
    cases ys with
    | nil => simp [winsByValues]
    | cons y ys => simp at hlen
  | cons x xs ih =>
    cases ys with
    | nil => simp at hlen
    | cons y ys =>
      simp only [winsByValues, compareNanLowest_eq_compare, List.map_cons, List.cons.injEq]
      rcases lt_trichotomy x.rank y.rank with h | h | h
      · rw [compare_lt_iff_lt.mpr h, compare_gt_iff_gt.mpr h]
        simp [h.ne]
      · rw [h, compare_eq_iff_eq.mpr rfl]
        simpa using ih (by simpa using hlen)
      · rw [compare_gt_iff_gt.mpr h, compare_lt_iff_lt.mpr h]
        simp [h.ne']

/-! ## The tie-break -/

/-- Two lists of values tie when, trailing NaN padding cut off, they rank alike place by place:
as many values, and in each place two NaNs or two numbers of one key. -/
def Tied (xs ys : List Double) : Prop := (trimPadding xs).map rank = (trimPadding ys).map rank

instance (xs ys : List Double) : Decidable (Tied xs ys) := inferInstanceAs (Decidable (_ = _))

/-- Of two points at one instant, at least one keeps itself against the other. -/
theorem keepLocal_total (l r : Point) :
    keepLocal l r true = true ∨ keepLocal r l true = true := by
  simp only [keepLocal, Bool.not_true, Bool.false_eq_true, if_false]
  by_cases hlen : (trimPadding l.values).length = (trimPadding r.values).length
  · simpa [hlen] using winsByValues_total (trimPadding l.values) (trimPadding r.values)
  · simp only [bne_iff_ne, ne_eq, hlen, not_false_eq_true, if_true, Ne.symm hlen,
      decide_eq_true_eq]
    omega

/-- Both points keep themselves exactly when their values tie. -/
theorem keepLocal_both_iff (l r : Point) :
    keepLocal l r true = true ∧ keepLocal r l true = true ↔ Tied l.values r.values := by
  simp only [keepLocal, Bool.not_true, Bool.false_eq_true, if_false, Tied]
  by_cases hlen : (trimPadding l.values).length = (trimPadding r.values).length
  · simpa [hlen] using winsByValues_both_iff hlen
  · have hmap : (trimPadding l.values).map rank ≠ (trimPadding r.values).map rank :=
      fun h => hlen (by simpa using congrArg List.length h)
    simp only [bne_iff_ne, ne_eq, hlen, not_false_eq_true, if_true, Ne.symm hlen,
      decide_eq_true_eq, hmap, iff_false]
    omega

/-- A zero and a negative zero tie. -/
example : Tied [⟨0⟩] [⟨0x8000000000000000⟩] := by decide

/-- Where values do not tie, exactly one of the two points keeps itself. -/
theorem keepLocal_iff_not_of_not_tied {l r : Point} (h : ¬ Tied l.values r.values) :
    keepLocal l r true = true ↔ keepLocal r l true = false := by
  constructor
  · intro hl
    cases hr : keepLocal r l true
    · rfl
    · exact absurd ((keepLocal_both_iff l r).mp ⟨hl, hr⟩) h
  · intro hr
    simpa [hr] using keepLocal_total l r

/-- The tie-break is strict except on ties: values that tie keep both points where they are,
and values that do not tie keep exactly one of the two. -/
theorem keepLocal_one_unless_tied (l r : Point) :
    (Tied l.values r.values → keepLocal l r true = true ∧ keepLocal r l true = true) ∧
    (¬ Tied l.values r.values → (keepLocal l r true = true ↔ keepLocal r l true = false)) :=
  ⟨(keepLocal_both_iff l r).mpr, keepLocal_iff_not_of_not_tied⟩

/-- Two points at one instant with the same value and different tags tie: each keeps itself
against the other, so two replicas that swap them keep different tags. -/
theorem keepLocal_tags_tie :
    let a : Point := ⟨0, [⟨0x3ff0000000000000⟩], some [97], .live⟩
    let b : Point := ⟨0, [⟨0x3ff0000000000000⟩], some [98], .live⟩
    a.tag ≠ b.tag ∧ keepLocal a b true = true ∧ keepLocal b a true = true := by
  intro a b
  decide

/-! ## Replicas that merge each other's points -/

/-- What two replicas may keep at one instant: the same point, or points whose values tie. -/
def AgreeUpToTie (p q : Point) : Prop := p = q ∨ (p.ms = q.ms ∧ Tied p.values q.values)

/-- Two replicas, one storing `x` and the other `y` at one instant, each keeping its own point
on a tie, keep points that agree up to the tie. -/
theorem agreeUpToTie_keep {x y : Point} (hms : x.ms = y.ms) :
    AgreeUpToTie (if keepLocal x y true then x else y) (if keepLocal y x true then y else x) := by
  by_cases htie : Tied x.values y.values
  · obtain ⟨hx, hy⟩ := (keepLocal_both_iff x y).mpr htie
    rw [if_pos hx, if_pos hy]
    exact .inr ⟨hms, htie⟩
  · left
    cases hl : keepLocal x y true
    · have hr : keepLocal y x true = true := by simpa [hl] using keepLocal_total x y
      simp [hr]
    · simp [(keepLocal_iff_not_of_not_tied htie).mp hl]

end Point

end SeriesStore
