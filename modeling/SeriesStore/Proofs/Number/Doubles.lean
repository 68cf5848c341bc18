import Mathlib
import SeriesStore.Number.Double

/-!
# Doubles by their fields

A `Double` is its bit pattern. Read through its natural number, the pattern splits into a sign
bit, an exponent field and a fraction field (`signBit_eq`, `isNaN_eq`, `isInf_eq`), and numbers
compare by `orderKey`, their magnitude signed by the sign bit.

A magnitude `encode` writes faithfully (`Encodable`: at most 53 significant bits and an
exponent below infinity) reads back as itself (`magnitude_encode`), and rounding leaves it
where it is (`roundMagnitude_of_dvd`). Whole numbers up to `2 ^ 53` are such magnitudes,
so the doubles of counts add exactly: `ofNat a + ofNat b = ofNat (a + b)`
(`ofNat_add_ofNat`). This is what makes a count slot, summed one sample at a time or a segment
at a time, the same double.
-/

namespace SeriesStore

namespace Double

/-! ## Order of numbers by their keys -/

section Order

variable {a b : Double}

theorem lt_eq_true_iff (ha : a.isNaN = false) (hb : b.isNaN = false) :
    a.lt b = true ↔ a.orderKey < b.orderKey := by
  simp [lt, ha, hb]

theorem le_eq_true_iff (ha : a.isNaN = false) (hb : b.isNaN = false) :
    a.le b = true ↔ a.orderKey ≤ b.orderKey := by
  simp [le, ha, hb]

theorem eqNum_eq_true_iff (ha : a.isNaN = false) (hb : b.isNaN = false) :
    a.eqNum b = true ↔ a.orderKey = b.orderKey := by
  simp [eqNum, ha, hb]

theorem isNaN_least (ha : a.isNaN = false) (hb : b.isNaN = false) : (least a b).isNaN = false := by
  unfold least
  split_ifs <;> assumption

theorem isNaN_greatest (ha : a.isNaN = false) (hb : b.isNaN = false) :
    (greatest a b).isNaN = false := by
  unfold greatest
  split_ifs <;> assumption

/-- The least of two numbers has the lesser key. -/
theorem orderKey_least (ha : a.isNaN = false) (hb : b.isNaN = false) :
    (least a b).orderKey = min a.orderKey b.orderKey := by
  simp only [least, ha, Bool.false_eq_true, if_false]
  split_ifs with h
  · rw [le_eq_true_iff hb ha] at h
    rw [min_eq_right h]
  · rw [le_eq_true_iff hb ha, not_le] at h
    rw [min_eq_left h.le]

/-- The greatest of two numbers has the greater key. -/
theorem orderKey_greatest (ha : a.isNaN = false) (hb : b.isNaN = false) :
    (greatest a b).orderKey = max a.orderKey b.orderKey := by
  simp only [greatest, ha, Bool.false_eq_true, if_false]
  split_ifs with h
  · rw [le_eq_true_iff ha hb] at h
    rw [max_eq_right h]
  · rw [le_eq_true_iff ha hb, not_le] at h
    rw [max_eq_left h.le]

end Order

/-! ## The fields of a pattern -/

section Fields

/-- The sign bit is the top bit of the pattern. -/
theorem signBit_eq (x : Double) : x.signBit = decide (2 ^ 63 ≤ x.bits.toNat) := by
  have hshift : (x.bits >>> 63).toNat = x.bits.toNat / 2 ^ 63 := by
    rw [UInt64.toNat_shiftRight, Nat.shiftRight_eq_div_pow]
    rfl
  have hlt := x.bits.toNat_lt
  rw [signBit, Bool.eq_iff_iff, beq_iff_eq, decide_eq_true_iff, ← UInt64.toNat_inj, hshift,
    UInt64.toNat_one]
  omega

/-- Masking the exponent bits keeps the exponent field in place. -/
theorem toNat_and_exponentMask (n : UInt64) :
    (n &&& 0x7ff0000000000000).toNat = n.toNat / 2 ^ 52 % 2 ^ 11 * 2 ^ 52 := by
  rw [UInt64.toNat_and, show (0x7ff0000000000000 : UInt64).toNat = (2 ^ 11 - 1) * 2 ^ 52 from rfl]
  apply Nat.eq_of_testBit_eq
  intro i
  rw [Nat.testBit_and, Nat.testBit_mul_two_pow, Nat.testBit_mul_two_pow,
    Nat.testBit_two_pow_sub_one, Nat.testBit_mod_two_pow, Nat.testBit_div_two_pow]
  by_cases hi : 52 ≤ i
  · rw [Nat.sub_add_cancel hi]
    simp [hi, Bool.and_comm]
  · simp [hi]

/-- A pattern is a NaN exactly when its exponent field is all ones and its fraction is not
zero. -/
theorem isNaN_eq (x : Double) : x.isNaN = (x.expField == 2047 && x.fracField != 0) := by
  have hfrac : (x.bits &&& 0x000fffffffffffff).toNat = x.fracField := by
    rw [UInt64.toNat_and, show (0x000fffffffffffff : UInt64).toNat = 2 ^ 52 - 1 from rfl,
      Nat.and_two_pow_sub_one_eq_mod]
    rfl
  have hexp := toNat_and_exponentMask x.bits
  have hlt := x.bits.toNat_lt
  rw [Bool.eq_iff_iff]
  simp only [isNaN, Bool.and_eq_true, beq_iff_eq, bne_iff_ne, ne_eq, ← UInt64.toNat_inj, hexp,
    hfrac, expField]
  simp only [UInt64.reduceToNat]
  omega

/-- A pattern is an infinity exactly when its exponent field is all ones and its fraction is
zero. -/
theorem isInf_eq (x : Double) : x.isInf = (x.expField == 2047 && x.fracField == 0) := by
  have hmag : (x.bits &&& 0x7fffffffffffffff).toNat = x.bits.toNat % 2 ^ 63 := by
    rw [UInt64.toNat_and, show (0x7fffffffffffffff : UInt64).toNat = 2 ^ 63 - 1 from rfl,
      Nat.and_two_pow_sub_one_eq_mod]
  have hlt := x.bits.toNat_lt
  rw [Bool.eq_iff_iff]
  simp only [isInf, Bool.and_eq_true, beq_iff_eq, ← UInt64.toNat_inj, hmag, expField, fracField]
  simp only [UInt64.reduceToNat]
  omega

end Fields

/-! ## What `encode` writes -/

section Encode

/-- A magnitude that `encode` writes faithfully: at most 53 significant bits, and an exponent
below that of infinity. -/
structure Encodable (m : Nat) : Prop where
  dvd : 2 ^ (m.log2 - 52) ∣ m
  exponent_lt : m.log2 - 52 < 2046

/-- The top significant bit of `c * 2 ^ q` is `q` above that of `c`. -/
theorem log2_mul_two_pow {c : Nat} (hc : c ≠ 0) (q : Nat) : (c * 2 ^ q).log2 = c.log2 + q := by
  have hlo := Nat.log2_self_le hc
  have hhi := Nat.lt_log2_self (n := c)
  rw [Nat.log2_eq_iff (Nat.mul_ne_zero hc (by positivity)), Nat.pow_add,
    show c.log2 + q + 1 = c.log2 + 1 + q by omega, Nat.pow_add]
  exact ⟨Nat.mul_le_mul_right _ hlo, Nat.mul_lt_mul_of_pos_right hhi (by positivity)⟩

/-- A significand of at most 53 bits under an exponent below that of infinity is written
faithfully. -/
theorem Encodable.of_mul_two_pow {c q : Nat} (hc : c < 2 ^ 53) (hq : q ≤ 2045) :
    Encodable (c * 2 ^ q) := by
  rcases Nat.eq_zero_or_pos c with rfl | hc0
  · exact ⟨by simp, by simp⟩
  have hL : c.log2 < 53 := (Nat.log2_lt hc0.ne').mpr hc
  refine ⟨?_, ?_⟩ <;> rw [log2_mul_two_pow hc0.ne']
  · exact Dvd.dvd.mul_left (Nat.pow_dvd_pow 2 (by omega)) c
  · omega

variable {m : Nat}

/-- Past the subnormals a magnitude has a significand of 53 bits, the top one set. -/
theorem significand_bounds (hm : 2 ^ 52 ≤ m) :
    2 ^ 52 ≤ m / 2 ^ (m.log2 - 52) ∧ m / 2 ^ (m.log2 - 52) < 2 ^ 53 := by
  have hm0 : m ≠ 0 := by omega
  have hlo := Nat.log2_self_le hm0
  have hhi := Nat.lt_log2_self (n := m)
  have hL : 52 ≤ m.log2 := (Nat.le_log2 hm0).mpr hm
  have hsplit : m.log2 = 52 + (m.log2 - 52) := by omega
  constructor
  · rw [Nat.le_div_iff_mul_le (by positivity), ← Nat.pow_add, ← hsplit]
    exact hlo
  · rw [Nat.div_lt_iff_lt_mul (by positivity), ← Nat.pow_add,
      show 53 + (m.log2 - 52) = m.log2 + 1 by omega]
    exact hhi

/-- The exponent field `encode` writes: zero below `2 ^ 52`, else one past the shift of the
significand. -/
abbrev encodedExp (m : Nat) : Nat := if m < 2 ^ 52 then 0 else m.log2 - 52 + 1

/-- The fraction field `encode` writes: the magnitude below `2 ^ 52`, else the significand
without its top bit. -/
abbrev encodedFrac (m : Nat) : Nat := if m < 2 ^ 52 then m else m / 2 ^ (m.log2 - 52) - 2 ^ 52

theorem encoded_lt (h : Encodable m) : encodedExp m < 2047 ∧ encodedFrac m < 2 ^ 52 := by
  have hexp := h.exponent_lt
  by_cases hm : m < 2 ^ 52
  · simp only [encodedExp, encodedFrac, if_pos hm]
    omega
  · have hq := (significand_bounds (not_lt.mp hm)).2
    simp only [encodedExp, encodedFrac, if_neg hm]
    omega

/-- The number `encode` writes: the sign, the exponent field and the fraction field. -/
theorem toNat_encode (h : Encodable m) (negative : Bool) :
    (encode negative m).bits.toNat =
      (if negative then 2 ^ 63 else 0) + encodedExp m * 2 ^ 52 + encodedFrac m := by
  have hexp := h.exponent_lt
  have hlt := encoded_lt h
  unfold encode
  dsimp only
  by_cases hm : m < 2 ^ 52
  · rw [if_pos hm, UInt64.toNat_ofNat', Nat.mod_eq_of_lt (by split <;> omega)]
    simp [hm]
  · rw [if_neg hm, if_neg (by omega), UInt64.toNat_ofNat']
    simp only [encodedExp, encodedFrac, if_neg hm] at hlt ⊢
    rw [Nat.mod_eq_of_lt (by split <;> omega)]

theorem signBit_encode (h : Encodable m) (negative : Bool) :
    (encode negative m).signBit = negative := by
  have hlt := encoded_lt h
  rw [signBit_eq, toNat_encode h]
  cases negative
  · simp only [Bool.false_eq_true, if_false, decide_eq_false_iff_not, not_le]
    omega
  · simp only [if_true, decide_eq_true_eq]
    omega

theorem expField_encode (h : Encodable m) (negative : Bool) :
    (encode negative m).expField = encodedExp m := by
  have hlt := encoded_lt h
  rw [expField, toNat_encode h]
  cases negative <;> simp only [Bool.false_eq_true, if_false, if_true] <;> omega

theorem fracField_encode (h : Encodable m) (negative : Bool) :
    (encode negative m).fracField = encodedFrac m := by
  have hlt := encoded_lt h
  rw [fracField, toNat_encode h]
  cases negative <;> simp only [Bool.false_eq_true, if_false, if_true] <;> omega

theorem isNaN_encode (h : Encodable m) (negative : Bool) : (encode negative m).isNaN = false := by
  have hlt := encoded_lt h
  rw [isNaN_eq, expField_encode h]
  simp only [Bool.and_eq_false_iff, beq_eq_false_iff_ne]
  omega

theorem isInf_encode (h : Encodable m) (negative : Bool) : (encode negative m).isInf = false := by
  have hlt := encoded_lt h
  rw [isInf_eq, expField_encode h]
  simp only [Bool.and_eq_false_iff, beq_eq_false_iff_ne]
  omega

/-- A magnitude written faithfully reads back as itself. -/
theorem magnitude_encode (h : Encodable m) (negative : Bool) :
    (encode negative m).magnitude = m := by
  rw [magnitude, expField_encode h, fracField_encode h]
  by_cases hm : m < 2 ^ 52
  · simp [hm]
  · have hq := (significand_bounds (not_lt.mp hm)).1
    simp only [encodedExp, encodedFrac, if_neg hm]
    rw [if_neg (by omega), Nat.add_sub_cancel, Nat.add_sub_cancel' hq]
    exact Nat.div_mul_cancel h.dvd

/-- Rounding leaves a magnitude of at most 53 significant bits where it is. -/
theorem roundMagnitude_of_dvd {n : Nat} (h : 2 ^ (n.log2 - 52) ∣ n) : roundMagnitude n = n := by
  unfold roundMagnitude
  split
  · rfl
  · dsimp only
    rw [Nat.mod_eq_zero_of_dvd h]
    have hpos : 0 < 2 ^ (n.log2 - 52) := by positivity
    rw [if_neg (by simp; omega)]
    exact Nat.div_mul_cancel h

end Encode

/-! ## Counting in doubles -/

section Count

variable {a b : Nat}

/-- Whole numbers up to `2 ^ 53`, in units of the least subnormal, are written faithfully. -/
theorem encodable_ofNat (ha : a ≤ 2 ^ 53) : Encodable (a * 2 ^ 1074) := by
  rcases Nat.lt_or_eq_of_le ha with ha | rfl
  · exact Encodable.of_mul_two_pow (q := 1074) ha (by decide)
  · -- `2 ^ 53` is the significand `2 ^ 52` one place up; the exponent stays symbolic so that
    -- no power past the evaluation threshold is ever unfolded
    have hup (q : Nat) (hq : q ≤ 2044) : Encodable (2 ^ 53 * 2 ^ q) := by
      have h := Encodable.of_mul_two_pow (c := 2 ^ 52) (q := q + 1) (by decide) (by omega)
      rwa [Nat.pow_succ 2 q, Nat.mul_comm (2 ^ q) 2, ← Nat.mul_assoc, ← Nat.pow_succ] at h
    exact hup 1074 (by decide)

theorem ofNat_eq_encode (ha : a ≤ 2 ^ 53) : ofNat a = encode false (a * 2 ^ 1074) := by
  rw [ofNat, roundMagnitude_of_dvd (encodable_ofNat ha).dvd]

theorem isNaN_ofNat (ha : a ≤ 2 ^ 53) : (ofNat a).isNaN = false := by
  rw [ofNat_eq_encode ha, isNaN_encode (encodable_ofNat ha)]

theorem isInf_ofNat (ha : a ≤ 2 ^ 53) : (ofNat a).isInf = false := by
  rw [ofNat_eq_encode ha, isInf_encode (encodable_ofNat ha)]

/-- The double of a count up to `2 ^ 53` is exactly the count. -/
theorem signedMagnitude_ofNat (ha : a ≤ 2 ^ 53) :
    (ofNat a).signedMagnitude = ((a * 2 ^ 1074 : Nat) : Int) := by
  rw [signedMagnitude, ofNat_eq_encode ha, signBit_encode (encodable_ofNat ha),
    magnitude_encode (encodable_ofNat ha)]
  rfl

theorem ofNat_zero : ofNat 0 = zero := by decide +kernel

/-- One is the pattern with the exponent field of `2 ^ 0` and no fraction. -/
theorem ofNat_one : ofNat 1 = ⟨0x3ff0000000000000⟩ := by decide +kernel

/-- Doubles of counts up to `2 ^ 53` add exactly: their sum is the double of the sum. -/
theorem ofNat_add_ofNat (ha : a ≤ 2 ^ 53) (hb : b ≤ 2 ^ 53) :
    ofNat a + ofNat b = ofNat (a + b) := by
  show arith addNumbers (ofNat a) (ofNat b) = ofNat (a + b)
  rw [arith, isNaN_ofNat ha, isNaN_ofNat hb, if_neg (by decide), if_neg (by decide), addNumbers,
    isInf_ofNat ha, isInf_ofNat hb, if_neg (by decide), if_neg (by decide)]
  dsimp only
  rw [signedMagnitude_ofNat ha, signedMagnitude_ofNat hb]
  by_cases h0 : a + b = 0
  · -- both counts are zero, and so is their sum
    obtain ⟨rfl, rfl⟩ : a = 0 ∧ b = 0 := by omega
    have hsign : zero.signBit = false := by decide
    rw [if_pos (by simp only [Nat.zero_mul, Nat.cast_zero, add_zero]), ofNat_zero, hsign]
    rfl
  · -- the exact sum is the magnitude of the double of the sum
    have hu : 0 < 2 ^ 1074 := Nat.two_pow_pos 1074
    show _ = encode false (roundMagnitude ((a + b) * 2 ^ 1074))
    rw [← Nat.cast_add, ← Nat.add_mul]
    generalize 2 ^ 1074 = u at hu ⊢
    have hpos : 0 < (a + b) * u := Nat.mul_pos (by omega) hu
    rw [if_neg (by omega), Int.natAbs_natCast,
      decide_eq_false (not_lt.mpr (Int.natCast_nonneg _))]

end Count


end Double

end SeriesStore
