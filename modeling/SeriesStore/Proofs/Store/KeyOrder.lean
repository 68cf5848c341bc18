import Mathlib
import SeriesStore.Table
import SeriesStore.Number.Word

/-!
# The order of keys

Keys compare as lists of bytes in lexicographic order, `List.compareLex`, so they inherit its
laws: the order is transitive and total, and only equal keys compare equal. Two facts make the
order fit the store:

* the keys that start with a prefix form an interval: a key between two of them starts with
  the prefix too (`startsWith_of_le_of_le`), so a seek inside a prefix meets every key of it;
* a segment key ends with its baseline in eight big-endian bytes with the sign bit flipped, so
  within one prefix the order of keys is the order of baselines:

    compare (segmentOfPrefix pre a) (segmentOfPrefix pre b) = compare a b   (for 64-bit a, b)
-/

namespace SeriesStore

namespace Key

/-- Keys compare by `List.compareLex` on bytes. -/
theorem compare_eq_compareLex :
    Key.compare = List.compareLex (Ord.compare : UInt8 → UInt8 → Ordering) := by
  funext a b
  induction a generalizing b with
  | nil => cases b <;> rfl
  | cons x xs ih =>
    cases b with
    | nil => rfl
    | cons y ys =>
      rw [Key.compare, List.compareLex_cons_cons, ← ih]
      cases Ord.compare x y <;> rfl

instance : Std.TransCmp Key.compare := by
  rw [compare_eq_compareLex]
  infer_instance

instance : Std.LawfulEqCmp Key.compare := by
  rw [compare_eq_compareLex]
  infer_instance

/-! ## Strict and weak order -/

section Order

variable {a b c : Key}

theorem lt_iff : lt a b = true ↔ compare a b = .lt := by simp [lt]

theorem le_iff : le a b = true ↔ compare a b ≠ .gt := by simp [le]

theorem compare_self (a : Key) : compare a a = .eq := Std.ReflCmp.compare_self

theorem compare_eq_iff : compare a b = .eq ↔ a = b := Std.LawfulEqCmp.compare_eq_iff_eq

theorem compare_swap (a b : Key) : compare b a = (compare a b).swap := Std.OrientedCmp.eq_swap

@[simp] theorem lt_self (a : Key) : lt a a = false := by simp [lt, compare_self]

@[simp] theorem le_self (a : Key) : le a a = true := by simp [le, compare_self]

theorem lt_trans (h₁ : lt a b = true) (h₂ : lt b c = true) : lt a c = true :=
  lt_iff.mpr (Std.TransCmp.lt_trans (lt_iff.mp h₁) (lt_iff.mp h₂))

theorem le_of_lt (h : lt a b = true) : le a b = true := by
  rw [le_iff, lt_iff.mp h]
  decide

theorem lt_of_le_of_ne (h : le a b = true) (hne : a ≠ b) : lt a b = true := by
  rw [le_iff] at h
  rw [lt_iff]
  cases hc : compare a b
  · rfl
  · exact absurd (compare_eq_iff.mp hc) hne
  · exact absurd hc h

theorem le_trans (h₁ : le a b = true) (h₂ : le b c = true) : le a c = true := by
  by_cases hab : a = b
  · rw [hab]
    exact h₂
  by_cases hbc : b = c
  · rw [← hbc]
    exact h₁
  exact le_of_lt (lt_trans (lt_of_le_of_ne h₁ hab) (lt_of_le_of_ne h₂ hbc))

theorem lt_of_lt_of_le (h₁ : lt a b = true) (h₂ : le b c = true) : lt a c = true := by
  by_cases hbc : b = c
  · rw [← hbc]
    exact h₁
  · exact lt_trans h₁ (lt_of_le_of_ne h₂ hbc)

theorem lt_of_le_of_lt (h₁ : le a b = true) (h₂ : lt b c = true) : lt a c = true := by
  by_cases hab : a = b
  · rw [hab]
    exact h₂
  · exact lt_trans (lt_of_le_of_ne h₁ hab) h₂

/-- A key is below another exactly when it is not at or above it. -/
theorem lt_eq_false_iff : lt a b = false ↔ le b a = true := by
  rw [le_iff, compare_swap]
  cases h : compare a b <;> simp [lt, h]

theorem le_eq_false_iff : le a b = false ↔ lt b a = true := by
  have h := lt_eq_false_iff (a := b) (b := a)
  cases h₁ : le a b <;> cases h₂ : lt b a <;> simp_all

theorem le_antisymm (h₁ : le a b = true) (h₂ : le b a = true) : a = b := by
  by_contra hne
  have h := lt_of_le_of_ne h₁ hne
  rw [← Bool.not_eq_false, lt_eq_false_iff] at h
  exact h h₂

theorem lt_asymm (h : lt a b = true) : lt b a = false := lt_eq_false_iff.mpr (le_of_lt h)

theorem ne_of_lt (h : lt a b = true) : a ≠ b := by
  rintro rfl
  simp at h

end Order

/-! ## Prefixes -/

section Prefix

@[simp] theorem compare_append_left (p a b : Key) : compare (p ++ a) (p ++ b) = compare a b := by
  induction p with
  | nil => rfl
  | cons x p ih =>
    rw [List.cons_append, List.cons_append, Key.compare]
    simp [Ord.compare, compareOfLessAndEq, ih]

theorem le_append (p x : Key) : le p (p ++ x) = true := by
  have h := compare_append_left p [] x
  rw [List.append_nil] at h
  rw [le_iff, h]
  cases x <;> simp [Key.compare]

theorem startsWith_iff {k p : Key} : startsWith k p = true ↔ ∃ x, k = p ++ x := by
  rw [startsWith, List.isPrefixOf_iff_prefix]
  constructor
  · rintro ⟨x, rfl⟩
    exact ⟨x, rfl⟩
  · rintro ⟨x, rfl⟩
    exact ⟨x, rfl⟩

@[simp] theorem startsWith_append (p x : Key) : startsWith (p ++ x) p = true :=
  startsWith_iff.mpr ⟨x, rfl⟩

/-- A key that does not start with a prefix lies below every key that does, or above every
one. -/
theorem lt_or_gt_of_not_startsWith {k p : Key} (h : startsWith k p = false) :
    (∀ x, lt k (p ++ x) = true) ∨ (∀ x, lt (p ++ x) k = true) := by
  induction p generalizing k with
  | nil => simp [startsWith] at h
  | cons c p ih =>
    cases k with
    | nil => exact .inl fun x => by simp [lt, Key.compare]
    | cons d k =>
      by_cases hdc : d = c
      · subst hdc
        have hk : startsWith k p = false := by simpa [startsWith] using h
        rcases ih hk with hlt | hgt
        · refine .inl fun x => ?_
          rw [lt_iff, ← lt_iff.mp (hlt x)]
          exact compare_append_left [d] k (p ++ x)
        · refine .inr fun x => ?_
          rw [lt_iff, ← lt_iff.mp (hgt x)]
          exact compare_append_left [d] (p ++ x) k
      · have hne : d.toNat ≠ c.toNat := fun h => hdc (UInt8.toNat_inj.mp h)
        rcases Nat.lt_or_gt_of_ne hne with hd | hd
        · refine .inl fun x => ?_
          have h₁ : d < c := UInt8.lt_iff_toNat_lt.mpr hd
          simp [lt, Key.compare, Ord.compare, compareOfLessAndEq, h₁]
        · refine .inr fun x => ?_
          have h₁ : c < d := UInt8.lt_iff_toNat_lt.mpr hd
          simp [lt, Key.compare, Ord.compare, compareOfLessAndEq, h₁]

/-- The keys that start with a prefix form an interval. -/
theorem startsWith_of_le_of_le {a b c p : Key} (ha : startsWith a p = true)
    (hc : startsWith c p = true) (h₁ : le a b = true) (h₂ : le b c = true) :
    startsWith b p = true := by
  by_contra hb
  obtain ⟨x, rfl⟩ := startsWith_iff.mp ha
  obtain ⟨y, rfl⟩ := startsWith_iff.mp hc
  rcases lt_or_gt_of_not_startsWith (Bool.eq_false_iff.mpr hb) with hlt | hgt
  · have := lt_of_lt_of_le (hlt x) h₁
    simp at this
  · have := lt_of_le_of_lt h₂ (hgt y)
    simp at this

end Prefix

/-! ## Big-endian numbers -/

section BigEndian

theorem bigEndian_succ (n k : Nat) :
    bigEndian n (k + 1) = (n / 256 ^ k % 256).toUInt8 :: bigEndian n k := by
  simp [bigEndian, List.range_succ]

@[simp] theorem length_bigEndian (n k : Nat) : (bigEndian n k).length = k := by
  simp [bigEndian]

/-- Only the low `k` bytes of a number are written. -/
theorem bigEndian_mod (n k : Nat) : bigEndian (n % 256 ^ k) k = bigEndian n k := by
  unfold bigEndian
  apply List.map_congr_left
  intro i hi
  have hik : i < k := by simpa using hi
  obtain ⟨j, rfl⟩ : ∃ j, k = i + (j + 1) := ⟨k - i - 1, by omega⟩
  rw [Nat.pow_add, Nat.mod_mul_right_div_self,
    Nat.mod_mod_of_dvd _ (dvd_pow_self 256 (Nat.succ_ne_zero j))]

/-- A number compares with another by its high digit, then by the rest. -/
theorem compare_div_mod (m n B : Nat) (hB : 0 < B) :
    Ord.compare m n = (Ord.compare (m / B) (n / B)).then (Ord.compare (m % B) (n % B)) := by
  have hm := Nat.div_add_mod m B
  have hn := Nat.div_add_mod n B
  have hmB := Nat.mod_lt m hB
  have hnB := Nat.mod_lt n hB
  rcases Nat.lt_trichotomy (m / B) (n / B) with hq | hq | hq
  · have hlt : m < n := Nat.lt_of_div_lt_div hq
    simp [Nat.compare_eq_lt.mpr hq, Nat.compare_eq_lt.mpr hlt]
  · rw [hq, Nat.compare_eq_eq.mpr rfl, Ordering.eq_then]
    rw [hq] at hm
    generalize B * (n / B) = c at hm hn
    rcases Nat.lt_trichotomy (m % B) (n % B) with hr | hr | hr
    · rw [Nat.compare_eq_lt.mpr hr, Nat.compare_eq_lt.mpr (by omega)]
    · rw [hr, Nat.compare_eq_eq.mpr rfl, Nat.compare_eq_eq.mpr (by omega)]
    · rw [Nat.compare_eq_gt.mpr hr, Nat.compare_eq_gt.mpr (by omega)]
  · have hgt : n < m := Nat.lt_of_div_lt_div hq
    simp [Nat.compare_eq_gt.mpr hq, Nat.compare_eq_gt.mpr hgt]

/-- Big-endian bytes of the same length compare as the numbers they write. -/
theorem compare_bigEndian {m n : Nat} (k : Nat) (hm : m < 256 ^ k) (hn : n < 256 ^ k) :
    compare (bigEndian m k) (bigEndian n k) = Ord.compare m n := by
  induction k generalizing m n with
  | zero =>
    have : m = 0 := by simpa using hm
    have : n = 0 := by simpa using hn
    subst_vars
    rfl
  | succ k ih =>
    have hpos : 0 < 256 ^ k := Nat.pow_pos (by decide)
    have hmq : m / 256 ^ k < 256 := Nat.div_lt_of_lt_mul (by rw [← Nat.pow_succ]; exact hm)
    have hnq : n / 256 ^ k < 256 := Nat.div_lt_of_lt_mul (by rw [← Nat.pow_succ]; exact hn)
    rw [bigEndian_succ, bigEndian_succ, Key.compare, compare_div_mod m n (256 ^ k) hpos,
      ← bigEndian_mod m k, ← bigEndian_mod n k,
      ih (Nat.mod_lt m hpos) (Nat.mod_lt n hpos), Nat.mod_eq_of_lt hmq, Nat.mod_eq_of_lt hnq]
    have hbyte : Ord.compare (m / 256 ^ k).toUInt8 (n / 256 ^ k).toUInt8 =
        Ord.compare (m / 256 ^ k) (n / 256 ^ k) := by
      simp only [Ord.compare, compareOfLessAndEq, UInt8.lt_iff_toNat_lt, ← UInt8.toNat_inj,
        Nat.toUInt8_eq, UInt8.toNat_ofNat', Nat.mod_eq_of_lt hmq, Nat.mod_eq_of_lt hnq]
    rw [hbyte]
    cases Ord.compare (m / 256 ^ k) (n / 256 ^ k) <;> rfl

/-- Reading more digits after a number already read. -/
theorem foldl_digits (bs : List UInt8) (a : Nat) :
    bs.foldl (fun acc b => acc * 256 + b.toNat) a = a * 256 ^ bs.length + ofBigEndian bs := by
  induction bs generalizing a with
  | nil => simp [ofBigEndian]
  | cons b bs ih =>
    unfold ofBigEndian at ih ⊢
    rw [List.foldl_cons, List.foldl_cons, ih, ih (0 * 256 + b.toNat), List.length_cons,
      Nat.pow_succ]
    ring

theorem ofBigEndian_bigEndian (n k : Nat) : ofBigEndian (bigEndian n k) = n % 256 ^ k := by
  induction k with
  | zero => simp [ofBigEndian, bigEndian, Nat.mod_one]
  | succ k ih =>
    have hd : (n / 256 ^ k % 256).toUInt8.toNat = n / 256 ^ k % 256 := by
      rw [Nat.toUInt8_eq, UInt8.toNat_ofNat', Nat.mod_mod_of_dvd _ (dvd_refl 256)]
    have hcons : ofBigEndian (bigEndian n (k + 1)) =
        (n / 256 ^ k % 256) * 256 ^ k + ofBigEndian (bigEndian n k) := by
      rw [bigEndian_succ]
      conv_lhs => unfold ofBigEndian
      rw [List.foldl_cons, foldl_digits, length_bigEndian, hd, Nat.zero_mul, Nat.zero_add]
    rw [hcons, ih, Nat.pow_succ, Nat.mod_mul]
    ring

end BigEndian

/-! ## Segment keys -/

section Segments

variable {a b : Int}

@[simp] theorem length_encodeI64 (v : Int) : (encodeI64 v).length = 8 := by
  simp [encodeI64]

theorem fits_iff {v : Int} : I64.fits v = true ↔ -2 ^ 63 ≤ v ∧ v ≤ 2 ^ 63 - 1 := by
  simp only [I64.fits, I64.min, I64.max, Bool.and_eq_true]
  exact ⟨fun h => ⟨of_decide_eq_true h.1, of_decide_eq_true h.2⟩,
    fun h => ⟨decide_eq_true h.1, decide_eq_true h.2⟩⟩

theorem toNat_shift {v : Int} (h : I64.fits v = true) : ((v + 2 ^ 63) % 2 ^ 64).toNat < 256 ^ 8 ∧
    (((v + 2 ^ 63) % 2 ^ 64).toNat : Int) = v + 2 ^ 63 := by
  obtain ⟨h₁, h₂⟩ := fits_iff.mp h
  have e : (v + 2 ^ 63) % 2 ^ 64 = v + 2 ^ 63 := Int.emod_eq_of_lt (by omega) (by omega)
  rw [e]
  constructor
  · omega
  · omega

theorem decodeI64_encodeI64 (h : I64.fits b = true) : decodeI64 (encodeI64 b) = b := by
  obtain ⟨hlt, heq⟩ := toNat_shift h
  rw [decodeI64, encodeI64, ofBigEndian_bigEndian, Nat.mod_eq_of_lt hlt, heq]
  omega

/-- Within the 64-bit range the bytes of numbers compare as the numbers. -/
theorem compare_encodeI64 (ha : I64.fits a = true) (hb : I64.fits b = true) :
    compare (encodeI64 a) (encodeI64 b) = Ord.compare a b := by
  obtain ⟨hla, hea⟩ := toNat_shift ha
  obtain ⟨hlb, heb⟩ := toNat_shift hb
  rw [encodeI64, encodeI64, compare_bigEndian 8 hla hlb]
  simp only [Ord.compare, compareOfLessAndEq]
  have hlt : ((a + 2 ^ 63) % 2 ^ 64).toNat < ((b + 2 ^ 63) % 2 ^ 64).toNat ↔ a < b := by
    omega
  have heq : ((a + 2 ^ 63) % 2 ^ 64).toNat = ((b + 2 ^ 63) % 2 ^ 64).toNat ↔ a = b := by
    omega
  simp only [hlt, heq]

theorem compare_segmentOfPrefix (pre : Key) (ha : I64.fits a = true) (hb : I64.fits b = true) :
    compare (segmentOfPrefix pre a) (segmentOfPrefix pre b) = Ord.compare a b := by
  rw [segmentOfPrefix, segmentOfPrefix, compare_append_left, compare_encodeI64 ha hb]

theorem lt_segmentOfPrefix_iff (pre : Key) (ha : I64.fits a = true) (hb : I64.fits b = true) :
    lt (segmentOfPrefix pre a) (segmentOfPrefix pre b) = true ↔ a < b := by
  rw [lt_iff, compare_segmentOfPrefix pre ha hb, Int.compare_eq_lt]

theorem le_segmentOfPrefix_iff (pre : Key) (ha : I64.fits a = true) (hb : I64.fits b = true) :
    le (segmentOfPrefix pre a) (segmentOfPrefix pre b) = true ↔ a ≤ b := by
  rw [le_iff, compare_segmentOfPrefix pre ha hb, Ne, Int.compare_eq_gt]
  omega

@[simp] theorem startsWith_segmentOfPrefix (pre : Key) (b : Int) :
    startsWith (segmentOfPrefix pre b) pre = true :=
  startsWith_append pre _

theorem baselineOf_segmentOfPrefix (pre : Key) (h : I64.fits b = true) :
    baselineOf (segmentOfPrefix pre b) = some b := by
  simp only [baselineOf, segmentOfPrefix, List.length_append, length_encodeI64]
  rw [if_pos (by omega), Nat.add_sub_cancel, List.drop_left, decodeI64_encodeI64 h]

theorem segmentOfPrefix_injective (pre : Key) (ha : I64.fits a = true) (hb : I64.fits b = true)
    (h : segmentOfPrefix pre a = segmentOfPrefix pre b) : a = b := by
  have := baselineOf_segmentOfPrefix pre ha
  rw [h, baselineOf_segmentOfPrefix pre hb] at this
  exact (Option.some.inj this).symm

end Segments

end Key

end SeriesStore
