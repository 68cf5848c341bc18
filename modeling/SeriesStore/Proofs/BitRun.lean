import Mathlib
import SeriesStore.Codec.BitRun

/-!
# Bit runs as lists of bits

A run denotes the list of the bits it uses, `toBits`. A run is `Clean` when it has exactly the
bytes its length needs and no bit set past its length: the writer keeps runs clean, and on a
clean run writing is appending to the list.

    (r.pushBits v n).toBits = r.toBits ++ bitsOf v n                       (toBits_pushBits)

Reading needs less: only that the bytes cover the length. Then a bit read is the bit of the
list, so a number written at a position reads back from any run that the written one is a
prefix of. This is how a whole payload is read back after later writes have grown it.

    pre ++ bitsOf v n <+: R.toBits → R.readBits pre.length n = some (v % 2 ^ n)
                                                                         (readBits_of_prefix)
-/

namespace SeriesStore

namespace BitRun

/-! ## Bits of a run -/

/-- The bit at position `p`, from the high end of the first byte on; `false` past the bytes. -/
def bitAt (r : BitRun) (p : Nat) : Bool := (r.bytes[p / 8]?.getD 0).toNat.testBit (7 - p % 8)

/-- The bits in use, first to last. -/
def toBits (r : BitRun) : List Bool := (List.range r.length).map r.bitAt

/-- The low `n` bits of `v`, highest first. -/
def bitsOf (v : Nat) : Nat → List Bool
  | 0 => []
  | n + 1 => v.testBit n :: bitsOf v n

/-- The bytes cover the bits in use. -/
def Covers (r : BitRun) : Prop := (r.length + 7) / 8 ≤ r.bytes.size

/-- Exactly the bytes the length needs, and no bit set past the length. -/
structure Clean (r : BitRun) : Prop where
  size_eq : r.bytes.size = (r.length + 7) / 8
  past : ∀ p, r.length ≤ p → r.bitAt p = false

/-! ## Bytes and bits -/

theorem toUInt8_toNat_mod_eight (k : Nat) (hk : k < 8) : k.toUInt8.toNat % 8 = k := by
  rw [Nat.toUInt8_eq, UInt8.toNat_ofNat']
  omega

/-- Shifting a byte right and masking its low bit reads one bit of it. -/
theorem shiftRight_and_one_beq (b : UInt8) (k : Nat) (hk : k < 8) :
    ((b >>> k.toUInt8) &&& 1 == 1) = b.toNat.testBit k := by
  have h1 : ((b >>> k.toUInt8) &&& 1).toNat = b.toNat / 2 ^ k % 2 := by
    rw [UInt8.toNat_and, UInt8.toNat_shiftRight, toUInt8_toNat_mod_eight k hk,
      Nat.shiftRight_eq_div_pow, UInt8.toNat_one, Nat.and_one_is_mod]
  rw [Nat.testBit_eq_decide_div_mod_eq, ← h1]
  cases h : ((b >>> k.toUInt8) &&& 1) == 1 <;> simp_all [← UInt8.toNat_inj]

/-- Setting bit `k` of a byte. -/
theorem toNat_or_one_shiftLeft (x : UInt8) (k : Nat) (hk : k < 8) :
    (x ||| (1 : UInt8) <<< k.toUInt8).toNat = x.toNat ||| 2 ^ k := by
  rw [UInt8.toNat_or, UInt8.toNat_shiftLeft, toUInt8_toNat_mod_eight k hk, UInt8.toNat_one,
    Nat.one_shiftLeft, Nat.mod_eq_of_lt (Nat.pow_lt_pow_right (by omega) (by omega))]

theorem testBit_or_two_pow (x k j : Nat) :
    (x ||| 2 ^ k).testBit j = (x.testBit j || decide (k = j)) := by
  rw [Nat.testBit_or, Nat.testBit_two_pow]

/-! ## Lemmas -/

@[simp] theorem length_toBits (r : BitRun) : r.toBits.length = r.length := by
  simp [toBits]

@[simp] theorem length_bitsOf (v n : Nat) : (bitsOf v n).length = n := by
  induction n with
  | zero => rfl
  | succ n ih => simp [bitsOf, ih]

theorem getElem?_toBits (r : BitRun) (p : Nat) :
    r.toBits[p]? = if p < r.length then some (r.bitAt p) else none := by
  by_cases hp : p < r.length <;> simp [toBits, hp]

theorem Clean.covers {r : BitRun} (hr : r.Clean) : r.Covers :=
  Nat.le_of_eq hr.size_eq.symm

/-- On covering bytes, the bit read at a position is the bit of the list there. -/
theorem bit?_eq {r : BitRun} (hr : r.Covers) (p : Nat) : r.bit? p = r.toBits[p]? := by
  rw [getElem?_toBits, bit?]
  by_cases hp : p < r.length
  · have hb : p / 8 < r.bytes.size := by
      have := hr
      unfold Covers at this
      omega
    simp only [hp, if_true, bitAt, Array.getElem?_eq_getElem hb, Option.map_some,
      Option.getD_some]
    rw [shiftRight_and_one_beq _ _ (by omega)]
  · simp [hp]

/-- `pushBit` changes only the byte at `r.length / 8`, the one the new bit lands in. -/
theorem getElem?_bytes_pushBit {r : BitRun} (hr : r.Clean) (b : Bool) {i : Nat}
    (hi : i ≠ r.length / 8) : (r.pushBit b).bytes[i]? = r.bytes[i]? := by
  have hsize := hr.size_eq
  unfold pushBit
  by_cases hpos : r.length % 8 = 0
  · have hpush : (r.bytes.push 0)[i]? = r.bytes[i]? := by
      rw [Array.getElem?_push, if_neg (by omega)]
    cases b
    · simpa [hpos] using hpush
    · simp only [hpos, if_true, Array.getElem?_modify, Array.size_push, Nat.add_sub_cancel,
        show r.bytes.size ≠ i by omega, if_false]
      exact hpush
  · cases b
    · simp [hpos]
    · simp only [hpos, if_false, if_true, Array.getElem?_modify,
        show r.bytes.size - 1 ≠ i by omega]

/-- The byte the new bit lands in gains that bit. -/
theorem byte_pushBit {r : BitRun} (hr : r.Clean) (b : Bool) :
    ((r.pushBit b).bytes[r.length / 8]?.getD 0).toNat =
      (r.bytes[r.length / 8]?.getD 0).toNat ||| (if b then 2 ^ (7 - r.length % 8) else 0) := by
  have hsize := hr.size_eq
  unfold pushBit
  by_cases hpos : r.length % 8 = 0
  · have hend : r.bytes[r.length / 8]? = none := Array.getElem?_eq_none (by omega)
    have hpush : (r.bytes.push 0)[r.length / 8]? = some 0 := by
      rw [Array.getElem?_push, if_pos (by omega)]
    cases b
    · simp [hpos, hpush, hend]
    · simp only [hpos, if_true, Array.getElem?_modify, Array.size_push, Nat.add_sub_cancel,
        show r.bytes.size = r.length / 8 by omega, hpush, hend, Option.map_some, Option.getD_some,
        Option.getD_none]
      rw [toNat_or_one_shiftLeft _ _ (by omega)]
  · have hidx : r.length / 8 < r.bytes.size := by omega
    cases b
    · simp [hpos]
    · simp only [hpos, if_false, if_true, Array.getElem?_modify,
        show r.bytes.size - 1 = r.length / 8 by omega, Array.getElem?_eq_getElem hidx,
        Option.map_some, Option.getD_some]
      rw [toNat_or_one_shiftLeft _ _ (by omega)]

/-- Where `pushBit` leaves a clean run's bits: the new one at the old length, the others as
they were. -/
theorem bitAt_pushBit {r : BitRun} (hr : r.Clean) (b : Bool) (p : Nat) :
    (r.pushBit b).bitAt p = if p = r.length then b else r.bitAt p := by
  by_cases hlast : p / 8 = r.length / 8
  · have hold : p = r.length → r.bitAt p = false := fun h => hr.past p (by omega)
    unfold bitAt at hold ⊢
    rw [hlast, byte_pushBit hr]
    rw [hlast] at hold
    cases b
    · simp only [Bool.false_eq_true, if_false, Nat.or_zero]
      by_cases hp : p = r.length
      · rw [if_pos hp]
        exact hold hp
      · rw [if_neg hp]
    · simp only [if_true, testBit_or_two_pow]
      by_cases hp : p = r.length
      · simp [hp]
      · have : ¬ 7 - r.length % 8 = 7 - p % 8 := by omega
        simp [hp, this]
  · have hne : p ≠ r.length := fun h => hlast (by rw [h])
    rw [if_neg hne]
    unfold bitAt
    rw [getElem?_bytes_pushBit hr b hlast]

theorem clean_pushBit {r : BitRun} (hr : r.Clean) (b : Bool) : (r.pushBit b).Clean := by
  constructor
  · have hsize := hr.size_eq
    unfold pushBit
    by_cases hpos : r.length % 8 = 0 <;> cases b <;> simp [hpos] <;> omega
  · intro p hp
    rw [bitAt_pushBit hr, if_neg (by simp at hp; omega)]
    exact hr.past p (by simp at hp; omega)

theorem toBits_pushBit {r : BitRun} (hr : r.Clean) (b : Bool) :
    (r.pushBit b).toBits = r.toBits ++ [b] := by
  unfold toBits
  rw [length_pushBit, List.range_succ, List.map_append, List.map_singleton,
    bitAt_pushBit hr, if_pos rfl]
  congr 1
  apply List.map_congr_left
  intro p hp
  rw [bitAt_pushBit hr, if_neg (by simp at hp; omega)]

theorem clean_pushBits {r : BitRun} (hr : r.Clean) (v n : Nat) : (r.pushBits v n).Clean := by
  induction n generalizing r with
  | zero => exact hr
  | succ n ih => exact ih (clean_pushBit hr _)

theorem toBits_pushBits {r : BitRun} (hr : r.Clean) (v n : Nat) :
    (r.pushBits v n).toBits = r.toBits ++ bitsOf v n := by
  induction n generalizing r with
  | zero => simp [pushBits, bitsOf]
  | succ n ih =>
    rw [pushBits, ih (clean_pushBit hr _), toBits_pushBit hr, bitsOf, List.append_assoc,
      List.singleton_append]

theorem clean_empty : empty.Clean where
  size_eq := rfl
  past := fun _ _ => by simp [bitAt, empty]

@[simp] theorem toBits_empty : empty.toBits = [] := rfl

/-- A number read back: `n` bits highest first are the number modulo `2 ^ n`. -/
theorem readBits_of_prefix {R : BitRun} (hR : R.Covers) (v n : Nat) (pre : List Bool)
    (h : pre ++ bitsOf v n <+: R.toBits) : R.readBits pre.length n = some (v % 2 ^ n) := by
  induction n generalizing pre with
  | zero => simp [readBits, Nat.mod_one]
  | succ n ih =>
    have hbit : R.bit? pre.length = some (v.testBit n) := by
      rw [bit?_eq hR]
      obtain ⟨t, ht⟩ := h
      rw [← ht]
      simp [bitsOf]
    have hrest := ih (pre ++ [v.testBit n]) (by simpa [bitsOf] using h)
    simp only [List.length_append, List.length_singleton] at hrest
    simp only [readBits, hbit, hrest, Option.bind_eq_bind, Option.bind_some, Option.pure_def,
      Option.some.injEq]
    rw [Nat.mod_pow_succ, Nat.testBit_eq_decide_div_mod_eq]
    have : v / 2 ^ n % 2 < 2 := Nat.mod_lt _ (by omega)
    by_cases hb : v / 2 ^ n % 2 = 1
    · simp [hb]
      omega
    · have h0 : v / 2 ^ n % 2 = 0 := by omega
      simp [h0]

end BitRun

end SeriesStore
