import SeriesStore.Segment.Decode
import SeriesStore.Proofs.BitRun

/-!
# Reading back what a segment writes

Every writer of a segment's payload appends bits to a clean run and keeps it clean, and each
reader of `Decoder` takes back, from any run that the written one is a prefix of, the value
written, ending where the writer ended:

    (writeTimestamp r dod).toBits <+: R.toBits →
      (Decoder.timestamp R).run r.length = .ok (dod, (writeTimestamp r dod).length)
                                                                    (timestamp_of_prefix)

and the same for the status bit, the tag (`tag_of_prefix`), one value of a column with its
window (`value_of_prefix`) and the values of a sample (`values_of_prefix`). A window is read
back exactly as the writer left it, which is what lets the next value be read.

The bits each writer takes are the ones `Segment.neededBits` counts (`length_writeTimestamp`,
`length_writeTag`, `length_write`).
-/

namespace SeriesStore

open BitRun

/-! ## Zero counts of a word -/

theorem two_pow_trailingZerosUpTo_dvd (n k : Nat) : 2 ^ trailingZerosUpTo n k ∣ n := by
  induction k generalizing n with
  | zero => simp [trailingZerosUpTo]
  | succ k ih =>
    unfold trailingZerosUpTo
    by_cases h : n % 2 = 1
    · simp [h]
    · rw [if_neg h, Nat.pow_add, Nat.pow_one]
      exact Nat.dvd_trans (Nat.mul_dvd_mul_left 2 (ih (n / 2))) ⟨1, by omega⟩

theorem two_pow_trailingZeros_dvd (x : UInt64) : 2 ^ trailingZeros x ∣ x.toNat :=
  two_pow_trailingZerosUpTo_dvd _ _

theorem leadingZeros_le {x : UInt64} (hx : x ≠ 0) : leadingZeros x ≤ 63 := by
  simp [leadingZeros, hx]

theorem toNat_lt_two_pow_leadingZeros {x : UInt64} (hx : x ≠ 0) :
    x.toNat < 2 ^ (64 - leadingZeros x) := by
  have hx' : x.toNat ≠ 0 := fun h => hx (UInt64.toNat_inj.mp (by simpa using h))
  have hlog : x.toNat.log2 < 64 := (Nat.log2_lt hx').mpr x.toNat_lt
  have : 64 - leadingZeros x = x.toNat.log2 + 1 := by
    simp only [leadingZeros, hx, if_false]
    omega
  rw [this]
  exact Nat.lt_log2_self

/-- A word that is not zero has at least one bit between its zero runs. -/
theorem leadingZeros_add_trailingZeros {x : UInt64} (hx : x ≠ 0) :
    leadingZeros x + trailingZeros x ≤ 63 := by
  have hx' : 0 < x.toNat := by
    rcases Nat.eq_zero_or_pos x.toNat with h | h
    · exact absurd (UInt64.toNat_inj.mp (by simpa using h)) hx
    · exact h
  have hle : 2 ^ trailingZeros x ≤ x.toNat := Nat.le_of_dvd hx' (two_pow_trailingZeros_dvd x)
  have hlt := toNat_lt_two_pow_leadingZeros hx
  have : trailingZeros x < 64 - leadingZeros x :=
    (Nat.pow_lt_pow_iff_right (by omega)).mp (Nat.lt_of_le_of_lt hle hlt)
  have := leadingZeros_le hx
  omega

/-- The meaningful bits of a word, shifted down past `t ≤` its trailing zeros, shift back to
the word. -/
theorem shiftRight_shiftLeft_of_dvd (x : UInt64) (t : Nat) (ht : t < 64) (hd : 2 ^ t ∣ x.toNat) :
    (x >>> t.toUInt64).toNat.toUInt64 <<< t.toUInt64 = x := by
  have ht64 : t.toUInt64.toNat % 64 = t := by
    rw [Nat.toUInt64_eq, UInt64.toNat_ofNat']
    omega
  apply UInt64.toNat_inj.mp
  rw [UInt64.toNat_shiftLeft, ht64, Nat.toUInt64_eq, UInt64.toNat_ofNat', UInt64.toNat_shiftRight,
    ht64, Nat.shiftRight_eq_div_pow, Nat.shiftLeft_eq]
  have hlt := x.toNat_lt
  have hdiv : x.toNat / 2 ^ t < 2 ^ 64 := Nat.lt_of_le_of_lt (Nat.div_le_self _ _) hlt
  rw [Nat.mod_eq_of_lt hdiv, Nat.div_mul_cancel hd, Nat.mod_eq_of_lt hlt]

/-- The meaningful bits fit in what the window leaves between its zero runs. -/
theorem toNat_shiftRight_lt {x : UInt64} (hx : x ≠ 0) {l t : Nat} (hl : l ≤ leadingZeros x)
    (ht : t < 64) (hlt : l + t ≤ 64) : (x >>> t.toUInt64).toNat < 2 ^ (64 - l - t) := by
  have ht64 : t.toUInt64.toNat % 64 = t := by
    rw [Nat.toUInt64_eq, UInt64.toNat_ofNat']
    omega
  rw [UInt64.toNat_shiftRight, ht64, Nat.shiftRight_eq_div_pow, Nat.div_lt_iff_lt_mul
    (Nat.two_pow_pos t), ← Nat.pow_add, show 64 - l - t + t = 64 - l by omega]
  exact Nat.lt_of_lt_of_le (toNat_lt_two_pow_leadingZeros hx)
    (Nat.pow_le_pow_right (by omega) (by omega))

/-! ## Writers append to the list of bits -/

/-- A window whose zero counts leave room for at least one meaningful bit, or no window yet. -/
def Window.Valid (w : Window) : Prop :=
  w.leading = Window.none ∧ w.trailing = 0 ∨ w.leading + w.trailing ≤ 63

theorem clean_writeTimestamp {r : BitRun} (hr : r.Clean) (dod : Int) :
    (writeTimestamp r dod).Clean := by
  unfold writeTimestamp
  repeat' split
  · exact clean_pushBit hr _
  all_goals exact clean_pushBits (clean_pushBits hr _ _) _ _

theorem length_writeTimestamp (r : BitRun) (dod : Int) :
    (writeTimestamp r dod).length = r.length + timestampBits dod := by
  unfold writeTimestamp timestampBits
  repeat' split
  all_goals simp only [length_pushBit, length_pushBits]

/-- The bytes of a tag, eight bits each. -/
theorem clean_pushBytes (t : List UInt8) {r : BitRun} (hr : r.Clean) :
    (t.foldl (fun r b => r.pushBits b.toNat 8) r).Clean := by
  induction t generalizing r with
  | nil => exact hr
  | cons b t ih => exact ih (clean_pushBits hr _ _)

theorem toBits_pushBytes (t : List UInt8) {r : BitRun} (hr : r.Clean) :
    (t.foldl (fun r b => r.pushBits b.toNat 8) r).toBits =
      r.toBits ++ t.flatMap fun b => bitsOf b.toNat 8 := by
  induction t generalizing r with
  | nil => simp
  | cons b t ih =>
    rw [List.foldl_cons, ih (clean_pushBits hr _ _), toBits_pushBits hr, List.flatMap_cons,
      List.append_assoc]

theorem length_pushBytes (t : List UInt8) (r : BitRun) :
    (t.foldl (fun r b => r.pushBits b.toNat 8) r).length = r.length + 8 * t.length := by
  induction t generalizing r with
  | nil => simp
  | cons b t ih =>
    rw [List.foldl_cons, ih, length_pushBits, List.length_cons]
    omega

theorem clean_writeTag {r : BitRun} (hr : r.Clean) (tag : Option (List UInt8)) :
    (Segment.writeTag r tag).Clean := by
  cases tag with
  | none => exact clean_pushBit hr _
  | some t => exact clean_pushBytes t (clean_pushBits (clean_pushBit hr _) _ _)

theorem length_writeTag (r : BitRun) (tag : Option (List UInt8)) :
    (Segment.writeTag r tag).length = r.length + Segment.tagBits tag := by
  cases tag with
  | none => simp [Segment.writeTag, Segment.tagBits]
  | some t =>
    simp only [Segment.writeTag, Segment.tagBits, length_pushBytes, length_pushBits,
      length_pushBit]
    omega

theorem Window.clean_write {r : BitRun} (hr : r.Clean) (w : Window) (bits : UInt64) :
    (w.write r bits).1.Clean := by
  by_cases hx : w.prev ^^^ bits = 0
  · simpa [Window.write, hx] using clean_pushBit hr false
  · by_cases hre : w.reuses (leadingZeros (w.prev ^^^ bits)) (trailingZeros (w.prev ^^^ bits))
    · simpa [Window.write, hx, hre] using
        clean_pushBits (clean_pushBit (clean_pushBit hr true) false) _ _
    · simpa [Window.write, hx, hre] using clean_pushBits (clean_pushBits (clean_pushBits
        (clean_pushBit (clean_pushBit hr true) true) _ _) _ _) _ _

theorem Window.length_write (w : Window) (r : BitRun) (bits : UInt64) :
    (w.write r bits).1.length = r.length + w.encodedBits bits := by
  by_cases hx : w.prev ^^^ bits = 0
  · simp [Window.write, Window.encodedBits, hx]
  · by_cases hre : w.reuses (leadingZeros (w.prev ^^^ bits)) (trailingZeros (w.prev ^^^ bits))
    · simp [Window.write, Window.encodedBits, hx, hre]
      omega
    · simp [Window.write, Window.encodedBits, hx, hre]
      omega

theorem Window.valid_write {w : Window} (hw : w.Valid) (r : BitRun) (bits : UInt64) :
    (w.write r bits).2.Valid := by
  by_cases hx : w.prev ^^^ bits = 0
  · simpa [Window.write, hx, Window.Valid] using hw
  · by_cases hre : w.reuses (leadingZeros (w.prev ^^^ bits)) (trailingZeros (w.prev ^^^ bits))
    · simpa [Window.write, hx, hre, Window.Valid] using hw
    · simp only [Window.write, hx, hre, if_false, Bool.false_eq_true, Window.Valid]
      exact Or.inr (leadingZeros_add_trailingZeros hx)

theorem prefix_pushBit {r : BitRun} (hr : r.Clean) (b : Bool) :
    r.toBits <+: (r.pushBit b).toBits := by
  rw [toBits_pushBit hr]
  exact List.prefix_append _ _

theorem prefix_pushBits {r : BitRun} (hr : r.Clean) (v n : Nat) :
    r.toBits <+: (r.pushBits v n).toBits := by
  rw [toBits_pushBits hr]
  exact List.prefix_append _ _

theorem prefix_writeTimestamp {r : BitRun} (hr : r.Clean) (dod : Int) :
    r.toBits <+: (writeTimestamp r dod).toBits := by
  unfold writeTimestamp
  repeat' split
  · exact prefix_pushBit hr _
  all_goals exact (prefix_pushBits hr _ _).trans (prefix_pushBits (clean_pushBits hr _ _) _ _)

theorem prefix_writeTag {r : BitRun} (hr : r.Clean) (tag : Option (List UInt8)) :
    r.toBits <+: (Segment.writeTag r tag).toBits := by
  cases tag with
  | none => exact prefix_pushBit hr _
  | some t =>
    simp only [Segment.writeTag]
    rw [toBits_pushBytes t (clean_pushBits (clean_pushBit hr _) _ _),
      toBits_pushBits (clean_pushBit hr _), toBits_pushBit hr, List.append_assoc,
      List.append_assoc]
    exact List.prefix_append _ _

theorem Window.prefix_write {r : BitRun} (hr : r.Clean) (w : Window) (bits : UInt64) :
    r.toBits <+: (w.write r bits).1.toBits := by
  have h1 := clean_pushBit hr true
  by_cases hx : w.prev ^^^ bits = 0
  · simpa [Window.write, hx] using prefix_pushBit hr false
  · by_cases hre : w.reuses (leadingZeros (w.prev ^^^ bits)) (trailingZeros (w.prev ^^^ bits))
    · simp only [Window.write, hx, hre, if_false, if_true]
      exact (prefix_pushBit hr _).trans ((prefix_pushBit h1 _).trans
        (prefix_pushBits (clean_pushBit h1 _) _ _))
    · simp only [Window.write, hx, hre, if_false, Bool.false_eq_true]
      have h2 := clean_pushBit h1 true
      exact (prefix_pushBit hr _).trans ((prefix_pushBit h1 _).trans ((prefix_pushBits h2 _ _).trans
        ((prefix_pushBits (clean_pushBits h2 _ _) _ _).trans
          (prefix_pushBits (clean_pushBits (clean_pushBits h2 _ _) _ _) _ _))))

theorem clean_writeValues (ws : List Window) {r : BitRun} (hr : r.Clean) (bs : List UInt64) :
    (Segment.writeValues ws r bs).1.Clean := by
  induction ws generalizing r bs with
  | nil => exact hr
  | cons w ws ih =>
    cases bs with
    | nil => exact hr
    | cons b bs => exact ih (Window.clean_write hr w b) bs

theorem prefix_writeValues (ws : List Window) {r : BitRun} (hr : r.Clean) (bs : List UInt64) :
    r.toBits <+: (Segment.writeValues ws r bs).1.toBits := by
  induction ws generalizing r bs with
  | nil => exact List.prefix_refl _
  | cons w ws ih =>
    cases bs with
    | nil => exact List.prefix_refl _
    | cons b bs => exact (Window.prefix_write hr w b).trans (ih (Window.clean_write hr w b) bs)

theorem length_writeValues (ws : List Window) (r : BitRun) (bs : List UInt64) :
    (Segment.writeValues ws r bs).1.length =
      r.length + ((ws.zip bs).map fun (w, b) => w.encodedBits b).sum := by
  induction ws generalizing r bs with
  | nil => simp [Segment.writeValues]
  | cons w ws ih =>
    cases bs with
    | nil => simp [Segment.writeValues]
    | cons b bs =>
      simp only [Segment.writeValues, ih, Window.length_write, List.zip_cons_cons, List.map_cons,
        List.sum_cons]
      omega

theorem length_writeValues_windows (ws : List Window) (r : BitRun) (bs : List UInt64)
    (h : ws.length = bs.length) : (Segment.writeValues ws r bs).2.length = ws.length := by
  induction ws generalizing r bs with
  | nil => simp [Segment.writeValues]
  | cons w ws ih =>
    cases bs with
    | nil => simp at h
    | cons b bs => simp [Segment.writeValues, ih _ bs (by simpa using h)]

theorem valid_writeValues {ws : List Window} (hws : ∀ w ∈ ws, w.Valid) (r : BitRun)
    (bs : List UInt64) : ∀ w ∈ (Segment.writeValues ws r bs).2, w.Valid := by
  induction ws generalizing r bs with
  | nil => simp [Segment.writeValues]
  | cons w ws ih =>
    cases bs with
    | nil => simpa [Segment.writeValues] using hws
    | cons b bs =>
      simp only [Segment.writeValues, List.mem_cons, forall_eq_or_imp]
      exact ⟨Window.valid_write (hws w (by simp)) r b,
        ih (fun w' hw' => hws w' (by simp [hw'])) _ bs⟩

/-! ## Reading bits back -/

namespace Decoder

theorem run_bind_of_ok {α β : Type} {x : Decoder α} {f : α → Decoder β} {p p' : Nat} {a : α}
    (h : x.run p = .ok (a, p')) : (x >>= f).run p = (f a).run p' := by
  rw [StateT.run_bind, h]
  rfl

theorem run_pure {α : Type} (a : α) (p : Nat) : (pure a : Decoder α).run p = .ok (a, p) := rfl

theorem take_run {R : BitRun} (hR : R.Covers) {pre : List Bool} {v n : Nat}
    (h : pre ++ bitsOf v n <+: R.toBits) :
    (take R n).run pre.length = .ok (v % 2 ^ n, pre.length + n) := by
  simp only [StateT.run, take, readBits_of_prefix hR v n pre h]

theorem bit_run {R : BitRun} (hR : R.Covers) {pre : List Bool} {b : Bool}
    (h : pre ++ [b] <+: R.toBits) : (bit R).run pre.length = .ok (b, pre.length + 1) := by
  have hb : bitsOf (if b then 1 else 0) 1 = [b] := by cases b <;> rfl
  unfold bit
  rw [run_bind_of_ok (take_run hR (v := if b then 1 else 0) (by rw [hb]; exact h))]
  cases b <;> rfl

theorem take_at {R : BitRun} (hR : R.Covers) {pre : List Bool} {p v n : Nat}
    (hp : pre.length = p) (h : pre ++ bitsOf v n <+: R.toBits) :
    (take R n).run p = .ok (v % 2 ^ n, p + n) := by
  subst hp
  exact take_run hR h

theorem bit_at {R : BitRun} (hR : R.Covers) {pre : List Bool} {p : Nat} {b : Bool}
    (hp : pre.length = p) (h : pre ++ [b] <+: R.toBits) : (bit R).run p = .ok (b, p + 1) := by
  subst hp
  exact bit_run hR h

theorem signed32_mod {x : Int} (hx : -2 ^ 31 ≤ x ∧ x < 2 ^ 31) :
    signed32 (x % 4294967296).toNat = x := by
  unfold signed32
  split <;> omega

/-- A delta of deltas is read back in the class it was written in. -/
theorem timestamp_of_prefix {R : BitRun} (hR : R.Covers) {r : BitRun} (hr : r.Clean) {dod : Int}
    (hd : -2 ^ 31 ≤ dod ∧ dod < 2 ^ 31) (h : (writeTimestamp r dod).toBits <+: R.toBits) :
    (timestamp R).run r.length = .ok (dod, (writeTimestamp r dod).length) := by
  have hlen := length_toBits r
  have hinit : ∀ {l₁ l₂ : List Bool}, l₁ ++ l₂ <+: R.toBits → l₁ <+: R.toBits :=
    fun h => (List.prefix_append _ _).trans h
  unfold timestamp
  by_cases h0 : dod = 0
  · subst h0
    simp only [writeTimestamp, if_true, toBits_pushBit hr] at h ⊢
    rw [run_bind_of_ok (bit_at hR hlen h)]
    rfl
  by_cases h1 : -63 ≤ dod ∧ dod ≤ 64
  · simp only [writeTimestamp, h0, h1, and_self, if_true, if_false,
      toBits_pushBits (clean_pushBits hr _ _), toBits_pushBits hr] at h ⊢
    have hc : bitsOf 2 2 = [true] ++ [false] := rfl
    simp only [hc, ← List.append_assoc] at h
    rw [run_bind_of_ok (bit_at hR hlen (hinit (hinit h)))]
    simp only [Bool.not_true, Bool.false_eq_true, if_false]
    rw [run_bind_of_ok (bit_at hR (by simp) (hinit h))]
    simp only [Bool.not_false, if_true]
    rw [run_bind_of_ok (take_at hR (by simp) h)]
    simp only [run_pure, length_pushBits, Except.ok.injEq, Prod.mk.injEq, and_true]
    omega
  by_cases h2 : -255 ≤ dod ∧ dod ≤ 256
  · simp only [writeTimestamp, h0, h1, h2, and_self, if_true, if_false,
      toBits_pushBits (clean_pushBits hr _ _), toBits_pushBits hr] at h ⊢
    have hc : bitsOf 6 3 = [true] ++ [true] ++ [false] := rfl
    simp only [hc, ← List.append_assoc] at h
    rw [run_bind_of_ok (bit_at hR hlen (hinit (hinit (hinit h))))]
    simp only [Bool.not_true, Bool.false_eq_true, if_false]
    rw [run_bind_of_ok (bit_at hR (by simp) (hinit (hinit h)))]
    simp only [Bool.not_true, Bool.false_eq_true, if_false]
    rw [run_bind_of_ok (bit_at hR (by simp) (hinit h))]
    simp only [Bool.not_false, if_true]
    rw [run_bind_of_ok (take_at hR (by simp) h)]
    simp only [run_pure, length_pushBits, Except.ok.injEq, Prod.mk.injEq, and_true]
    omega
  by_cases h3 : -2047 ≤ dod ∧ dod ≤ 2048
  · simp only [writeTimestamp, h0, h1, h2, h3, and_self, if_true, if_false,
      toBits_pushBits (clean_pushBits hr _ _), toBits_pushBits hr] at h ⊢
    have hc : bitsOf 14 4 = [true] ++ [true] ++ [true] ++ [false] := rfl
    simp only [hc, ← List.append_assoc] at h
    rw [run_bind_of_ok (bit_at hR hlen (hinit (hinit (hinit (hinit h)))))]
    simp only [Bool.not_true, Bool.false_eq_true, if_false]
    rw [run_bind_of_ok (bit_at hR (by simp) (hinit (hinit (hinit h))))]
    simp only [Bool.not_true, Bool.false_eq_true, if_false]
    rw [run_bind_of_ok (bit_at hR (by simp) (hinit (hinit h)))]
    simp only [Bool.not_true, Bool.false_eq_true, if_false]
    rw [run_bind_of_ok (bit_at hR (by simp) (hinit h))]
    simp only [Bool.not_false, if_true]
    rw [run_bind_of_ok (take_at hR (by simp) h)]
    simp only [run_pure, length_pushBits, Except.ok.injEq, Prod.mk.injEq, and_true]
    omega
  · simp only [writeTimestamp, h0, h1, h2, h3, if_false,
      toBits_pushBits (clean_pushBits hr _ _), toBits_pushBits hr] at h ⊢
    have hc : bitsOf 15 4 = [true] ++ [true] ++ [true] ++ [true] := rfl
    simp only [hc, ← List.append_assoc] at h
    rw [run_bind_of_ok (bit_at hR hlen (hinit (hinit (hinit (hinit h)))))]
    simp only [Bool.not_true, Bool.false_eq_true, if_false]
    rw [run_bind_of_ok (bit_at hR (by simp) (hinit (hinit (hinit h))))]
    simp only [Bool.not_true, Bool.false_eq_true, if_false]
    rw [run_bind_of_ok (bit_at hR (by simp) (hinit (hinit h)))]
    simp only [Bool.not_true, Bool.false_eq_true, if_false]
    rw [run_bind_of_ok (bit_at hR (by simp) (hinit h))]
    simp only [Bool.not_true, Bool.false_eq_true, if_false]
    rw [run_bind_of_ok (take_at hR (by simp) h)]
    simp only [length_pushBits]
    have hlt : (dod % 4294967296).toNat < 2 ^ 32 := by omega
    rw [Nat.mod_eq_of_lt hlt, signed32_mod hd, run_pure]

/-- The bytes of a tag are read back one by one. -/
theorem bytes_of_prefix {R : BitRun} (hR : R.Covers) (t : List UInt8) :
    ∀ (pre : List Bool) (l : List Nat), l.length = t.length →
      pre ++ t.flatMap (fun b => bitsOf b.toNat 8) <+: R.toBits →
      (l.mapM fun _ => do
          let b ← take R 8
          pure b.toUInt8).run pre.length = .ok (t, pre.length + 8 * t.length) := by
  induction t with
  | nil =>
    intro pre l hl _
    rw [List.length_eq_zero_iff.mp hl]
    rfl
  | cons b t ih =>
    intro pre l hl h
    obtain ⟨i, l, rfl⟩ : ∃ i l', l = i :: l' := by
      cases l with
      | nil => simp at hl
      | cons i l' => exact ⟨i, l', rfl⟩
    rw [List.flatMap_cons, ← List.append_assoc] at h
    rw [List.mapM_cons, run_bind_of_ok (@run_bind_of_ok _ _ (take R 8) _ _ (pre.length + 8) _
      (take_run hR ((List.prefix_append _ _).trans h)))]
    have hrest := ih (pre ++ bitsOf b.toNat 8) l (by simpa using hl) h
    simp only [List.length_append, length_bitsOf] at hrest
    rw [run_bind_of_ok hrest, run_pure, Nat.mod_eq_of_lt b.toNat_lt, Nat.toUInt8_eq,
      UInt8.ofNat_toNat, List.length_cons]
    congr 2
    omega

/-- A tag is read back, its length byte first. -/
theorem tag_of_prefix {R : BitRun} (hR : R.Covers) {r : BitRun} (hr : r.Clean)
    {tag : Option (List UInt8)} (ht : tag.all fun t => t.length ≤ Segment.maxTagLength)
    (h : (Segment.writeTag r tag).toBits <+: R.toBits) :
    (Decoder.tag R).run r.length = .ok (tag, (Segment.writeTag r tag).length) := by
  have hlen := length_toBits r
  unfold Decoder.tag
  cases tag with
  | none =>
    simp only [Segment.writeTag, toBits_pushBit hr] at h ⊢
    rw [run_bind_of_ok (bit_at hR hlen h)]
    rfl
  | some t =>
    have ht : t.length ≤ 255 := of_decide_eq_true ht
    simp only [Segment.writeTag] at h ⊢
    rw [toBits_pushBytes t (clean_pushBits (clean_pushBit hr _) _ _),
      toBits_pushBits (clean_pushBit hr _), toBits_pushBit hr] at h
    rw [run_bind_of_ok (bit_at hR hlen ((List.prefix_append _ _).trans
      ((List.prefix_append _ _).trans h)))]
    simp only [Bool.not_true, Bool.false_eq_true, if_false]
    have hpre : (r.toBits ++ [true]).length = r.length + 1 := by simp
    rw [run_bind_of_ok (take_at hR hpre ((List.prefix_append _ _).trans h))]
    rw [Nat.mod_eq_of_lt (by omega : t.length < 2 ^ 8)]
    have hbytes := bytes_of_prefix hR t (r.toBits ++ [true] ++ bitsOf t.length 8)
      (List.range t.length) List.length_range h
    simp only [List.length_append, length_toBits, List.length_singleton, length_bitsOf] at hbytes
    rw [run_bind_of_ok hbytes]
    simp only [run_pure, length_pushBytes, length_pushBits, length_pushBit]

/-- One value of a column is read back, and the window after it is the one the writer
keeps. -/
theorem value_of_prefix {R : BitRun} (hR : R.Covers) {r : BitRun} (hr : r.Clean) {w : Window}
    (hw : w.Valid) (bits : UInt64) (h : (w.write r bits).1.toBits <+: R.toBits) :
    (value R w).run r.length = .ok ((bits, (w.write r bits).2), (w.write r bits).1.length) := by
  have hlen := length_toBits r
  have hinit : ∀ {l₁ l₂ : List Bool}, l₁ ++ l₂ <+: R.toBits → l₁ <+: R.toBits :=
    fun h => (List.prefix_append _ _).trans h
  unfold value
  by_cases hx : w.prev ^^^ bits = 0
  · have hprev : w.prev = bits := UInt64.xor_eq_zero_iff.mp hx
    simp only [Window.write, hx, if_true, toBits_pushBit hr] at h ⊢
    rw [run_bind_of_ok (bit_at hR hlen h)]
    obtain ⟨prev, leading, trailing⟩ := w
    simp only at hprev
    subst hprev
    rfl
  have hxor : w.prev ^^^ (w.prev ^^^ bits) = bits := by
    rw [← UInt64.xor_assoc, UInt64.xor_self, UInt64.zero_xor]
  have hl := leadingZeros_le hx
  have hlt := leadingZeros_add_trailingZeros hx
  by_cases hre : w.reuses (leadingZeros (w.prev ^^^ bits)) (trailingZeros (w.prev ^^^ bits))
  · have hre' := hre
    simp only [Window.reuses, Bool.and_eq_true, bne_iff_ne, ne_eq, decide_eq_true_eq] at hre'
    obtain ⟨⟨hnone, hL⟩, hT⟩ := hre'
    have hLT : w.leading + w.trailing ≤ 63 := hw.resolve_left fun h => hnone h.1
    simp only [Window.write, hx, if_false, hre, if_true,
      toBits_pushBits (clean_pushBit (clean_pushBit hr _) _), toBits_pushBit (clean_pushBit hr _),
      toBits_pushBit hr] at h ⊢
    rw [run_bind_of_ok (bit_at hR hlen (hinit (hinit h)))]
    simp only [Bool.not_true, Bool.false_eq_true, if_false]
    rw [run_bind_of_ok (bit_at hR (by simp) (hinit h))]
    simp only [Bool.not_false, if_true, show ¬ w.leading + w.trailing > 64 by omega, if_false]
    rw [run_bind_of_ok (take_at hR (by simp) h)]
    have hdvd : 2 ^ w.trailing ∣ (w.prev ^^^ bits).toNat :=
      Nat.dvd_trans (Nat.pow_dvd_pow 2 hT) (two_pow_trailingZeros_dvd _)
    rw [Nat.mod_eq_of_lt (toNat_shiftRight_lt hx hL (by omega) (by omega)),
      shiftRight_shiftLeft_of_dvd _ _ (by omega) hdvd, hxor]
    simp only [show ¬ w.trailing ≥ 64 by omega, if_false, run_pure, length_pushBits,
      length_pushBit]
  · simp only [Window.write, hx, if_false, hre, Bool.false_eq_true,
      toBits_pushBits (clean_pushBits (clean_pushBits (clean_pushBit (clean_pushBit hr _) _) _ _)
        _ _), toBits_pushBits (clean_pushBits (clean_pushBit (clean_pushBit hr _) _) _ _),
      toBits_pushBits (clean_pushBit (clean_pushBit hr _) _), toBits_pushBit (clean_pushBit hr _),
      toBits_pushBit hr] at h ⊢
    generalize hL : leadingZeros (w.prev ^^^ bits) = L at *
    generalize hT : trailingZeros (w.prev ^^^ bits) = T at *
    rw [run_bind_of_ok (bit_at hR hlen (hinit (hinit (hinit (hinit h)))))]
    simp only [Bool.not_true, Bool.false_eq_true, if_false]
    rw [run_bind_of_ok (bit_at hR (by simp) (hinit (hinit (hinit h))))]
    simp only [Bool.not_true, Bool.false_eq_true, if_false]
    rw [run_bind_of_ok (take_at hR (by simp) (hinit (hinit h)))]
    rw [run_bind_of_ok (take_at hR (by simp) (hinit h))]
    rw [Nat.mod_eq_of_lt (by omega : L < 2 ^ 6), Nat.mod_eq_of_lt (by omega : 64 - L - T - 1 < 2 ^ 6),
      show 64 - L - T - 1 + 1 = 64 - L - T by omega]
    simp only [show ¬ L + (64 - L - T) > 64 by omega, if_false,
      show 64 - (L + (64 - L - T)) = T by omega]
    rw [run_bind_of_ok (take_at hR (by simp) h)]
    have hfit : ((w.prev ^^^ bits) >>> T.toUInt64).toNat < 2 ^ (64 - L - T) := by
      rw [← hL]
      exact toNat_shiftRight_lt hx (Nat.le_refl _) (by omega) (by omega)
    have hdvd : 2 ^ T ∣ (w.prev ^^^ bits).toNat := by
      rw [← hT]
      exact two_pow_trailingZeros_dvd _
    rw [Nat.mod_eq_of_lt hfit, shiftRight_shiftLeft_of_dvd _ _ (by omega) hdvd, hxor]
    simp only [run_pure, length_pushBits, length_pushBit]

/-- The values of a sample are read back column by column, each window as its writer leaves
it. -/
theorem values_of_prefix {R : BitRun} (hR : R.Covers) (ws : List Window) {r : BitRun}
    (hr : r.Clean) (hws : ∀ w ∈ ws, w.Valid) (bs : List UInt64) (hlen : ws.length = bs.length)
    (h : (Segment.writeValues ws r bs).1.toBits <+: R.toBits) :
    (values R ws).run r.length = .ok ((bs.map Double.mk, (Segment.writeValues ws r bs).2),
      (Segment.writeValues ws r bs).1.length) := by
  induction ws generalizing r bs with
  | nil =>
    rw [List.length_eq_zero_iff.mp hlen.symm]
    rfl
  | cons w ws ih =>
    cases bs with
    | nil => simp at hlen
    | cons b bs =>
      simp only [Segment.writeValues] at h ⊢
      have hw := hws w (by simp)
      have hc := Window.clean_write hr w b
      have h1 := value_of_prefix hR hr hw b
        ((prefix_writeValues ws hc bs).trans h)
      have h2 := ih hc (fun w' hw' => hws w' (by simp [hw'])) bs (by simpa using hlen) h
      unfold values
      rw [run_bind_of_ok h1, run_bind_of_ok h2]
      rfl

end Decoder

end SeriesStore
