import SeriesStore.Segment.Layout
import SeriesStore.Proofs.Segment

/-!
# The stored layout reads back

A segment is stored as a fixed part of little endian fields followed by the payload bytes. The
reader and the writer are inverse to each other in both directions. Every segment that the
invariant `Sound` describes fits the widths of the layout (`Storable`), and reads back as
itself:

    s.Sound es → ofBytes s.toBytes = .ok s                                (Sound.ofBytes_toBytes)

and every byte string that the reader accepts is written back unchanged:

    ofBytes b = .ok s → s.toBytes = b                                      (toBytes_ofBytes)

Both rest on one pair of laws for little endian numbers, `leValue_littleEndian` and
`littleEndian_leValue`, and on reader lemmas stated against the bytes left after a position,
`bytes.toList.drop p`: a reader that succeeds consumed the encoding of what it read, and a
reader started where an encoding begins reads it back.
-/

namespace SeriesStore

/-! ## Little endian numbers -/

/-- The number that bytes stand for, least significant first. -/
def leValue : List UInt8 → Nat
  | [] => 0
  | b :: bs => b.toNat + 256 * leValue bs

@[simp] theorem length_littleEndian (n k : Nat) : (littleEndian n k).length = k := by
  simp [littleEndian]

@[simp] theorem length_littleEndianSigned (x : Int) (k : Nat) :
    (littleEndianSigned x k).length = k := by
  simp [littleEndianSigned]

theorem littleEndian_succ (n k : Nat) :
    littleEndian n (k + 1) = (n % 256).toUInt8 :: littleEndian (n / 256) k := by
  rw [littleEndian, List.range_succ_eq_map, List.map_cons, List.map_map, littleEndian]
  congr 1
  · simp
  · apply List.map_congr_left
    intro i _
    simp only [Function.comp, Nat.div_div_eq_div_mul, Nat.pow_succ']

theorem leValue_littleEndian (n k : Nat) : leValue (littleEndian n k) = n % 256 ^ k := by
  induction k generalizing n with
  | zero => simp [littleEndian, leValue, Nat.mod_one]
  | succ k ih =>
    rw [littleEndian_succ, leValue, ih, Nat.pow_succ', Nat.mod_mul, Nat.toUInt8_eq,
      UInt8.toNat_ofNat']
    omega

theorem littleEndian_leValue (bs : List UInt8) : littleEndian (leValue bs) bs.length = bs := by
  induction bs with
  | nil => rfl
  | cons b bs ih =>
    have hb : b.toNat < 256 := b.toNat_lt
    rw [List.length_cons, littleEndian_succ, leValue]
    congr 1
    · rw [Nat.add_mul_mod_self_left, Nat.mod_eq_of_lt hb, Nat.toUInt8_eq, UInt8.ofNat_toNat]
    · have hdiv : (b.toNat + 256 * leValue bs) / 256 = leValue bs := by omega
      rw [hdiv, ih]

/-- The two's complement pattern of a number in range is the pattern of its unsigned reading. -/
theorem littleEndianSigned_eq {x : Int} {v k : Nat} (hv : v < 2 ^ (8 * k))
    (hx : x = if v ≥ 2 ^ (8 * k - 1) then (v : Int) - 2 ^ (8 * k) else v) :
    littleEndianSigned x k = littleEndian v k := by
  have hlt : (v : Int) < 2 ^ (8 * k) := by exact_mod_cast hv
  have hcast : ((2 ^ (8 * k) : Nat) : Int) = 2 ^ (8 * k) := by norm_cast
  have hmod : x % ((2 ^ (8 * k) : Nat) : Int) = v := by
    rw [hx, hcast]
    split
    · rw [Int.sub_emod, Int.emod_self, Int.sub_zero, Int.emod_emod_of_dvd _ (dvd_refl _)]
      exact Int.emod_eq_of_lt (Int.natCast_nonneg v) hlt
    · exact Int.emod_eq_of_lt (Int.natCast_nonneg v) hlt
  rw [littleEndianSigned, hmod, Int.toNat_natCast]

theorem littleEndian_one (n : Nat) : littleEndian n 1 = [n.toUInt8] := by
  rw [littleEndian_succ]
  simp only [littleEndian, List.range_zero, List.map_nil, List.cons.injEq, and_true]
  rw [Nat.toUInt8_eq, Nat.toUInt8_eq, ← UInt8.toNat_inj, UInt8.toNat_ofNat', UInt8.toNat_ofNat']
  omega

/-- A signed number in range, reduced modulo `2 ^ (8 * k)`, reads back as itself in two's
complement. -/
theorem twosComplement_emod {x : Int} {k : Nat} (hk : 0 < k) (hlo : -2 ^ (8 * k - 1) ≤ x)
    (hhi : x < 2 ^ (8 * k - 1)) :
    (x % ((2 ^ (8 * k) : Nat) : Int)).toNat < 2 ^ (8 * k) ∧
      (if (x % ((2 ^ (8 * k) : Nat) : Int)).toNat ≥ 2 ^ (8 * k - 1)
        then ((x % ((2 ^ (8 * k) : Nat) : Int)).toNat : Int) - 2 ^ (8 * k)
        else ((x % ((2 ^ (8 * k) : Nat) : Int)).toNat : Int)) = x := by
  have hcast : (2 : Int) ^ (8 * k) = ((2 ^ (8 * k) : Nat) : Int) := by norm_cast
  have hcastH : (2 : Int) ^ (8 * k - 1) = ((2 ^ (8 * k - 1) : Nat) : Int) := by norm_cast
  have hsplit : 2 ^ (8 * k) = 2 * 2 ^ (8 * k - 1) := by
    rw [← Nat.pow_succ']
    congr 1
    omega
  rw [hcast]
  rw [hcastH] at hlo hhi
  rw [hsplit]
  generalize 2 ^ (8 * k - 1) = H at hlo hhi ⊢
  -- below zero the pattern is the number plus the modulus
  by_cases hx : 0 ≤ x
  · have hmod : x % ((2 * H : Nat) : Int) = x := Int.emod_eq_of_lt hx (by omega)
    have hv := Int.toNat_of_nonneg hx
    rw [hmod]
    split <;> omega
  · have hmod : x % ((2 * H : Nat) : Int) = x + ((2 * H : Nat) : Int) := by
      rw [← Int.add_emod_right]
      exact Int.emod_eq_of_lt (by omega) (by omega)
    have hv := Int.toNat_of_nonneg (show 0 ≤ x + ((2 * H : Nat) : Int) by omega)
    rw [hmod]
    split <;> omega

theorem leValue_lt (bs : List UInt8) : leValue bs < 256 ^ bs.length := by
  induction bs with
  | nil => simp [leValue]
  | cons b bs ih =>
    have hb : b.toNat < 256 := b.toNat_lt
    rw [leValue, List.length_cons, Nat.pow_succ']
    omega

/-- Bytes read from position `p` on, when what was written there is known. -/
theorem drop_add_of_drop {L xs rest : List UInt8} {p : Nat} (h : L.drop p = xs ++ rest) :
    L.drop (p + xs.length) = rest := by
  rw [← List.drop_drop, h, List.drop_left]

/-! ## Reading fields -/

namespace LayoutReader

theorem run_bind_eq_ok {α β : Type} {x : LayoutReader α} {f : α → LayoutReader β} {p p'' : Nat}
    {b : β} : (x >>= f).run p = .ok (b, p'') ↔
      ∃ a p', x.run p = .ok (a, p') ∧ (f a).run p' = .ok (b, p'') := by
  rw [StateT.run_bind]
  cases h : x.run p with
  | error e =>
    constructor
    · intro hb
      cases hb
    · rintro ⟨a, p', hx, _⟩
      cases hx
  | ok ap =>
    obtain ⟨a, p'⟩ := ap
    constructor
    · intro hb
      exact ⟨a, p', rfl, hb⟩
    · rintro ⟨a', p₁, hx, hf⟩
      cases hx
      exact hf

theorem run_bind_of_ok {α β : Type} {x : LayoutReader α} {f : α → LayoutReader β} {p p' : Nat}
    {a : α} (h : x.run p = .ok (a, p')) : (x >>= f).run p = (f a).run p' := by
  rw [StateT.run_bind, h]
  rfl

theorem run_pure {α : Type} (a : α) (p : Nat) : (pure a : LayoutReader α).run p = .ok (a, p) :=
  rfl

theorem foldr_range_eq_leValue (g : Nat → UInt8) (k : Nat) :
    (List.range k).foldr (fun i acc => acc * 256 + (g i).toNat) 0 =
      leValue ((List.range k).map g) := by
  induction k generalizing g with
  | zero => rfl
  | succ k ih =>
    have h := ih (fun i => g (i + 1))
    rw [List.range_succ_eq_map, List.foldr_cons, List.foldr_map, List.map_cons, List.map_map,
      leValue]
    simp only [Function.comp_def, Nat.succ_eq_add_one] at h ⊢
    rw [h]
    omega

theorem map_range_eq_take_drop {bytes : Array UInt8} {p k : Nat} (h : p + k ≤ bytes.size) :
    (List.range k).map (fun i => bytes[p + i]?.getD 0) = (bytes.toList.drop p).take k := by
  apply List.ext_getElem
  · simp
    omega
  · intro i h1 _
    have hi : p + i < bytes.size := by
      simp at h1
      omega
    simp [Array.getElem?_eq_getElem hi]

theorem run_number (bytes : Array UInt8) (k p : Nat) : (number bytes k).run p =
    if p + k ≤ bytes.size then .ok (leValue ((bytes.toList.drop p).take k), p + k)
    else .error (.corruption "segment header truncated") := by
  simp only [StateT.run, number]
  split
  · next hfit => rw [foldr_range_eq_leValue, map_range_eq_take_drop hfit]
  · rfl

variable {bytes : Array UInt8}

/-- A number read consumed its own little endian bytes. -/
theorem number_consumes {k p v p' : Nat} (h : (number bytes k).run p = .ok (v, p')) :
    p' = p + k ∧ v < 256 ^ k ∧ littleEndian v k ++ bytes.toList.drop p' = bytes.toList.drop p := by
  rw [run_number] at h
  split at h
  · next hfit =>
    simp only [Except.ok.injEq, Prod.mk.injEq] at h
    obtain ⟨rfl, rfl⟩ := h
    have hlen : ((bytes.toList.drop p).take k).length = k := by
      simp
      omega
    have hback := littleEndian_leValue ((bytes.toList.drop p).take k)
    have hlt := leValue_lt ((bytes.toList.drop p).take k)
    rw [hlen] at hback hlt
    refine ⟨rfl, hlt, ?_⟩
    rw [hback, ← List.drop_drop, List.take_append_drop]
  · cases h

/-- A number reads back from where its little endian bytes begin. -/
theorem number_of_drop {k p v : Nat} {rest : List UInt8} (hk : 0 < k) (hv : v < 256 ^ k)
    (h : bytes.toList.drop p = littleEndian v k ++ rest) :
    (number bytes k).run p = .ok (v, p + k) := by
  have hlen := congrArg List.length h
  simp only [List.length_drop, Array.length_toList, List.length_append,
    length_littleEndian] at hlen
  have hfit : p + k ≤ bytes.size := by omega
  rw [run_number, if_pos hfit, h, List.take_left' (length_littleEndian v k),
    leValue_littleEndian, Nat.mod_eq_of_lt hv]

/-- A signed number read consumed its two's complement bytes. -/
theorem signed_consumes {k p p' : Nat} {x : Int} (h : (signed bytes k).run p = .ok (x, p')) :
    littleEndianSigned x k ++ bytes.toList.drop p' = bytes.toList.drop p := by
  obtain ⟨v, p₁, hv, hx⟩ := run_bind_eq_ok.mp h
  rw [run_pure] at hx
  simp only [Except.ok.injEq, Prod.mk.injEq] at hx
  obtain ⟨hx, rfl⟩ := hx
  obtain ⟨-, hlt, henc⟩ := number_consumes hv
  rw [littleEndianSigned_eq (by rwa [Nat.pow_mul]) hx.symm, henc]

/-- A signed number in range reads back from where its two's complement bytes begin. -/
theorem signed_of_drop {k p : Nat} {x : Int} {rest : List UInt8} (hk : 0 < k)
    (hlo : -2 ^ (8 * k - 1) ≤ x) (hhi : x < 2 ^ (8 * k - 1))
    (h : bytes.toList.drop p = littleEndianSigned x k ++ rest) :
    (signed bytes k).run p = .ok (x, p + k) := by
  obtain ⟨hlt, hback⟩ := twosComplement_emod hk hlo hhi
  have hv : (x % ((2 ^ (8 * k) : Nat) : Int)).toNat < 256 ^ k :=
    Nat.lt_of_lt_of_eq hlt (by rw [Nat.pow_mul])
  have hread := number_of_drop hk hv h
  rw [signed, run_bind_of_ok hread, run_pure, hback]

theorem toNat_toUInt64 {v : Nat} (hv : v < 256 ^ 8) : v.toUInt64.toNat = v := by
  rw [Nat.toUInt64_eq, UInt64.toNat_ofNat']
  exact Nat.mod_eq_of_lt hv

/-- A double read consumed the bytes of its bit pattern. -/
theorem double_consumes {p p' : Nat} {d : Double} (h : (double bytes).run p = .ok (d, p')) :
    littleEndian d.bits.toNat 8 ++ bytes.toList.drop p' = bytes.toList.drop p := by
  obtain ⟨v, p₁, hv, hd⟩ := run_bind_eq_ok.mp h
  rw [run_pure] at hd
  simp only [Except.ok.injEq, Prod.mk.injEq] at hd
  obtain ⟨rfl, rfl⟩ := hd
  obtain ⟨-, hlt, henc⟩ := number_consumes hv
  rw [toNat_toUInt64 hlt, henc]

theorem double_of_drop {p : Nat} {d : Double} {rest : List UInt8}
    (h : bytes.toList.drop p = littleEndian d.bits.toNat 8 ++ rest) :
    (double bytes).run p = .ok (d, p + 8) := by
  rw [double, run_bind_of_ok (number_of_drop (by decide) d.bits.toNat_lt h), run_pure,
    Nat.toUInt64_eq, UInt64.ofNat_toNat]

/-- A column summary read consumed its stored bytes. -/
theorem column_consumes {p p' : Nat} {c : ColumnSummary}
    (h : (column bytes).run p = .ok (c, p')) :
    Segment.columnBytes c ++ bytes.toList.drop p' = bytes.toList.drop p := by
  obtain ⟨first, p₁, h₁, h⟩ := run_bind_eq_ok.mp h
  obtain ⟨last, p₂, h₂, h⟩ := run_bind_eq_ok.mp h
  obtain ⟨min, p₃, h₃, h⟩ := run_bind_eq_ok.mp h
  obtain ⟨max, p₄, h₄, h⟩ := run_bind_eq_ok.mp h
  obtain ⟨sum, p₅, h₅, h⟩ := run_bind_eq_ok.mp h
  obtain ⟨count, p₆, h₆, h⟩ := run_bind_eq_ok.mp h
  rw [run_pure] at h
  simp only [Except.ok.injEq, Prod.mk.injEq] at h
  obtain ⟨rfl, rfl⟩ := h
  obtain ⟨-, -, e₆⟩ := number_consumes h₆
  simp only [Segment.columnBytes, List.flatMap_cons, List.flatMap_nil, List.append_nil,
    List.append_assoc]
  rw [e₆, double_consumes h₅, double_consumes h₄, double_consumes h₃, double_consumes h₂,
    double_consumes h₁]

/-- A column summary whose count fits 32 bits reads back from where its bytes begin. -/
theorem column_of_drop {p : Nat} {c : ColumnSummary} {rest : List UInt8} (hc : c.count < 2 ^ 32)
    (h : bytes.toList.drop p = Segment.columnBytes c ++ rest) :
    (column bytes).run p = .ok (c, p + (Segment.columnBytes c).length) := by
  simp only [Segment.columnBytes, List.flatMap_cons, List.flatMap_nil, List.append_nil,
    List.append_assoc] at h
  have h₁ := double_of_drop h
  have h₂ := double_of_drop (drop_add_of_drop h)
  have h₃ := double_of_drop (drop_add_of_drop (drop_add_of_drop h))
  have h₄ := double_of_drop (drop_add_of_drop (drop_add_of_drop (drop_add_of_drop h)))
  have h₅ := double_of_drop
    (drop_add_of_drop (drop_add_of_drop (drop_add_of_drop (drop_add_of_drop h))))
  have h₆ := number_of_drop (by decide) hc (drop_add_of_drop
    (drop_add_of_drop (drop_add_of_drop (drop_add_of_drop (drop_add_of_drop h)))))
  simp only [length_littleEndian] at h₂ h₃ h₄ h₅ h₆
  rw [column, run_bind_of_ok h₁, run_bind_of_ok h₂, run_bind_of_ok h₃, run_bind_of_ok h₄,
    run_bind_of_ok h₅, run_bind_of_ok h₆, run_pure]
  simp only [Segment.columnBytes, List.length_append, List.length_flatMap, length_littleEndian]
  rfl

/-- A window read consumed its stored bytes. -/
theorem window_consumes {p p' : Nat} {w : Window} (h : (window bytes).run p = .ok (w, p')) :
    Segment.windowBytes w ++ bytes.toList.drop p' = bytes.toList.drop p := by
  obtain ⟨prev, p₁, h₁, h⟩ := run_bind_eq_ok.mp h
  obtain ⟨leading, p₂, h₂, h⟩ := run_bind_eq_ok.mp h
  obtain ⟨trailing, p₃, h₃, h⟩ := run_bind_eq_ok.mp h
  rw [run_pure] at h
  simp only [Except.ok.injEq, Prod.mk.injEq] at h
  obtain ⟨rfl, rfl⟩ := h
  obtain ⟨-, hprev, e₁⟩ := number_consumes h₁
  obtain ⟨-, -, e₂⟩ := number_consumes h₂
  obtain ⟨-, -, e₃⟩ := number_consumes h₃
  rw [littleEndian_one] at e₂ e₃
  simp only [Segment.windowBytes, toNat_toUInt64 hprev]
  rw [← e₁, ← e₂, ← e₃]
  simp

/-- A window whose zero counts fit a byte each reads back from where its bytes begin. -/
theorem window_of_drop {p : Nat} {w : Window} {rest : List UInt8} (hl : w.leading < 256)
    (ht : w.trailing < 256) (h : bytes.toList.drop p = Segment.windowBytes w ++ rest) :
    (window bytes).run p = .ok (w, p + (Segment.windowBytes w).length) := by
  have h' : bytes.toList.drop p = littleEndian w.prev.toNat 8 ++ (littleEndian w.leading 1 ++
      (littleEndian w.trailing 1 ++ rest)) := by
    rw [h, Segment.windowBytes, littleEndian_one, littleEndian_one]
    simp
  have hprev : w.prev.toNat < 256 ^ 8 := w.prev.toNat_lt
  have h₁ := number_of_drop (by decide) hprev h'
  have h₂ := number_of_drop (by decide) hl (drop_add_of_drop h')
  have h₃ := number_of_drop (by decide) ht (drop_add_of_drop (drop_add_of_drop h'))
  simp only [length_littleEndian] at h₂ h₃
  rw [window, run_bind_of_ok h₁, run_bind_of_ok h₂, run_bind_of_ok h₃, run_pure,
    Nat.toUInt64_eq, UInt64.ofNat_toNat]
  simp [Segment.windowBytes]

/-- Reading the same field once for each element of `l` consumed the fields' bytes. -/
theorem mapM_consumes {α β : Type} {x : LayoutReader α} {enc : α → List UInt8}
    (hx : ∀ {p a p'}, x.run p = .ok (a, p') → enc a ++ bytes.toList.drop p' = bytes.toList.drop p)
    (l : List β) {p p' : Nat} {as : List α} (h : (l.mapM fun _ => x).run p = .ok (as, p')) :
    as.length = l.length ∧ as.flatMap enc ++ bytes.toList.drop p' = bytes.toList.drop p := by
  induction l generalizing p as with
  | nil =>
    rw [List.mapM_nil, run_pure] at h
    simp only [Except.ok.injEq, Prod.mk.injEq] at h
    obtain ⟨rfl, rfl⟩ := h
    simp
  | cons b l ih =>
    rw [List.mapM_cons] at h
    obtain ⟨a, p₁, h₁, h⟩ := run_bind_eq_ok.mp h
    obtain ⟨as', p₂, h₂, h⟩ := run_bind_eq_ok.mp h
    rw [run_pure] at h
    simp only [Except.ok.injEq, Prod.mk.injEq] at h
    obtain ⟨rfl, rfl⟩ := h
    obtain ⟨hlen, e₂⟩ := ih h₂
    refine ⟨by simp [hlen], ?_⟩
    rw [List.flatMap_cons, List.append_assoc, e₂, hx h₁]

/-- Fields that read back one by one read back as a list, one for each element of `l`. -/
theorem mapM_of_drop {α β : Type} {x : LayoutReader α} {enc : α → List UInt8} {ok : α → Prop}
    (hx : ∀ {p a rest}, ok a → bytes.toList.drop p = enc a ++ rest →
      x.run p = .ok (a, p + (enc a).length))
    (l : List β) {as : List α} (hlen : as.length = l.length) (hok : ∀ a ∈ as, ok a) {p : Nat}
    {rest : List UInt8} (h : bytes.toList.drop p = as.flatMap enc ++ rest) :
    (l.mapM fun _ => x).run p = .ok (as, p + (as.flatMap enc).length) := by
  induction l generalizing p as with
  | nil =>
    rw [List.length_eq_zero_iff.mp hlen, List.mapM_nil, run_pure]
    simp
  | cons b l ih =>
    obtain ⟨a, as', rfl⟩ := List.exists_cons_of_length_eq_add_one hlen
    rw [List.flatMap_cons, List.append_assoc] at h
    have h₁ := hx (hok a List.mem_cons_self) h
    have h₂ := ih (by simpa using hlen) (fun a' ha' => hok a' (List.mem_cons_of_mem a ha'))
      (drop_add_of_drop h)
    rw [List.mapM_cons, run_bind_of_ok h₁, run_bind_of_ok h₂, run_pure]
    simp [Nat.add_assoc]

end LayoutReader

end SeriesStore

namespace SeriesStore

namespace Segment

open LayoutReader

/-- The fields fit the widths the stored layout gives them. -/
structure Storable (s : Segment) : Prop where
  width_pos : 0 < s.width
  width_le : s.width ≤ maxWidth
  entries_lt : s.entries < 2 ^ 32
  live_le : s.live ≤ s.entries
  length_lt : s.payload.length < 2 ^ 32
  lastOffset_ge : -2 ^ 31 ≤ s.lastOffset
  lastOffset_lt : s.lastOffset < 2 ^ 31
  lastDelta_ge : -2 ^ 31 ≤ s.lastDelta
  lastDelta_lt : s.lastDelta < 2 ^ 31
  columns_length : s.columns.length = s.width
  windows_length : s.windows.length = s.width
  counts_lt : ∀ c ∈ s.columns, c.count < 2 ^ 32
  leading_lt : ∀ w ∈ s.windows, w.leading < 256
  trailing_lt : ∀ w ∈ s.windows, w.trailing < 256
  size_eq : s.payload.bytes.size = (s.payload.length + 7) / 8
  size_le : s.sizeInBytes ≤ maxSize

/-- A sound segment fits the stored layout: its counters are bounded by its payload, its
offsets by the offset limit, and its windows hold zero counts below 64. -/
theorem Sound.storable {s : Segment} {es : List Entry} (h : s.Sound es) : s.Storable := by
  have hpay := h.payload_le
  have hentries := h.entries_le
  have hlive := h.live_le
  have hoff := h.lastOffset_lt
  have hdelta := h.lastDelta_nonneg
  have hle := h.lastDelta_le
  unfold maxSize at hpay
  unfold offsetLimit at hoff
  exact {
    width_pos := h.width_pos
    width_le := h.width_le
    entries_lt := by omega
    live_le := hlive
    length_lt := by omega
    lastOffset_ge := by omega
    lastOffset_lt := by omega
    lastDelta_ge := by omega
    lastDelta_lt := by omega
    columns_length := by rw [h.columns_eq, List.length_map, List.length_range]
    windows_length := h.windows_length
    counts_lt := fun c hc => by have := h.counts_le c hc; omega
    leading_lt := fun w hw => by
      rcases h.windows_valid w hw with ⟨hnone, -⟩ | hsum
      · rw [hnone]
        decide
      · omega
    trailing_lt := fun w hw => by
      rcases h.windows_valid w hw with ⟨-, hzero⟩ | hsum <;> omega
    size_eq := h.clean.size_eq
    size_le := h.size_le }

/-- The stored bytes, field by field. -/
theorem toList_toBytes (s : Segment) : s.toBytes.toList =
    littleEndian s.width 2 ++ (littleEndian s.entries 4 ++ (littleEndian s.live 4 ++
      (littleEndian s.payload.length 4 ++ (littleEndianSigned s.lastOffset 4 ++
        (littleEndianSigned s.lastDelta 4 ++ (s.columns.flatMap columnBytes ++
          (s.windows.flatMap windowBytes ++ s.payload.bytes.toList))))))) := by
  simp [toBytes]

theorem readFixed_of_storable {s : Segment} (hs : s.Storable) :
    (readFixed s.toBytes).run 0 = .ok ({ s with payload := ⟨#[], s.payload.length⟩ },
      22 + (s.columns.flatMap columnBytes).length + (s.windows.flatMap windowBytes).length) := by
  have hL : s.toBytes.toList.drop 0 = _ := toList_toBytes s
  have hw := hs.width_le
  unfold maxWidth at hw
  have h₁ := number_of_drop (by decide) (show s.width < 256 ^ 2 by omega) hL
  have h₂ := number_of_drop (by decide) (show s.entries < 256 ^ 4 from hs.entries_lt)
    (drop_add_of_drop hL)
  have h₃ := number_of_drop (by decide) (show s.live < 256 ^ 4 by have := hs.live_le; have := hs.entries_lt; omega)
    (drop_add_of_drop (drop_add_of_drop hL))
  have h₄ := number_of_drop (by decide) (show s.payload.length < 256 ^ 4 from hs.length_lt)
    (drop_add_of_drop (drop_add_of_drop (drop_add_of_drop hL)))
  have h₅ := signed_of_drop (by decide) hs.lastOffset_ge hs.lastOffset_lt
    (drop_add_of_drop (drop_add_of_drop (drop_add_of_drop (drop_add_of_drop hL))))
  have h₆ := signed_of_drop (by decide) hs.lastDelta_ge hs.lastDelta_lt
    (drop_add_of_drop (drop_add_of_drop (drop_add_of_drop (drop_add_of_drop
      (drop_add_of_drop hL)))))
  have hcols := drop_add_of_drop (drop_add_of_drop (drop_add_of_drop (drop_add_of_drop
      (drop_add_of_drop (drop_add_of_drop hL)))))
  have h₇ := mapM_of_drop (fun hok hd => column_of_drop hok hd) (List.range s.width)
    (by simp [hs.columns_length]) hs.counts_lt hcols
  have h₈ := mapM_of_drop
    (fun {_ w _} (hok : w.leading < 256 ∧ w.trailing < 256) hd => window_of_drop hok.1 hok.2 hd)
    (List.range s.width)
    (by simp [hs.windows_length]) (fun w hw => ⟨hs.leading_lt w hw, hs.trailing_lt w hw⟩)
    (drop_add_of_drop hcols)
  simp only [length_littleEndian, Nat.zero_add] at h₁ h₂ h₃ h₄ h₅
  simp only [length_littleEndian, length_littleEndianSigned, Nat.zero_add] at h₆ h₇ h₈
  have hwidth : ¬(s.width = 0 ∨ s.width > maxWidth) := by
    have := hs.width_pos
    unfold maxWidth
    omega
  have hlive : ¬(s.live > s.entries) := Nat.not_lt.mpr hs.live_le
  rw [readFixed, run_bind_of_ok h₁]
  simp only [hwidth, if_false]
  rw [run_bind_of_ok h₂, run_bind_of_ok h₃, run_bind_of_ok h₄, run_bind_of_ok h₅,
    run_bind_of_ok h₆]
  simp only [hlive, if_false]
  rw [run_bind_of_ok h₇, run_bind_of_ok h₈, run_pure]

theorem size_toBytes (s : Segment) (hs : s.Storable) : s.toBytes.size = s.sizeInBytes := by
  rw [← Array.length_toList, toList_toBytes, sizeInBytes, BitRun.byteLength, ← hs.size_eq]
  simp [List.length_flatMap, columnBytes, windowBytes, hs.columns_length, hs.windows_length,
    headerSize, columnSize]
  omega

theorem extract_toBytes (s : Segment) : s.toBytes.extract (22 + (s.columns.flatMap columnBytes).length +
    (s.windows.flatMap windowBytes).length) = s.payload.bytes := by
  have hL : s.toBytes.toList.drop 0 = _ := toList_toBytes s
  have hrest := drop_add_of_drop (drop_add_of_drop (drop_add_of_drop (drop_add_of_drop
    (drop_add_of_drop (drop_add_of_drop (drop_add_of_drop (drop_add_of_drop hL)))))))
  simp only [length_littleEndian, length_littleEndianSigned, Nat.zero_add, Nat.reduceAdd] at hrest
  have hlen := congrArg List.length hrest
  simp only [List.length_drop, Array.length_toList] at hlen
  apply Array.toList_inj.mp
  rw [Array.toList_extract, List.extract_eq_take_drop, hrest]
  exact List.take_of_length_le (by simp only [Array.length_toList] at hlen ⊢; omega)

theorem ofBytes_toBytes_of_storable {s : Segment} (hs : s.Storable) :
    ofBytes s.toBytes = .ok s := by
  have hsize := size_toBytes s hs
  have hle := hs.size_le
  unfold ofBytes
  dsimp only
  rw [if_neg (by omega), readFixed_of_storable hs]
  dsimp only [bind, Except.bind]
  simp only [extract_toBytes, hs.size_eq, ne_eq, not_true_eq_false, if_false]
  rfl

/-- A sound segment reads back from its stored bytes as itself. -/
theorem Sound.ofBytes_toBytes {s : Segment} {es : List Entry} (h : s.Sound es) :
    ofBytes s.toBytes = .ok s :=
  ofBytes_toBytes_of_storable h.storable

/-- What the fixed-part reader read, written back, is the bytes it read. -/
theorem readFixed_consumes {bytes : Array UInt8} {s : Segment} {p : Nat}
    (h : (readFixed bytes).run 0 = .ok (s, p)) :
    s.payload.bytes = #[] ∧ s.toBytes.toList ++ bytes.toList.drop p = bytes.toList := by
  rw [readFixed] at h
  obtain ⟨width, p₁, h₁, h⟩ := run_bind_eq_ok.mp h
  by_cases hw : width = 0 ∨ width > maxWidth
  · simp only [hw, if_true] at h
    obtain ⟨_, _, hthrow, _⟩ := run_bind_eq_ok.mp h
    cases hthrow
  simp only [hw, if_false] at h
  obtain ⟨entries, p₂, h₂, h⟩ := run_bind_eq_ok.mp h
  obtain ⟨live, p₃, h₃, h⟩ := run_bind_eq_ok.mp h
  obtain ⟨bitLength, p₄, h₄, h⟩ := run_bind_eq_ok.mp h
  obtain ⟨lastOffset, p₅, h₅, h⟩ := run_bind_eq_ok.mp h
  obtain ⟨lastDelta, p₆, h₆, h⟩ := run_bind_eq_ok.mp h
  by_cases hlive : live > entries
  · simp only [hlive, if_true] at h
    obtain ⟨_, _, hthrow, _⟩ := run_bind_eq_ok.mp h
    cases hthrow
  simp only [hlive, if_false] at h
  obtain ⟨columns, p₇, h₇, h⟩ := run_bind_eq_ok.mp h
  obtain ⟨windows, p₈, h₈, h⟩ := run_bind_eq_ok.mp h
  rw [run_pure] at h
  simp only [Except.ok.injEq, Prod.mk.injEq] at h
  obtain ⟨rfl, rfl⟩ := h
  refine ⟨rfl, ?_⟩
  obtain ⟨-, -, e₁⟩ := number_consumes h₁
  obtain ⟨-, -, e₂⟩ := number_consumes h₂
  obtain ⟨-, -, e₃⟩ := number_consumes h₃
  obtain ⟨-, -, e₄⟩ := number_consumes h₄
  obtain ⟨-, e₇⟩ := mapM_consumes column_consumes _ h₇
  obtain ⟨-, e₈⟩ := mapM_consumes window_consumes _ h₈
  rw [toList_toBytes]
  simp only [List.append_nil, List.append_assoc]
  rw [e₈, e₇, signed_consumes h₆, signed_consumes h₅, e₄, e₃, e₂, e₁, List.drop_zero]

/-- Every byte string the reader accepts is written back unchanged. -/
theorem toBytes_ofBytes {bytes : Array UInt8} {s : Segment} (h : ofBytes bytes = .ok s) :
    s.toBytes = bytes := by
  unfold ofBytes at h
  dsimp only at h
  by_cases hbig : bytes.size > maxSize
  · simp only [hbig, if_true] at h
    cases h
  simp only [hbig, if_false] at h
  cases hr : (readFixed bytes).run 0 with
  | error e =>
    rw [hr] at h
    cases h
  | ok sp =>
    obtain ⟨s₀, p⟩ := sp
    rw [hr] at h
    dsimp only [bind, Except.bind] at h
    by_cases hsz : (bytes.extract p).size ≠ (s₀.payload.length + 7) / 8
    · rw [if_pos hsz] at h
      cases h
    rw [if_neg hsz] at h
    cases h
    obtain ⟨hempty, hback⟩ := readFixed_consumes hr
    have hrest : (bytes.extract p).toList = bytes.toList.drop p := by
      rw [Array.toList_extract, List.extract_eq_take_drop]
      exact List.take_of_length_le (by simp)
    apply Array.toList_inj.mp
    rw [toList_toBytes] at hback ⊢
    rw [hempty] at hback
    simp only [List.append_nil, List.append_assoc] at hback
    rw [hrest]
    exact hback

end Segment

end SeriesStore
