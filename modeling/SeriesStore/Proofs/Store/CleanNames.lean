import Mathlib
import SeriesStore.Proofs.Store.Retention
import SeriesStore.Store.Append

/-!
# Checked names make separate keys

A write checks that its document id and its series name hold no record separator. Keys are
built from the lowercase of both, as UTF-8 bytes, and neither step brings a separator in.
Lowercasing maps no other character to it: below 128 only the capitals move, to small letters,
and every run of the case tables lands far from it. In UTF-8 the byte `0x1E` encodes that
character only, since every byte of a longer encoding has its top bit set. So a series that
passes the checks is clean, and no key lies under its prefix and another's
(`SeriesRef.key_eq_of_startsWith`):

    Key.validateDocumentId s.doc = .ok () → validateSeriesName s.name = .ok () → s.Clean

Since UTF-8 is injective, two such series share key bytes only when they are one series up to
case, and then the segment and tombstone keys of one lie under the prefix of the other exactly
when that holds (`seriesKeys_separate`). Deleting a range and storing a replicated segment check
the id only, so there a name holding the separator reaches under another series' prefix.
-/

namespace SeriesStore

namespace Key

/-! ## UTF-8 bytes -/

theorem byteArray_toList_loop (bs : ByteArray) (i : Nat) (r : List UInt8) :
    ByteArray.toList.loop bs i r = r.reverse ++ bs.data.toList.drop i := by
  fun_induction ByteArray.toList.loop bs i r with
  | case1 i r h ih =>
    have hi : i < bs.data.toList.length := by simpa using h
    rw [ih, List.drop_eq_getElem_cons (l := bs.data.toList) hi]
    simp [ByteArray.get!, h]
  | case2 i r h =>
    rw [List.drop_eq_nil_of_le (by simpa using Nat.le_of_not_lt h)]
    simp

/-- The UTF-8 bytes of a text: each character's encoding, in order. -/
theorem toUTF8_toList (s : String) : s.toUTF8.toList = s.toList.flatMap String.utf8EncodeChar := by
  conv => lhs; rw [← String.ofList_toList (s := s)]
  rw [String.toUTF8_eq_toByteArray, String.toByteArray_ofList, List.utf8Encode,
    ByteArray.toList, byteArray_toList_loop, List.toList_data_toByteArray]
  simp

/-- The bytes of a longer UTF-8 encoding all have their top bit set, so none is a separator. -/
theorem or_top_ne_separator : ∀ x : UInt8, x ||| 0x80 ≠ separator ∧ x ||| 0xc0 ≠ separator ∧
    x ||| 0xe0 ≠ separator ∧ x ||| 0xf0 ≠ separator := by decide +kernel

theorem eq_separatorChar_of_mem_utf8EncodeChar {c : Char}
    (h : separator ∈ String.utf8EncodeChar c) : c = separatorChar := by
  rcases c.utf8Size_eq with h1 | h2 | h3 | h4
  · rw [String.utf8EncodeChar_eq_singleton h1, List.mem_singleton] at h
    have hle : c.toNat ≤ 127 := by
      have := Char.utf8Size_eq_one_iff.mp h1
      rwa [UInt32.le_iff_toNat_le] at this
    have hbyte : 30 = c.toNat % 256 := by
      have := congrArg UInt8.toNat h
      rwa [UInt32.toNat_toUInt8] at this
    rw [← Char.ofNat_toNat c, separatorChar]
    congr 1
    omega
  · rw [String.utf8EncodeChar_eq_cons_cons h2] at h
    simp only [List.mem_cons, List.not_mem_nil, or_false] at h
    rcases h with h | h
    · exact absurd h.symm (or_top_ne_separator _).2.1
    · exact absurd h.symm (or_top_ne_separator _).1
  · rw [String.utf8EncodeChar_eq_cons_cons_cons h3] at h
    simp only [List.mem_cons, List.not_mem_nil, or_false] at h
    rcases h with h | h | h
    · exact absurd h.symm (or_top_ne_separator _).2.2.1
    · exact absurd h.symm (or_top_ne_separator _).1
    · exact absurd h.symm (or_top_ne_separator _).1
  · rw [String.utf8EncodeChar_eq_cons_cons_cons_cons h4] at h
    simp only [List.mem_cons, List.not_mem_nil, or_false] at h
    rcases h with h | h | h | h
    · exact absurd h.symm (or_top_ne_separator _).2.2.2
    · exact absurd h.symm (or_top_ne_separator _).1
    · exact absurd h.symm (or_top_ne_separator _).1
    · exact absurd h.symm (or_top_ne_separator _).1

/-! ## Lowercase -/

theorem eq_of_ofNat_eq_separatorChar {m : Nat} (h : Char.ofNat m = separatorChar) : m = 30 := by
  have := congrArg Char.toNat h
  unfold Char.ofNat at this
  split at this
  · simpa [Char.ofNatAux, Char.toNat, separatorChar] using this
  · simp [separatorChar] at this

/-- Below 128 lowercasing moves the capitals only, to small letters. -/
theorem toLower_eq_separatorChar : ∀ n < 128, (Char.ofNat n).toLower = separatorChar → n = 30 := by
  decide +kernel

/-- Every run of the case tables maps its characters far from the separator. -/
theorem lowerRuns_away : ∀ r ∈ Text.lowerRuns,
    (r.last : Int) + r.offset < 30 ∨ 30 < (r.first : Int) + r.offset := by
  decide +kernel

/-- No character but the separator lowercases to it. -/
theorem eq_separatorChar_of_mem_lowerChar {c : Char} (h : separatorChar ∈ Text.lowerChar c) :
    c = separatorChar := by
  unfold Text.lowerChar at h
  simp only at h
  split_ifs at h with h128 h130
  · rw [List.mem_singleton] at h
    have hn := toLower_eq_separatorChar c.toNat h128 (by rw [Char.ofNat_toNat]; exact h.symm)
    rw [← Char.ofNat_toNat c, hn]
    rfl
  · simp only [List.mem_cons, List.not_mem_nil, or_false] at h
    rcases h with h | h <;> exact absurd h (by decide)
  · split at h
    · rename_i r hr
      obtain ⟨hmem, hin⟩ := List.mem_of_find?_eq_some hr, List.find?_some hr
      simp only [decide_eq_true_eq] at hin
      rw [List.mem_singleton] at h
      have h30 := eq_of_ofNat_eq_separatorChar h.symm
      rcases lowerRuns_away r hmem with hlo | hhi <;> omega
    · rw [List.mem_singleton] at h
      exact h.symm

/-- Lowercasing a text without the separator brings none in; capital sigma goes to a small
sigma either way. -/
theorem separatorChar_not_mem_lowerFrom (before : List Char) {cs : List Char}
    (h : separatorChar ∉ cs) : separatorChar ∉ Text.lowerFrom before cs := by
  induction cs generalizing before with
  | nil => simp [Text.lowerFrom]
  | cons c rest ih =>
    rw [Text.lowerFrom]
    simp only [List.mem_append, not_or]
    refine ⟨?_, ih _ fun hm => h (List.mem_cons_of_mem c hm)⟩
    split_ifs with hsigma hfinal
    · decide
    · decide
    · intro hm
      exact h (eq_separatorChar_of_mem_lowerChar hm ▸ List.mem_cons_self)

/-- The lowered bytes of a text without the separator hold no separator byte. -/
theorem separator_not_mem_lowerBytes {s : String} (h : separatorChar ∉ s.toList) :
    separator ∉ lowerBytes s := by
  intro hm
  rw [lowerBytes, toUTF8_toList, Text.lower, String.toList_ofList, List.mem_flatMap] at hm
  obtain ⟨c, hc, hb⟩ := hm
  exact separatorChar_not_mem_lowerFrom [] h (eq_separatorChar_of_mem_utf8EncodeChar hb ▸ hc)

theorem separator_not_mem_of_validateDocumentId {id : String} (h : validateDocumentId id = .ok ()) :
    separator ∉ lowerBytes id := by
  apply separator_not_mem_lowerBytes
  unfold validateDocumentId at h
  split_ifs at h with h₁ h₂
  simpa using h₂

theorem byteArray_toList (bs : ByteArray) : bs.toList = bs.data.toList := by
  simp [ByteArray.toList, byteArray_toList_loop]

/-- Two texts give the same key bytes exactly when their lowercases agree. -/
theorem lowerBytes_eq_iff {a b : String} : lowerBytes a = lowerBytes b ↔ Text.lower a = Text.lower b := by
  constructor
  · intro h
    rw [lowerBytes, lowerBytes, byteArray_toList, byteArray_toList] at h
    exact String.toByteArray_inj.mp (ByteArray.ext (Array.toList_inj.mp h))
  · intro h
    rw [lowerBytes, lowerBytes, h]

/-! ## Separate series -/

/-- Keys built on the prefix of one series lie under the prefix of another exactly when the two
are one series up to case, as long as no id or name brings a separator into its bytes. -/
theorem startsWith_seriesPrefix_append_iff {d₁ n₁ d₂ n₂ : String}
    (hd₁ : separator ∉ lowerBytes d₁) (hn₁ : separator ∉ lowerBytes n₁)
    (hd₂ : separator ∉ lowerBytes d₂) (hn₂ : separator ∉ lowerBytes n₂) (tail : Key) :
    startsWith (seriesPrefix d₂ n₂ ++ tail) (seriesPrefix d₁ n₁) = true ↔
      Text.lower d₁ = Text.lower d₂ ∧ Text.lower n₁ = Text.lower n₂ := by
  rw [startsWith, List.isPrefixOf_iff_prefix]
  constructor
  · intro h
    simp only [seriesPrefix, documentPrefix, List.append_assoc, List.singleton_append] at h
    -- cut both keys at the separator after the id, then at the one after the name
    obtain ⟨hdoc, h⟩ := SeriesRef.isPrefix_at_separator hd₁ hd₂ h
    obtain ⟨hname, -⟩ := SeriesRef.isPrefix_at_separator hn₁ hn₂ h
    exact ⟨lowerBytes_eq_iff.mp hdoc, lowerBytes_eq_iff.mp hname⟩
  · rintro ⟨hdoc, hname⟩
    have hpre : seriesPrefix d₁ n₁ = seriesPrefix d₂ n₂ := by
      unfold seriesPrefix documentPrefix
      rw [lowerBytes_eq_iff.mpr hdoc, lowerBytes_eq_iff.mpr hname]
    rw [hpre]
    exact List.prefix_append _ _

end Key

theorem separator_not_mem_of_validateSeriesName {name : String} (h : validateSeriesName name = .ok ()) :
    Key.separator ∉ Key.lowerBytes name := by
  apply Key.separator_not_mem_lowerBytes
  unfold validateSeriesName at h
  split_ifs at h with h₁ h₂
  simpa [String.contains_char_eq] using h₂

/-- A series whose document id and name pass the checks of a write is clean. -/
theorem SeriesRef.clean_of_validate {s : SeriesRef} (hd : Key.validateDocumentId s.doc = .ok ())
    (hn : validateSeriesName s.name = .ok ()) : s.Clean :=
  ⟨Key.separator_not_mem_of_validateDocumentId hd, separator_not_mem_of_validateSeriesName hn⟩

/-- Keys of checked series are separate: a segment key or a deletion tombstone key of one
series lies under the prefix of another exactly when the two are one series up to case. -/
theorem seriesKeys_separate {d₁ n₁ d₂ n₂ : String}
    (hd₁ : Key.validateDocumentId d₁ = .ok ()) (hn₁ : validateSeriesName n₁ = .ok ())
    (hd₂ : Key.validateDocumentId d₂ = .ok ()) (hn₂ : validateSeriesName n₂ = .ok ())
    (baseline etag : Int) :
    (Key.startsWith (Key.segment d₂ n₂ baseline) (Key.seriesPrefix d₁ n₁) = true ↔
        Text.lower d₁ = Text.lower d₂ ∧ Text.lower n₁ = Text.lower n₂) ∧
      (Key.startsWith (Key.deletedRange d₂ n₂ etag) (Key.seriesPrefix d₁ n₁) = true ↔
        Text.lower d₁ = Text.lower d₂ ∧ Text.lower n₁ = Text.lower n₂) := by
  have separate := Key.startsWith_seriesPrefix_append_iff
    (Key.separator_not_mem_of_validateDocumentId hd₁) (separator_not_mem_of_validateSeriesName hn₁)
    (Key.separator_not_mem_of_validateDocumentId hd₂) (separator_not_mem_of_validateSeriesName hn₂)
  exact ⟨separate (Key.encodeI64 baseline), separate (Key.etagBytes etag)⟩

/-- The raw series `HR` and the series `HR@ByHour` its policy writes are separate: none of the
rollup's segments lies under the raw series' prefix. -/
theorem seriesKeys_separate_rollup :
    Key.validateDocumentId "users/1" = .ok () ∧ validateSeriesName "HR" = .ok () ∧
      validateSeriesName "HR@ByHour" = .ok () ∧
      (Key.startsWith (Key.segment "users/1" "HR@ByHour" 0) (Key.seriesPrefix "users/1" "HR") = true ↔
        Text.lower "users/1" = Text.lower "users/1" ∧ Text.lower "HR" = Text.lower "HR@ByHour") := by
  have hd : Key.validateDocumentId "users/1" = .ok () := by decide
  -- `String.contains` runs by well-founded recursion; its list form evaluates
  have hn : validateSeriesName "HR" = .ok () := by
    rw [validateSeriesName, String.contains_char_eq]
    decide
  have hr : validateSeriesName "HR@ByHour" = .ok () := by
    rw [validateSeriesName, String.contains_char_eq]
    decide
  exact ⟨hd, hn, hr, (seriesKeys_separate hd hn hd hr 0 0).1⟩

end SeriesStore
