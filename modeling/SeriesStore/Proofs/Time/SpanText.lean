import Mathlib
import SeriesStore.Proofs.Replication.VectorText
import SeriesStore.Time.Span

/-!
# Spans read back their own text

A text names a span by one of the words for the infinite span, or by an amount and a unit word
(`Reads`): the amount is the longest head of digits and `-`, read as a 64-bit number, the unit
word the rest, trimmed. The span it names is the amount times the word's factor, which
`Span.parse` accepts only when it is `Admissible`: strictly inside the 64-bit range and, for
months, at most `maxMonths` in size. Every other text is refused as an invalid argument; no text
makes the reading fail in any other way.

`Span.render` writes a span as an amount in the largest unit that divides it. For an admissible
span that amount is a 64-bit number and the text has no blanks and no capitals, so reading it
back gives the span itself (`parse_render`). The spans read from texts are exactly the
admissible ones, so every span read from a text is written in a form that reads back as it
(`parse_render_roundtrip`).
-/

namespace SeriesStore

/-! ## Texts of ASCII characters -/

namespace Text

theorem toLower_of_isUpper_false {c : Char} (h : c.isUpper = false) : c.toLower = c := by
  unfold Char.isUpper at h
  unfold Char.toLower
  rw [dif_neg (by simpa using h)]

/-- Lowercasing keeps every ASCII character that is not a capital. -/
theorem lowerFrom_of_ascii {cs : List Char} (h : ∀ c ∈ cs, c.toNat < 128 ∧ c.isUpper = false)
    (before : List Char) : lowerFrom before cs = cs := by
  induction cs generalizing before with
  | nil => rfl
  | cons c cs ih =>
    obtain ⟨hascii, hupper⟩ := h c List.mem_cons_self
    have hsigma : c ≠ capitalSigma := fun hc => by
      rw [hc] at hascii
      exact absurd hascii (by decide)
    rw [lowerFrom, if_neg hsigma, ih (fun d hd => h d (List.mem_cons_of_mem c hd))]
    simp [lowerChar, hascii, toLower_of_isUpper_false hupper]

/-- A lowercase ASCII letter is no capital, no digit, no minus sign and no blank. -/
theorem of_isLower {c : Char} (h : c.isLower = true) :
    c.toNat < 128 ∧ c.isUpper = false ∧ c.isDigit = false ∧ c ≠ '-' ∧
      isBlank c = false := by
  have hv : c.val.toNat = c.toNat := rfl
  have hn : 97 ≤ c.toNat ∧ c.toNat ≤ 122 := by
    simpa [Char.isLower, UInt32.le_iff_toNat_le, hv] using h
  refine ⟨by omega, ?_, ?_, ?_, ?_⟩
  · simp [Char.isUpper, UInt32.le_iff_toNat_le, hv]; omega
  · simp [Char.isDigit, UInt32.le_iff_toNat_le, hv]; omega
  · rintro rfl; simp at hn
  · simp [isBlank]; omega

/-- A digit or a minus sign is an ASCII character and no letter or blank. -/
theorem of_isDigit_or_minus {c : Char} (h : c.isDigit = true ∨ c = '-') :
    c.toNat < 128 ∧ c.isUpper = false ∧ c.isLower = false ∧ isBlank c = false := by
  have hv : c.val.toNat = c.toNat := rfl
  have hn : (48 ≤ c.toNat ∧ c.toNat ≤ 57) ∨ c.toNat = 45 := by
    rcases h with h | rfl
    · left; simpa [Char.isDigit, UInt32.le_iff_toNat_le, hv] using h
    · right; rfl
  refine ⟨by omega, ?_, ?_, ?_⟩
  · simp [Char.isUpper, UInt32.le_iff_toNat_le, hv]; omega
  · simp [Char.isLower, UInt32.le_iff_toNat_le, hv]; omega
  · simp [isBlank]; omega

theorem lower_of_ascii {s : String} (h : ∀ c ∈ s.toList, c.toNat < 128 ∧ c.isUpper = false) :
    lower s = s := by
  rw [lower, lowerFrom_of_ascii h, String.ofList_toList]

end Text

/-! ## Decimal numbers -/

namespace I64

theorem fits_iff {v : Int} : fits v = true ↔ min ≤ v ∧ v ≤ max := by
  simp [fits]

/-- A number is written as a minus sign when it is negative, then the digits of its size. -/
theorem toList_toString (n : Int) :
    (toString n).toList = (if n < 0 then ['-'] else []) ++ Nat.toDigits 10 n.natAbs := by
  cases n with
  | ofNat m => simp [toString, Int.repr, Nat.toList_repr]
  | negSucc m =>
    simp only [toString, Int.repr, String.toList_append, Nat.toList_repr]
    simp [Int.negSucc_lt_zero, Int.natAbs_negSucc]

/-- Every character of a written number is a digit or the minus sign. -/
theorem mem_toString {n : Int} {c : Char} (h : c ∈ (toString n).toList) :
    c.isDigit = true ∨ c = '-' := by
  rw [toList_toString, List.mem_append] at h
  rcases h with h | h
  · split at h <;> simp_all
  · exact .inl (isDigit_toDigits h)

/-- A 64-bit number reads back from its text. -/
theorem parse?_toString {n : Int} (h : fits n = true) : parse? (toString n) = some n := by
  rcases Int.lt_or_le n 0 with hneg | hnonneg
  · -- a minus sign, then the digits of the size
    have hlist : (toString n).toList = '-' :: Nat.toDigits 10 n.natAbs := by
      rw [toList_toString, if_pos hneg]
      rfl
    have hall : (Nat.toDigits 10 n.natAbs).all Char.isDigit = true :=
      List.all_eq_true.mpr fun _ hd => isDigit_toDigits hd
    unfold parse?
    rw [hlist]
    simp [Nat.toDigits_ne_nil, hall, foldl_toDigits, abs_of_neg hneg, h]
  · have hs : toString n = String.ofList (Nat.toDigits 10 n.toNat) := by
      rw [← toList_toString_of_nonneg hnonneg, String.ofList_toList]
    rw [hs, parse?_toDigits (by rwa [Int.toNat_of_nonneg hnonneg])]
    simp [Int.toNat_of_nonneg hnonneg]

theorem mul?_eq_some {a b v : Int} : mul? a b = some v ↔ fits (a * b) = true ∧ a * b = v := by
  unfold mul?
  split <;> simp_all

end I64

namespace Span

/-! ## What a text names -/

/-- The characters of the amount of a span's text. -/
def amountChar (c : Char) : Bool := c.isDigit || c == '-'

/-- An amount strictly inside the 64-bit range, and at most `maxMonths` in size when it counts
months. -/
def InRange (s : Span) : Prop :=
  I64.min < s.value ∧ s.value < I64.max ∧
    (s.unit = .months → s.value.natAbs ≤ maxMonths.toNat)

instance (s : Span) : Decidable s.InRange := inferInstanceAs (Decidable (_ ∧ _))

/-- The spans a text can name: the infinite one, or one in range. -/
def Admissible (s : Span) : Prop := s = infinite ∨ s.InRange

instance (s : Span) : Decidable s.Admissible := inferInstanceAs (Decidable (_ ∨ _))

theorem InRange.fits {s : Span} (h : s.InRange) : I64.fits s.value = true :=
  I64.fits_iff.mpr ⟨h.1.le, h.2.1.le⟩

theorem InRange.ne_infinite {s : Span} (h : s.InRange) : s ≠ infinite := by
  rintro rfl
  exact absurd h.2.1 (lt_irrefl _)

/-- A text names `v` by an amount and a unit word, before the range is checked: the text,
trimmed and lowercased, is none of the words for the infinite span; its amount reads as the
64-bit number `n`; the rest, trimmed, is a unit word of factor `f`; and `v` is `n * f` in the
word's unit. -/
def Reads (s : String) (v : Span) : Prop :=
  Text.lower (Text.trim s) ≠ "infinite" ∧ Text.lower (Text.trim s) ≠ "infinity" ∧
    Text.lower (Text.trim s) ≠ "forever" ∧
    ∃ n f, I64.parse? (String.ofList ((Text.lower (Text.trim s)).toList.takeWhile amountChar)) =
        some n ∧
      unitOf? (Text.trim (String.ofList ((Text.lower (Text.trim s)).toList.dropWhile amountChar))) =
        some (f, v.unit) ∧
      v.value = n * f

/-! ## Texts as spans are written -/

/-- A unit word as spans are written: one or more lowercase ASCII letters. -/
def Lettered (w : String) : Prop := w.toList ≠ [] ∧ ∀ c ∈ w.toList, c.isLower = true

section Written

variable {n f : Int} {u : SpanUnit} {w : String}

theorem toList_written : (toString n ++ w).toList = (toString n).toList ++ w.toList :=
  String.toList_append

theorem toString_ne_nil (n : Int) : (toString n).toList ≠ [] := by
  rw [I64.toList_toString]
  simp [Nat.toDigits_ne_nil]

/-- A unit word has no blank at either end. -/
theorem unpadded_lettered (hw : Lettered w) : Text.Unpadded w.toList :=
  ⟨fun c hc => (Text.of_isLower (hw.2 c (List.mem_of_head? hc))).2.2.2.2,
    fun c hc => (Text.of_isLower (hw.2 c (List.mem_of_getLast? hc))).2.2.2.2⟩

/-- A number followed by a unit word has no blank at either end. -/
theorem unpadded_written (hw : Lettered w) : Text.Unpadded (toString n ++ w).toList := by
  rw [toList_written]
  obtain ⟨c, cs, hc⟩ := List.exists_cons_of_ne_nil (toString_ne_nil n)
  refine ⟨fun d hd => ?_, fun d hd => ?_⟩
  · rw [hc, List.cons_append, List.head?_cons, Option.mem_some_iff] at hd
    subst hd
    exact (Text.of_isDigit_or_minus (I64.mem_toString (hc ▸ List.mem_cons_self))).2.2.2
  · rw [List.getLast?_append_of_ne_nil _ hw.1] at hd
    exact (unpadded_lettered hw).2 d hd

theorem ascii_written (hw : Lettered w) :
    ∀ c ∈ (toString n ++ w).toList, c.toNat < 128 ∧ c.isUpper = false := by
  intro c hc
  rw [toList_written, List.mem_append] at hc
  rcases hc with hc | hc
  · obtain ⟨h₁, h₂, -⟩ := Text.of_isDigit_or_minus (I64.mem_toString hc)
    exact ⟨h₁, h₂⟩
  · obtain ⟨h₁, h₂, -⟩ := Text.of_isLower (hw.2 c hc)
    exact ⟨h₁, h₂⟩

theorem amountChar_of_mem_toString {d : Char} (hd : d ∈ (toString n).toList) :
    amountChar d = true := by
  rcases I64.mem_toString hd with h | rfl <;> simp [amountChar, *]

/-- A unit word starts with a character that ends the amount. -/
theorem Lettered.head_amountChar (hw : Lettered w) :
    ∃ c cs, w.toList = c :: cs ∧ amountChar c = false := by
  obtain ⟨c, cs, hc⟩ := List.exists_cons_of_ne_nil hw.1
  obtain ⟨-, -, hd, hm, -⟩ := Text.of_isLower (hw.2 c (hc ▸ List.mem_cons_self))
  exact ⟨c, cs, hc, by simp [amountChar, hd, hm]⟩

/-- The amount of a written span is the written number. -/
theorem takeWhile_written (hw : Lettered w) :
    (toString n ++ w).toList.takeWhile amountChar = (toString n).toList := by
  obtain ⟨c, cs, hc, hstop⟩ := hw.head_amountChar
  rw [toList_written, List.takeWhile_append_of_pos (fun _ => amountChar_of_mem_toString), hc,
    List.takeWhile_cons_of_neg (by simp [hstop]), List.append_nil]

/-- The rest of a written span is its unit word. -/
theorem dropWhile_written (hw : Lettered w) :
    (toString n ++ w).toList.dropWhile amountChar = w.toList := by
  obtain ⟨c, cs, hc, hstop⟩ := hw.head_amountChar
  rw [toList_written, List.dropWhile_append_of_pos (fun _ => amountChar_of_mem_toString), hc,
    List.dropWhile_cons_of_neg (by simp [hstop])]

/-- A written span is none of the words that start with a lowercase letter. -/
theorem written_ne {t : String} {c : Char} (ht : t.toList.head? = some c) (hc : c.isLower = true) :
    toString n ++ w ≠ t := by
  rintro rfl
  obtain ⟨d, ds, hd⟩ := List.exists_cons_of_ne_nil (toString_ne_nil n)
  rw [toList_written, hd, List.cons_append, List.head?_cons, Option.some.injEq] at ht
  subst ht
  have := (Text.of_isDigit_or_minus (I64.mem_toString (hd ▸ List.mem_cons_self))).2.2.1
  rw [hc] at this
  cases this

/-- A number and a unit word read as the number times the unit, when that is in range. -/
theorem parse_written (hn : I64.fits n = true) (hw : Lettered w) (hu : unitOf? w = some (f, u))
    (hv : InRange ⟨n * f, u⟩) : parse (toString n ++ w) = .ok ⟨n * f, u⟩ := by
  have htext : Text.lower (Text.trim (toString n ++ w)) = toString n ++ w := by
    rw [Text.trim_of_unpadded (unpadded_written hw), Text.lower_of_ascii (ascii_written hw)]
  have hword : Text.trim (String.ofList w.toList) = w := by
    rw [String.ofList_toList]
    exact Text.trim_of_unpadded (unpadded_lettered hw)
  have hnum : I64.parse? (String.ofList (toString n).toList) = some n := by
    rw [String.ofList_toList]
    exact I64.parse?_toString hn
  have hkey : (toString n ++ w == "infinite" || toString n ++ w == "infinity" ||
      toString n ++ w == "forever") = false := by
    simp only [Bool.or_eq_false_iff, beq_eq_false_iff_ne]
    exact ⟨⟨written_ne (c := 'i') rfl (by decide), written_ne (c := 'i') rfl (by decide)⟩,
      written_ne (c := 'f') rfl (by decide)⟩
  have hmul : I64.mul? n f = some (n * f) := by simp [I64.mul?, hv.fits]
  have hlim : (n * f == I64.max || n * f == I64.min) = false := by
    simp only [Bool.or_eq_false_iff, beq_eq_false_iff_ne]
    exact ⟨ne_of_lt hv.2.1, ne_of_gt hv.1⟩
  have hmon : (u == SpanUnit.months && decide ((n * f).natAbs > maxMonths.toNat)) = false := by
    cases u
    · rfl
    · simpa using hv.2.2 rfl
  unfold parse
  simp only [htext, hkey, Bool.false_eq_true, if_false]
  rw [show (fun c : Char => c.isDigit || c == '-') = amountChar from rfl, takeWhile_written hw,
    dropWhile_written hw, hnum, hword, hu]
  simp only [hmul, hlim, hmon, Bool.false_eq_true, if_false]

end Written

/-! ## Writing and reading back -/

/-- The shape of a written span of amount `v` and unit `u`: a number, no larger than the amount,
followed by a unit word whose factor times the number is the amount. -/
def WrittenAs (t : String) (v : Int) (u : SpanUnit) : Prop :=
  ∃ n k w, t = toString n ++ w ∧ Lettered w ∧ unitOf? w = some (k, u) ∧ n * k = v ∧
    n.natAbs ≤ v.natAbs

/-- An amount written in a unit whose factor divides it. -/
theorem writtenAs_of_dvd {v k : Int} {u : SpanUnit} {w : String} (hw : Lettered w)
    (hu : unitOf? w = some (k, u)) (hk : v % k = 0) : WrittenAs (toString (v / k) ++ w) v u :=
  ⟨v / k, k, w, rfl, hw, hu, Int.ediv_mul_cancel_of_emod_eq_zero hk, Int.natAbs_ediv_le_natAbs _ _⟩

/-- An amount written as it is, in a unit of factor one. -/
theorem writtenAs_self {v : Int} {u : SpanUnit} {w : String} (hw : Lettered w)
    (hu : unitOf? w = some (1, u)) : WrittenAs (toString v ++ w) v u :=
  ⟨v, 1, w, rfl, hw, hu, mul_one v, le_refl _⟩

theorem render_written {s : Span} (hs : s ≠ infinite) : WrittenAs s.render s.value s.unit := by
  have hinf : s.isInfinite = false := by simpa [isInfinite] using hs
  obtain ⟨v, unit⟩ := s
  simp only [render, hinf, Bool.false_eq_true, if_false]
  -- the largest unit that divides the amount, each case with its word and factor
  cases unit with
  | months =>
    by_cases h : v % 12 = 0 ∧ v ≠ 0
    · rw [if_pos (by simpa using h)]
      exact writtenAs_of_dvd (w := "y") (by constructor <;> simp) rfl h.1
    · rw [if_neg (by simpa using h)]
      exact writtenAs_self (w := "mon") (by constructor <;> simp) rfl
  | millis =>
    dsimp only
    by_cases hd : v ≠ 0 ∧ v % msPerDay = 0
    · rw [if_pos (by simpa using hd)]
      exact writtenAs_of_dvd (w := "d") (by constructor <;> simp) rfl hd.2
    rw [if_neg (by simpa using hd)]
    by_cases hh : v ≠ 0 ∧ v % msPerHour = 0
    · rw [if_pos (by simpa using hh)]
      exact writtenAs_of_dvd (w := "h") (by constructor <;> simp) rfl hh.2
    rw [if_neg (by simpa using hh)]
    by_cases hm : v ≠ 0 ∧ v % msPerMinute = 0
    · rw [if_pos (by simpa using hm)]
      exact writtenAs_of_dvd (w := "min") (by constructor <;> simp) rfl hm.2
    rw [if_neg (by simpa using hm)]
    by_cases hsec : v ≠ 0 ∧ v % msPerSecond = 0
    · rw [if_pos (by simpa using hsec)]
      exact writtenAs_of_dvd (w := "s") (by constructor <;> simp) rfl hsec.2
    rw [if_neg (by simpa using hsec)]
    exact writtenAs_self (w := "ms") (by constructor <;> simp) rfl

theorem parse_infinite : parse "infinite" = .ok infinite := by
  have htext : Text.lower (Text.trim "infinite") = "infinite" := by
    have hw : Lettered "infinite" := by constructor <;> simp
    rw [Text.trim_of_unpadded (unpadded_lettered hw),
      Text.lower_of_ascii fun c hc =>
        ⟨(Text.of_isLower (hw.2 c hc)).1, (Text.of_isLower (hw.2 c hc)).2.1⟩]
  simp [parse, htext]

/-- Every admissible span reads back from its text. -/
theorem parse_render {s : Span} (h : s.Admissible) : parse s.render = .ok s := by
  rcases h with rfl | hr
  · exact parse_infinite
  · obtain ⟨n, k, w, hs, hw, hu, hnk, habs⟩ := render_written hr.ne_infinite
    have hn : I64.fits n = true := by
      have hlo : I64.min < s.value := hr.1
      have hhi : s.value < I64.max := hr.2.1
      rw [I64.fits_iff]
      simp only [I64.min, I64.max] at hlo hhi ⊢
      omega
    rw [hs, parse_written hn hw hu (by rwa [hnk])]
    rw [hnk]

/-! ## What reading accepts -/

/-- A product that fits, is neither end of the range and passes the bound on months is in
range. -/
theorem inRange_of_checks {v : Int} {u : SpanUnit} (hfit : I64.fits v = true)
    (hends : ¬(v == I64.max || v == I64.min) = true)
    (hmonths : ¬(u == SpanUnit.months && decide (v.natAbs > maxMonths.toNat)) = true) :
    InRange ⟨v, u⟩ := by
  simp only [Bool.or_eq_true, beq_iff_eq, not_or] at hends
  obtain ⟨hlo, hhi⟩ := I64.fits_iff.mp hfit
  refine ⟨lt_of_le_of_ne hlo (Ne.symm hends.2), lt_of_le_of_ne hhi hends.1, fun hu => ?_⟩
  subst hu
  simpa using hmonths

/-- Reading a text either gives an admissible span or refuses the text as an invalid
argument. -/
theorem parse_outcome (s : String) :
    (∃ v, parse s = .ok v ∧ v.Admissible) ∨ ∃ m, parse s = .error (.invalidArgument m) := by
  unfold parse
  dsimp only
  split
  · exact .inl ⟨infinite, rfl, .inl rfl⟩
  · split
    · exact .inr ⟨_, rfl⟩
    · split
      · exact .inr ⟨_, rfl⟩
      · split
        · next v hmul =>
          split
          · exact .inr ⟨_, rfl⟩
          · split
            · exact .inr ⟨_, rfl⟩
            · next hends hmonths =>
              obtain ⟨hfit, rfl⟩ := I64.mul?_eq_some.mp hmul
              exact .inl ⟨_, rfl, .inr (inRange_of_checks hfit hends hmonths)⟩
        · exact .inr ⟨_, rfl⟩

theorem admissible_of_parse {s : String} {v : Span} (h : parse s = .ok v) : v.Admissible := by
  rcases parse_outcome s with ⟨w, hw, hadm⟩ | ⟨m, hm⟩
  · rw [h] at hw
    cases hw
    exact hadm
  · rw [h] at hm
    cases hm

/-- Reading fails only by refusing the text as an invalid argument. -/
theorem parse_error {s : String} {e : Error} (h : parse s = .error e) :
    ∃ m, e = .invalidArgument m := by
  rcases parse_outcome s with ⟨w, hw, -⟩ | ⟨m, hm⟩
  · rw [h] at hw
    cases hw
  · rw [h] at hm
    cases hm
    exact ⟨m, rfl⟩

/-- A text that names a span by amount and unit reads as that span when it is in range, and is
refused as an invalid argument when it is not. -/
theorem parse_of_reads {s : String} {v : Span} (h : Reads s v) :
    (parse s = .ok v ∧ v.InRange) ∨
      (¬ v.InRange ∧ ∃ m, parse s = .error (.invalidArgument m)) := by
  obtain ⟨hk₁, hk₂, hk₃, n, f, hn, hu, hv⟩ := h
  obtain ⟨value, unit⟩ := v
  simp only at hu hv
  subst hv
  have hkey : (Text.lower (Text.trim s) == "infinite" || Text.lower (Text.trim s) == "infinity" ||
      Text.lower (Text.trim s) == "forever") = false := by
    simp [hk₁, hk₂, hk₃]
  unfold parse
  simp only [hkey, Bool.false_eq_true, if_false]
  rw [show (fun c : Char => c.isDigit || c == '-') = amountChar from rfl, hn, hu]
  dsimp only
  -- the product either leaves the 64-bit range or goes through the checks of the range
  by_cases hfit : I64.fits (n * f) = true
  · rw [(I64.mul?_eq_some.mpr ⟨hfit, rfl⟩ : I64.mul? n f = some (n * f))]
    dsimp only
    split
    · next hends =>
      refine .inr ⟨fun hr => ?_, _, rfl⟩
      simp only [Bool.or_eq_true, beq_iff_eq] at hends
      rcases hends with he | he
      · exact absurd hr.2.1 (by simp [he])
      · exact absurd hr.1 (by simp [he])
    · split
      · next hmonths =>
        refine .inr ⟨fun hr => ?_, _, rfl⟩
        simp only [Bool.and_eq_true, beq_iff_eq, decide_eq_true_eq] at hmonths
        exact absurd (hr.2.2 hmonths.1) (not_le.mpr hmonths.2)
      · next hends hmonths => exact .inl ⟨rfl, inRange_of_checks hfit hends hmonths⟩
  · have hnone : I64.mul? n f = none := by simp [I64.mul?, hfit]
    rw [hnone]
    exact .inr ⟨fun hr => hfit hr.fits, _, rfl⟩

/-- Durations read back from their text: a span read from a text is written in a form that reads
back as that span, and so is every admissible span; a text that names an amount times a unit
outside the range is refused as an invalid argument; and reading fails in no other way. -/
theorem parse_render_roundtrip :
    (∀ s v, parse s = .ok v → parse v.render = .ok v) ∧
    (∀ v : Span, v.Admissible → parse v.render = .ok v) ∧
    (∀ s v, Reads s v → ¬ v.InRange → ∃ m, parse s = .error (.invalidArgument m)) ∧
    (∀ s e, parse s = .error e → ∃ m, e = .invalidArgument m) :=
  ⟨fun _ _ h => parse_render (admissible_of_parse h), fun _ h => parse_render h,
    fun _ _ h hr => ((parse_of_reads h).resolve_left fun hok => hr hok.2).2,
    fun _ _ h => parse_error h⟩

end Span

end SeriesStore
