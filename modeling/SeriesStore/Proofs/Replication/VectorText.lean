import Mathlib
import SeriesStore.Replication.ChangeVector

/-!
# Change vectors read back their own text

A change vector is read by cutting its text at commas, trimming each part and reading every
non-empty part as an entry `node:etag-db`. An entry that was read this way is *well formed*:
its node tag is non-empty, holds neither colon nor comma and does not start with a blank; its
database id is non-empty, holds no comma and does not end with a blank; its etag is a
non-negative 64-bit number (the etag is read up to the first dash, so it has no sign).

Writing a vector joins its entries by `", "`. For well-formed entries nothing of that text is
lost or gained when it is read again (`written_render`):

    (∀ e ∈ v.entries, e.WellFormed) → written v.render = .ok v.entries

and every entry of an accepted text is well formed (`wellFormed_of_written`), so a vector read
from text can always be written and read back.
-/

namespace SeriesStore

namespace Text

/-- Neither end of a list of characters is blank. -/
def Unpadded (cs : List Char) : Prop :=
  (∀ c ∈ cs.head?, isBlank c = false) ∧ (∀ c ∈ cs.getLast?, isBlank c = false)

theorem trim_toList (s : String) :
    (trim s).toList = ((s.toList.dropWhile isBlank).reverse.dropWhile isBlank).reverse := by
  simp [trim]

/-- The first element of a non-empty prefix is the first element of the whole list. -/
theorem prefix_mem_head? {α : Type} {l₁ l₂ : List α} (h : l₁ <+: l₂) {c : α}
    (hc : c ∈ l₁.head?) : c ∈ l₂.head? := by
  obtain ⟨t, rfl⟩ := h
  cases l₁ with
  | nil => simp at hc
  | cons x xs => simpa using hc

/-- The last element of a non-empty suffix is the last element of the whole list. -/
theorem suffix_mem_getLast? {α : Type} {l₁ l₂ : List α} (h : l₁ <:+ l₂) {c : α}
    (hc : c ∈ l₁.getLast?) : c ∈ l₂.getLast? := by
  rw [← List.head?_reverse] at hc ⊢
  exact prefix_mem_head? (List.reverse_prefix.mpr h) hc

theorem isBlank_head?_dropWhile (l : List Char) : ∀ c ∈ (l.dropWhile isBlank).head?,
    isBlank c = false := by
  intro c hc
  have := List.head?_dropWhile_not isBlank l
  rw [Option.mem_def] at hc
  rw [hc] at this
  exact this

/-- A trimmed text starts and ends with a character that is not blank. -/
theorem unpadded_trim (s : String) : Unpadded (trim s).toList := by
  rw [trim_toList]
  set L := s.toList.dropWhile isBlank
  set X := L.reverse.dropWhile isBlank
  refine ⟨fun c hc => ?_, fun c hc => ?_⟩
  · -- the trimmed text is a prefix of `L`, which starts past the leading blanks
    have hpre : X.reverse <+: L := by
      simpa using List.reverse_prefix.mpr (List.dropWhile_suffix isBlank (l := L.reverse))
    exact isBlank_head?_dropWhile _ c (prefix_mem_head? hpre hc)
  · rw [List.getLast?_reverse] at hc
    exact isBlank_head?_dropWhile _ c hc

/-- Dropping leading blanks keeps a list that does not start with one. -/
theorem dropWhile_isBlank_of_head {l : List Char} (h : ∀ c ∈ l.head?, isBlank c = false) :
    l.dropWhile isBlank = l := by
  cases l with
  | nil => rfl
  | cons c cs => simp [h c rfl]

/-- Trimming keeps a text whose ends are not blank. -/
theorem trim_of_unpadded {s : String} (h : Unpadded s.toList) : trim s = s := by
  have hlast : s.toList.reverse.dropWhile isBlank = s.toList.reverse :=
    dropWhile_isBlank_of_head (by simpa [List.head?_reverse] using h.2)
  rw [← String.ofList_toList (s := trim s), trim_toList, dropWhile_isBlank_of_head h.1, hlast,
    List.reverse_reverse, String.ofList_toList]

/-- A space in front of a text whose ends are not blank is trimmed away. -/
theorem trim_space_cons {cs : List Char} (h : Unpadded cs) :
    trim (String.ofList (' ' :: cs)) = String.ofList cs := by
  have hcs : trim (String.ofList cs) = String.ofList cs :=
    trim_of_unpadded (by simpa using h)
  rw [← hcs]
  simp only [trim, String.toList_ofList]
  rw [List.dropWhile_cons_of_pos (by decide)]

/-- Trimming only takes characters away. -/
theorem trim_sublist (s : String) : List.Sublist (trim s).toList s.toList := by
  rw [trim_toList]
  set L := s.toList.dropWhile isBlank
  have h₁ : List.Sublist (L.reverse.dropWhile isBlank) L.reverse :=
    (List.dropWhile_suffix _).sublist
  have h₂ : List.Sublist (L.reverse.dropWhile isBlank).reverse L := by
    simpa using List.reverse_sublist.mpr h₁
  exact h₂.trans (List.dropWhile_suffix _).sublist

end Text

/-! ## Digits -/

theorem isDigit_toDigits {m : Nat} {c : Char} (h : c ∈ Nat.toDigits 10 m) : c.isDigit = true :=
  Nat.isDigit_of_mem_toDigits (by decide) (by decide) h

/-- A digit is none of the characters that delimit the parts of an entry. -/
theorem ne_of_isDigit {c : Char} (h : c.isDigit = true) :
    c ≠ ',' ∧ c ≠ ':' ∧ c ≠ '-' ∧ c ≠ '+' := by
  refine ⟨?_, ?_, ?_, ?_⟩ <;> rintro rfl <;> exact absurd h (by decide)

/-- A non-negative number is written as its decimal digits. -/
theorem toList_toString_of_nonneg {n : Int} (h : 0 ≤ n) :
    (toString n).toList = Nat.toDigits 10 n.toNat := by
  obtain ⟨m, rfl⟩ := Int.eq_ofNat_of_zero_le h
  simp [toString, Int.repr, Nat.toList_repr]

/-- Reading the decimal digits of a number, most significant first, gives the number. -/
theorem foldl_toDigits (m : Nat) :
    (Nat.toDigits 10 m).foldl (fun acc c => acc * 10 + (c.toNat - 48)) 0 = m :=
  calc _ = Nat.ofDigitChars 10 (Nat.toDigits 10 m) 0 := by
        rw [Nat.ofDigitChars_eq_foldl]
        congr 1
        funext acc c
        simp [Nat.mul_comm]
    _ = m := Nat.ofDigitChars_ten_toDigits

/-- The decimal digits of a 64-bit number read back as that number. -/
theorem I64.parse?_toDigits {m : Nat} (h : I64.fits m = true) :
    I64.parse? (String.ofList (Nat.toDigits 10 m)) = some m := by
  obtain ⟨c, cs, hcs⟩ := List.exists_cons_of_ne_nil (Nat.toDigits_ne_nil (n := m) (b := 10))
  have hc : c.isDigit = true := isDigit_toDigits (hcs ▸ List.mem_cons_self)
  unfold I64.parse?
  simp only [String.toList_ofList]
  split
  · rename_i heq
    rw [hcs] at heq
    exact absurd (List.cons.inj heq).1 (ne_of_isDigit hc).2.2.1
  · rename_i heq
    rw [hcs] at heq
    exact absurd (List.cons.inj heq).1 (ne_of_isDigit hc).2.2.2
  · have hall : (Nat.toDigits 10 m).all Char.isDigit = true :=
      List.all_eq_true.mpr fun _ hd => isDigit_toDigits hd
    simp [Nat.toDigits_ne_nil, hall, foldl_toDigits, h]

/-- A number read without a minus sign is not negative, and it fits. -/
theorem I64.nonneg_of_parse? {t : String} {n : Int} (hminus : '-' ∉ t.toList)
    (h : I64.parse? t = some n) : 0 ≤ n ∧ I64.fits n = true := by
  unfold I64.parse? at h
  split at h
  rename_i negative digits heq
  have hneg : negative = false := by
    have hsign := congrArg Prod.fst heq
    dsimp only at hsign
    split at hsign
    · rename_i rest ht
      exact absurd (ht ▸ List.mem_cons_self) hminus
    all_goals exact hsign.symm
  subst hneg
  simp only [Bool.false_eq_true, ↓reduceIte] at h
  split_ifs at h with hbad hfits
  cases h
  exact ⟨by simp, hfits⟩

/-! ## Cutting at a separator -/

/-- No part of a list cut at `p` holds an element satisfying `p`. -/
theorem of_mem_splitOnP {α : Type} {p : α → Bool} {l q : List α} (hq : q ∈ l.splitOnP p) :
    ∀ x ∈ q, p x = false := by
  induction l generalizing q with
  | nil => simp_all
  | cons a l ih =>
    rw [List.splitOnP_cons_eq_if_modifyHead] at hq
    split at hq
    · rcases List.mem_cons.mp hq with rfl | hq
      · simp
      · exact ih hq
    · rename_i ha
      obtain ⟨r, rs, hrs⟩ := List.exists_cons_of_ne_nil (List.splitOnP_ne_nil p l)
      rw [hrs, List.modifyHead_cons] at hq
      rcases List.mem_cons.mp hq with rfl | hq
      · intro x hx
        rcases List.mem_cons.mp hx with rfl | hx
        · simpa using ha
        · exact ih (hrs ▸ List.mem_cons_self) x hx
      · exact ih (hrs ▸ List.mem_cons_of_mem r hq)

theorem not_mem_of_mem_splitOn {a : Char} {l q : List Char} (hq : q ∈ l.splitOn a) : a ∉ q := by
  rw [List.splitOn_eq_splitOnP] at hq
  intro ha
  simpa using of_mem_splitOnP hq a ha

/-- Joining lists by a comma and a space is joining by a comma the lists after the first, each
with a space in front. -/
theorem intercalate_comma_space (x : List Char) (ys : List (List Char)) :
    [',', ' '].intercalate (x :: ys) = [','].intercalate (x :: ys.map (' ' :: ·)) := by
  induction ys generalizing x with
  | nil => simp
  | cons y ys ih =>
    rw [List.intercalate_cons_cons, ih, List.map_cons, List.intercalate_cons_cons]
    cases ys <;> simp [List.intercalate_cons_cons]

/-- Lists without commas joined by a comma and a space are cut back into those lists, each after
the first with its space in front. -/
theorem splitOn_intercalate_comma_space {x : List Char} {ys : List (List Char)}
    (hx : ',' ∉ x) (hys : ∀ y ∈ ys, ',' ∉ y) :
    ([',', ' '].intercalate (x :: ys)).splitOn ',' = x :: ys.map (' ' :: ·) := by
  rw [intercalate_comma_space]
  apply List.splitOn_intercalate
  · intro l hl
    rcases List.mem_cons.mp hl with rfl | hl
    · exact hx
    · obtain ⟨y, hy, rfl⟩ := List.mem_map.mp hl
      simpa using hys y hy
  · simp

/-! ## Entries -/

namespace CvEntry

/-- What reading an entry guarantees of it. -/
structure WellFormed (e : CvEntry) : Prop where
  node_ne_nil : e.node.toList ≠ []
  colon_not_mem_node : ':' ∉ e.node.toList
  comma_not_mem_node : ',' ∉ e.node.toList
  head_node : ∀ c ∈ e.node.toList.head?, Text.isBlank c = false
  db_ne_nil : e.db.toList ≠ []
  comma_not_mem_db : ',' ∉ e.db.toList
  last_db : ∀ c ∈ e.db.toList.getLast?, Text.isBlank c = false
  etag_nonneg : 0 ≤ e.etag
  etag_fits : I64.fits e.etag = true

theorem render_toList (e : CvEntry) :
    e.render.toList = e.node.toList ++ ':' :: ((toString e.etag).toList ++ '-' :: e.db.toList) := by
  simp [render]

/-- The first `a` of a list stands right after the part of it without `a`. -/
theorem idxOf?_append_cons {a : Char} {l r : List Char} (h : a ∉ l) :
    (l ++ a :: r).idxOf? a = some l.length := by
  induction l with
  | nil => simp [List.idxOf?_cons]
  | cons c l ih =>
    have hc : (c == a) = false := by
      simp only [beq_eq_false_iff_ne]
      rintro rfl
      exact h List.mem_cons_self
    rw [List.cons_append, List.idxOf?_cons, hc, ih fun hm => h (List.mem_cons_of_mem c hm)]
    simp

variable {e : CvEntry}

theorem WellFormed.comma_not_mem_render (h : e.WellFormed) : ',' ∉ e.render.toList := by
  rw [render_toList, toList_toString_of_nonneg h.etag_nonneg]
  simp only [List.mem_append, List.mem_cons, not_or]
  refine ⟨h.comma_not_mem_node, by decide, fun hd => ?_, by decide, h.comma_not_mem_db⟩
  exact (ne_of_isDigit (isDigit_toDigits hd)).1 rfl

theorem WellFormed.unpadded_render (h : e.WellFormed) : Text.Unpadded e.render.toList := by
  obtain ⟨c, cs, hnode⟩ := List.exists_cons_of_ne_nil h.node_ne_nil
  obtain ⟨ds, d, hdb⟩ := (List.eq_nil_or_concat e.db.toList).resolve_left h.db_ne_nil
  constructor
  · intro x hx
    rw [render_toList, hnode] at hx
    exact h.head_node x (by simpa [hnode] using hx)
  · intro x hx
    rw [render_toList, hdb, show ∀ t : List Char, e.node.toList ++ ':' :: (t ++ '-' :: ds.concat d) =
      (e.node.toList ++ ':' :: t ++ '-' :: ds) ++ [d] by simp, List.getLast?_concat] at hx
    exact h.last_db x (by simpa [hdb] using hx)

/-- A well-formed entry reads back from its text. -/
theorem WellFormed.parse_render (h : e.WellFormed) : parse e.render = .ok e := by
  have hetag := toList_toString_of_nonneg h.etag_nonneg
  have hdash : '-' ∉ Nat.toDigits 10 e.etag.toNat := fun hd =>
    (ne_of_isDigit (isDigit_toDigits hd)).2.2.1 rfl
  have hfits : I64.fits (e.etag.toNat : Int) = true := by
    rw [Int.toNat_of_nonneg h.etag_nonneg]
    exact h.etag_fits
  unfold parse
  simp only [Text.trim_of_unpadded h.unpadded_render, render_toList, hetag,
    idxOf?_append_cons h.colon_not_mem_node]
  simp [idxOf?_append_cons hdash, h.node_ne_nil, h.db_ne_nil, I64.parse?_toDigits hfits,
    Int.toNat_of_nonneg h.etag_nonneg]

/-- An element does not occur before its first index. -/
theorem not_mem_take_of_idxOf? {a : Char} {l : List Char} {i : Nat} (h : l.idxOf? a = some i) :
    a ∉ l.take i := by
  obtain ⟨hlt, -, hbefore⟩ := List.idxOf?_eq_some_iff.mp h
  intro ha
  obtain ⟨j, hj, hja⟩ := List.getElem_of_mem ha
  rw [List.getElem_take] at hja
  exact hbefore j (by simp at hj; exact hj.1) hja

/-- Every entry read from a part without commas is well formed. -/
theorem wellFormed_of_parse {p : String} (hp : ',' ∉ p.toList) (h : parse p = .ok e) :
    e.WellFormed := by
  have hu := Text.unpadded_trim p
  have hsub := Text.trim_sublist p
  unfold parse at h
  dsimp only at h
  split at h
  · cases h
  rename_i i hi
  split at h
  · cases h
  rename_i j hj
  split_ifs at h with hempty
  split at h
  · rename_i n hn
    cases h
    -- the node tag is a prefix of the trimmed part, the database id a suffix of it
    set cs := (Text.trim p).toList
    simp only [Bool.or_eq_true, List.isEmpty_iff, not_or] at hempty
    have hnode : List.take i cs <+: cs := List.take_prefix i cs
    have hdb : List.drop (j + 1) (List.drop (i + 1) cs) <:+ cs :=
      (List.drop_suffix _ _).trans (List.drop_suffix _ _)
    have hcomma : ',' ∉ cs := fun hc => hp (hsub.subset hc)
    obtain ⟨hnonneg, hfits⟩ := I64.nonneg_of_parse?
      (by simpa using not_mem_take_of_idxOf? hj) hn
    exact {
      node_ne_nil := by simpa using hempty.1
      colon_not_mem_node := by simpa using not_mem_take_of_idxOf? hi
      comma_not_mem_node := by simpa using fun hc => hcomma (hnode.subset hc)
      head_node := fun c hc => hu.1 c (Text.prefix_mem_head? hnode (by simpa using hc))
      db_ne_nil := by simpa using hempty.2
      comma_not_mem_db := by simpa using fun hc => hcomma (hdb.subset hc)
      last_db := fun c hc => hu.2 c (Text.suffix_mem_getLast? hdb (by simpa using hc))
      etag_nonneg := hnonneg
      etag_fits := hfits }
  · cases h

end CvEntry

/-! ## Vectors -/

namespace ChangeVector

/-- The parts of a text read as entries: cut at commas, trimmed, empty parts passed over. -/
def parts (s : String) : List String :=
  ((s.toList.splitOn ',').map fun p => Text.trim (String.ofList p)).filter (!·.isEmpty)

/-- The entries written in a text, in order, before any is merged; a part that is no entry
fails the whole text. -/
def written (s : String) : Outcome (List CvEntry) := (parts s).mapM CvEntry.parse

theorem foldlM_observe (ps : List String) (v : ChangeVector) :
    ps.foldlM (fun v p => do
        let e ← CvEntry.parse p
        pure (v.observe e)) v =
      (·.foldl observe v) <$> ps.mapM CvEntry.parse := by
  induction ps generalizing v with
  | nil => rfl
  | cons p ps ih =>
    rw [List.foldlM_cons, List.mapM_cons]
    cases CvEntry.parse p with
    | error err => rfl
    | ok e =>
      show List.foldlM _ (v.observe e) ps =
        (·.foldl observe v) <$> (List.cons e <$> ps.mapM CvEntry.parse)
      rw [ih]
      cases ps.mapM CvEntry.parse <;> rfl

/-- Reading a text merges the entries written in it, one after the other. -/
theorem parse_eq_written (s : String) : parse s = (·.foldl observe {}) <$> written s :=
  foldlM_observe _ _

theorem comma_not_mem_of_mem_parts {s p : String} (h : p ∈ parts s) : ',' ∉ p.toList := by
  obtain ⟨q, hq, rfl⟩ := List.mem_map.mp (List.mem_filter.mp h).1
  intro hc
  exact not_mem_of_mem_splitOn hq (by simpa using (Text.trim_sublist _).subset hc)

/-- What a part-by-part reading gives comes from the parts. -/
theorem mem_of_mapM_ok {ps : List String} {es : List CvEntry}
    (h : ps.mapM CvEntry.parse = .ok es) : ∀ e ∈ es, ∃ p ∈ ps, CvEntry.parse p = .ok e := by
  induction ps generalizing es with
  | nil =>
    cases h
    simp
  | cons p ps ih =>
    rw [List.mapM_cons] at h
    cases hp : CvEntry.parse p with
    | error err => rw [hp] at h; cases h
    | ok e =>
      rw [hp] at h
      change List.cons e <$> ps.mapM CvEntry.parse = .ok es at h
      cases hps : ps.mapM CvEntry.parse with
      | error err => rw [hps] at h; cases h
      | ok es' =>
        rw [hps] at h
        cases h
        intro x hx
        rcases List.mem_cons.mp hx with rfl | hx
        · exact ⟨p, List.mem_cons_self, hp⟩
        · obtain ⟨q, hq, hqx⟩ := ih hps x hx
          exact ⟨q, List.mem_cons_of_mem p hq, hqx⟩

/-- Every entry of an accepted text is well formed. -/
theorem wellFormed_of_written {s : String} {es : List CvEntry} (h : written s = .ok es) :
    ∀ e ∈ es, e.WellFormed := by
  intro e he
  obtain ⟨p, hp, hpe⟩ := mem_of_mapM_ok h e he
  exact CvEntry.wellFormed_of_parse (comma_not_mem_of_mem_parts hp) hpe

theorem toList_render (v : ChangeVector) :
    v.render.toList = [',', ' '].intercalate (v.entries.map fun e => e.render.toList) := by
  simp [render, List.map_map]
  rfl

/-- The parts of a written vector are the texts of its entries. -/
theorem parts_render {v : ChangeVector} (h : ∀ e ∈ v.entries, e.WellFormed) :
    parts v.render = v.entries.map CvEntry.render := by
  rw [parts, toList_render]
  cases hv : v.entries with
  | nil =>
    have htrim : Text.trim "" = "" := Text.trim_of_unpadded (by simp [Text.Unpadded])
    simp [htrim]
  | cons e es =>
    rw [hv] at h
    have hwf : ∀ x ∈ es, x.WellFormed := fun x hx => h x (List.mem_cons_of_mem e hx)
    rw [List.map_cons, splitOn_intercalate_comma_space (h e List.mem_cons_self).comma_not_mem_render
      (by simpa using fun x hx => (hwf x hx).comma_not_mem_render)]
    -- each part trims to the text of its entry, the first as it is, the others past a space
    have hmap : (e.render.toList :: (es.map fun x => x.render.toList).map (' ' :: ·)).map
        (fun p => Text.trim (String.ofList p)) = (e :: es).map CvEntry.render := by
      simp only [List.map_cons, List.map_map, List.cons.injEq]
      refine ⟨?_, List.map_congr_left fun x hx => ?_⟩
      · rw [String.ofList_toList]
        exact Text.trim_of_unpadded (h e List.mem_cons_self).unpadded_render
      · simp only [Function.comp_apply]
        rw [Text.trim_space_cons (hwf x hx).unpadded_render, String.ofList_toList]
    rw [hmap, List.filter_eq_self.mpr]
    intro r hr
    obtain ⟨x, -, rfl⟩ := List.mem_map.mp hr
    have hne : x.render.toList ≠ [] := by simp [CvEntry.render_toList]
    simpa [String.isEmpty_iff] using fun hx => hne (by rw [hx]; rfl)

theorem mapM_parse_render {es : List CvEntry} (h : ∀ e ∈ es, e.WellFormed) :
    (es.map CvEntry.render).mapM CvEntry.parse = .ok es := by
  induction es with
  | nil => rfl
  | cons e es ih =>
    rw [List.map_cons, List.mapM_cons, (h e List.mem_cons_self).parse_render,
      ih fun x hx => h x (List.mem_cons_of_mem e hx)]
    rfl

/-- The entries written in the text of a vector of well-formed entries are its entries. -/
theorem written_render {v : ChangeVector} (h : ∀ e ∈ v.entries, e.WellFormed) :
    written v.render = .ok v.entries := by
  rw [written, parts_render h, mapM_parse_render h]

end ChangeVector

end SeriesStore
