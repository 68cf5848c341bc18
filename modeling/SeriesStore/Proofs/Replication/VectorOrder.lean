import SeriesStore.Proofs.Replication.VectorMerge

/-!
# Comparing change vectors decides the order of their etags

What a change-vector text records for a database `d` is the largest etag it lists for `d`, zero
when it lists none (`listedEtag`), and texts are ordered pointwise (`Below`): one is below
another when on no database it records a newer etag.

Reading keeps the largest etag of every database (`get_foldl_observe`), and the comparison of
two vectors scans the entries of each against what the other records; since no etag is
negative, a scan finds a newer etag exactly when the order fails (`any_newer_iff`). So whenever
the local text lists an entry, `conflictStatus` decides the order (`conflictStatus_answers`):
already merged exactly when the remote is below the local, an update when only the local is
below the remote, a conflict when neither is.

When the local text lists nothing the answer comes from shortcuts (`conflictStatus_of_nil`): an
equal or blank remote text, or a remote that lists nothing against a local text that is not
blank, is already merged, and any other remote is an update, even one whose etags are all zero
and so records nothing newer. A text is therefore already merged into its merge with another,
unless both list nothing and it is not blank; and a merge is never in conflict with one of the
texts merged (`conflictStatus_order`).
-/

namespace SeriesStore

namespace ChangeVector

/-- The etag that entries record for a database: the largest they list for it, zero when they
list none. -/
def listedEtag (es : List CvEntry) (d : String) : Int :=
  (((es.filter (·.db == d)).map (·.etag)).max?).getD 0

/-- On no database do the entries `es` record a newer etag than `fs`. -/
def Below (es fs : List CvEntry) : Prop := ∀ d, listedEtag es d ≤ listedEtag fs d

/-- An answer to the comparison of the entries `er` of a remote text with the entries `el` of a
local one that decides their order. -/
def AnswersOrder (x : Outcome ConflictStatus) (er el : List CvEntry) : Prop :=
  (x = .ok .alreadyMerged ↔ Below er el) ∧
    (x = .ok .update ↔ Below el er ∧ ¬Below er el) ∧
    (x = .ok .conflict ↔ ¬Below er el ∧ ¬Below el er)

theorem distinct_empty : DistinctDbs ({} : ChangeVector).entries := List.nodup_nil

theorem answersOrder_alreadyMerged {er el : List CvEntry} (h : Below er el) :
    AnswersOrder (.ok .alreadyMerged) er el := by
  simp [AnswersOrder, h]

/-! ## What a text records -/

theorem get_eq_seen (v : ChangeVector) (d : String) : v.get d = (seen v d).getD 0 := rfl

/-- Observing entries one after the other merges, database by database, each etag listed into
what the vector records. -/
theorem seen_foldl_observe_all {v : ChangeVector} (hv : DistinctDbs v.entries)
    (l : List CvEntry) (d : String) :
    seen (l.foldl observe v) d =
      ((l.filter (·.db == d)).map (·.etag)).foldl (fun acc x => Option.merge max acc (some x))
        (seen v d) := by
  induction l generalizing v with
  | nil => rfl
  | cons e l ih =>
    rw [List.foldl_cons, ih (hv.observe e), seen_observe hv]
    by_cases hd : e.db = d <;> simp [hd]

theorem foldl_merge_max_some (xs : List Int) (a : Int) :
    xs.foldl (fun acc x => Option.merge max acc (some x)) (some a) = some (xs.foldl max a) := by
  induction xs generalizing a with
  | nil => rfl
  | cons x xs ih => exact ih (max a x)

theorem foldl_merge_max_none (xs : List Int) :
    xs.foldl (fun acc x => Option.merge max acc (some x)) none = xs.max? := by
  cases xs with
  | nil => rfl
  | cons x xs =>
    rw [List.foldl_cons, List.max?_cons']
    exact foldl_merge_max_some xs x

/-- A vector read from entries records, for every database, the largest etag they list. -/
theorem get_foldl_observe (es : List CvEntry) (d : String) :
    (es.foldl observe {}).get d = listedEtag es d := by
  rw [get_eq_seen, seen_foldl_observe_all distinct_empty es d,
    show seen ({} : ChangeVector) d = none from rfl, foldl_merge_max_none]
  rfl

/-- Entries with one entry per database record that entry's etag. -/
theorem DistinctDbs.listedEtag_eq {l : List CvEntry} (h : DistinctDbs l) (d : String) :
    listedEtag l d = (seenIn l d).getD 0 := by
  unfold listedEtag
  cases hs : seenIn l d with
  | none =>
    have hnil : l.filter (·.db == d) = [] :=
      List.filter_eq_nil_iff.mpr fun x hx => by simpa using seenIn_eq_none_iff.mp hs x hx
    simp [hnil]
  | some n =>
    obtain ⟨x, hx, hxd, rfl⟩ := h.seenIn_eq_some_iff.mp hs
    -- every listed etag of `d` is the one of `x`, the only entry of `d`
    have hmax : ((l.filter (·.db == d)).map (·.etag)).max? = some x.etag := by
      rw [List.max?_eq_some_iff]
      refine ⟨List.mem_map.mpr ⟨x, List.mem_filter.mpr ⟨hx, by simpa using hxd⟩, rfl⟩, ?_⟩
      intro b hb
      obtain ⟨y, hy, rfl⟩ := List.mem_map.mp hb
      obtain ⟨hy, hyd⟩ := List.mem_filter.mp hy
      have hyx : y.db = x.db := by rw [hxd]; simpa using hyd
      rw [h.eq_of_db_eq hy hx hyx]
    simp [hmax]

theorem listedEtag_nonneg {es : List CvEntry} (h : ∀ e ∈ es, 0 ≤ e.etag) (d : String) :
    0 ≤ listedEtag es d := by
  unfold listedEtag
  cases hm : ((es.filter (·.db == d)).map (·.etag)).max? with
  | none => exact le_refl 0
  | some m =>
    obtain ⟨e, he, rfl⟩ := List.mem_map.mp (List.max?_mem hm)
    exact h e (List.mem_filter.mp he).1

theorem below_nil {el : List CvEntry} (h : ∀ e ∈ el, 0 ≤ e.etag) : Below [] el :=
  fun d => listedEtag_nonneg h d

/-! ## Comparing vectors -/

/-- Some entry of `v` is newer than what `w` records exactly when `v` is not below `w`, `w`
recording no negative etag. -/
theorem any_newer_iff {v w : ChangeVector} (hv : DistinctDbs v.entries) (hw : ∀ d, 0 ≤ w.get d) :
    (v.entries.any fun e => e.etag > w.get e.db) = true ↔ ¬∀ d, v.get d ≤ w.get d := by
  rw [List.any_eq_true]
  constructor
  · rintro ⟨e, he, hgt⟩ hle
    have hget : v.get e.db = e.etag := by
      rw [get_eq_seen, seen, hv.seenIn_eq_some_iff.mpr ⟨e, he, rfl, rfl⟩]
      rfl
    have := hle e.db
    simp only [decide_eq_true_eq] at hgt
    omega
  · intro hle
    obtain ⟨d, hd⟩ := not_forall.mp hle
    rw [not_le, get_eq_seen v d] at hd
    cases hs : seen v d with
    | none =>
      rw [hs] at hd
      have := hw d
      simp only [Option.getD_none] at hd
      omega
    | some n =>
      -- the database `d` is listed by `v`, with the etag it records
      obtain ⟨x, hx, rfl, rfl⟩ := hv.seenIn_eq_some_iff.mp hs
      rw [hs] at hd
      exact ⟨x, hx, by simpa using hd⟩

/-- Comparing two non-empty vectors answers by its two scans: already merged when the remote
has nothing newer, an update when only it has, a conflict when both have. -/
theorem compare_answers {r l : ChangeVector} (hr : r.entries ≠ []) (hl : l.entries ≠ [])
    {rn ln : Prop} (hrn : (r.entries.any fun e => e.etag > l.get e.db) = true ↔ rn)
    (hln : (l.entries.any fun e => e.etag > r.get e.db) = true ↔ ln) :
    (compare r l = .alreadyMerged ↔ ¬rn) ∧ (compare r l = .update ↔ rn ∧ ¬ln) ∧
      (compare r l = .conflict ↔ rn ∧ ln) := by
  have hre : r.isEmpty = false := by simpa [isEmpty] using hr
  have hle : l.isEmpty = false := by simpa [isEmpty] using hl
  unfold compare
  simp only [hre, hle, Bool.false_eq_true, if_false]
  cases h₁ : r.entries.any (fun e => e.etag > l.get e.db) <;>
    cases h₂ : l.entries.any (fun e => e.etag > r.get e.db) <;> simp_all

/-! ## Reading texts -/

/-- Observing never leaves a vector empty. -/
theorem observe_ne_nil (v : ChangeVector) (e : CvEntry) : (v.observe e).entries ≠ [] := by
  by_cases h : ∃ y ∈ v.entries, y.db = e.db
  · rw [observe_of_listed h]
    obtain ⟨y, hy, -⟩ := h
    simpa using List.ne_nil_of_mem hy
  · simp only [not_exists, not_and] at h
    rw [observe_of_unlisted h]
    intro hnil
    simpa using congrArg List.length hnil

theorem foldl_observe_eq_nil_iff {v : ChangeVector} {es : List CvEntry} :
    (es.foldl observe v).entries = [] ↔ v.entries = [] ∧ es = [] := by
  induction es generalizing v with
  | nil => simp
  | cons e es ih =>
    rw [List.foldl_cons, ih]
    simp [observe_ne_nil]

theorem foldl_observe_ne_nil {v : ChangeVector} {es : List CvEntry} (h : es ≠ []) :
    (es.foldl observe v).entries ≠ [] :=
  fun hnil => h (foldl_observe_eq_nil_iff.mp hnil).2

theorem parse_of_written {s : String} {es : List CvEntry} (h : written s = .ok es) :
    parse s = .ok (es.foldl observe {}) := by
  rw [parse_eq_written, h]
  rfl

theorem etag_nonneg_of_written {s : String} {es : List CvEntry} (h : written s = .ok es) :
    ∀ e ∈ es, 0 ≤ e.etag :=
  fun e he => (wellFormed_of_written h e he).etag_nonneg

/-- The vector read from a text records what the text lists, none of it negative. -/
theorem get_parse_nonneg {s : String} {es : List CvEntry} (h : written s = .ok es) (d : String) :
    0 ≤ (es.foldl observe {}).get d := by
  rw [get_foldl_observe]
  exact listedEtag_nonneg (etag_nonneg_of_written h) d

/-! ## Blank texts -/

/-- The parts of a list cut at `p` hold only elements of the list. -/
theorem subset_of_mem_splitOnP {α : Type} {p : α → Bool} {l q : List α}
    (hq : q ∈ l.splitOnP p) : q ⊆ l := by
  induction l generalizing q with
  | nil => simp_all
  | cons a l ih =>
    rw [List.splitOnP_cons_eq_if_modifyHead] at hq
    split at hq
    · rcases List.mem_cons.mp hq with rfl | hq
      · exact List.nil_subset _
      · exact List.Subset.trans (ih hq) (List.subset_cons_self a l)
    · obtain ⟨r, rs, hrs⟩ := List.exists_cons_of_ne_nil (List.splitOnP_ne_nil p l)
      rw [hrs, List.modifyHead_cons] at hq
      rcases List.mem_cons.mp hq with rfl | hq
      · exact List.cons_subset_cons a (ih (hrs ▸ List.mem_cons_self))
      · exact List.Subset.trans (ih (hrs ▸ List.mem_cons_of_mem r hq)) (List.subset_cons_self a l)

/-- A text trims to nothing exactly when all its characters are blank. -/
theorem trim_isEmpty_iff (s : String) :
    (Text.trim s).isEmpty = true ↔ ∀ c ∈ s.toList, Text.isBlank c = true := by
  rw [String.isEmpty_iff, ← String.toList_eq_nil_iff, Text.trim_toList, List.reverse_eq_nil_iff,
    List.dropWhile_eq_nil_iff]
  constructor
  · intro h
    -- what is left after the leading blanks starts with no blank, and is all blank: nothing
    have hnil : s.toList.dropWhile Text.isBlank = [] := by
      cases hd : s.toList.dropWhile Text.isBlank with
      | nil => rfl
      | cons c cs =>
        have hc := Text.isBlank_head?_dropWhile s.toList c (by simp [hd])
        rw [hd] at h
        simp only [List.reverse_cons, List.mem_append, List.mem_reverse, List.mem_singleton] at h
        exact absurd (h c (.inr rfl)) (by simp [hc])
    exact List.dropWhile_eq_nil_iff.mp hnil
  · intro h
    rw [List.dropWhile_eq_nil_iff.mpr h]
    simp

/-- A blank text lists no entry. -/
theorem written_of_blank {s : String} (h : (Text.trim s).isEmpty = true) : written s = .ok [] := by
  have hparts : parts s = [] := by
    refine List.filter_eq_nil_iff.mpr fun p hp => ?_
    obtain ⟨q, hq, rfl⟩ := List.mem_map.mp hp
    rw [List.splitOn_eq_splitOnP] at hq
    have hblank : ∀ c ∈ (String.ofList q).toList, Text.isBlank c = true := by
      rw [String.toList_ofList]
      exact fun c hc => (trim_isEmpty_iff s).mp h c (subset_of_mem_splitOnP hq hc)
    simp [(trim_isEmpty_iff _).mpr hblank]
  rw [written, hparts]
  rfl

theorem not_blank_of_written {s : String} {es : List CvEntry} (h : written s = .ok es)
    (hne : es ≠ []) : (Text.trim s).isEmpty = false := by
  cases hb : (Text.trim s).isEmpty with
  | false => rfl
  | true =>
    rw [written_of_blank hb] at h
    cases h
    exact absurd rfl hne

/-! ## The comparison of texts -/

/-- `conflictStatus` on accepted texts: its shortcuts, then the comparison of what they read to. -/
theorem conflictStatus_eq {r l : String} {er el : List CvEntry} (hr : written r = .ok er)
    (hl : written l = .ok el) :
    conflictStatus r l =
      if r = l ∨ (Text.trim r).isEmpty = true then .ok .alreadyMerged
      else if (Text.trim l).isEmpty = true then .ok .update
      else .ok (compare (er.foldl observe {}) (el.foldl observe {})) := by
  unfold conflictStatus
  rw [parse_of_written hr, parse_of_written hl]
  simp only [beq_iff_eq, Bool.or_eq_true]
  rfl

/-- When the local text lists an entry, `conflictStatus` decides the pointwise order. -/
theorem conflictStatus_answers {r l : String} {er el : List CvEntry} (hr : written r = .ok er)
    (hl : written l = .ok el) (hne : el ≠ []) : AnswersOrder (conflictStatus r l) er el := by
  have hl0 := etag_nonneg_of_written hl
  rw [conflictStatus_eq hr hl]
  simp only [not_blank_of_written hl hne, Bool.false_eq_true, if_false]
  by_cases hshort : r = l ∨ (Text.trim r).isEmpty = true
  · rw [if_pos hshort]
    rcases hshort with rfl | hblank
    · -- the same text reads to the same entries
      rw [hr] at hl
      cases hl
      exact answersOrder_alreadyMerged fun d => le_refl _
    · rw [written_of_blank hblank] at hr
      cases hr
      exact answersOrder_alreadyMerged (below_nil hl0)
  rw [if_neg hshort]
  by_cases her : er = []
  · subst her
    have hcmp : compare ([].foldl observe {}) (el.foldl observe {}) = .alreadyMerged := rfl
    rw [hcmp]
    exact answersOrder_alreadyMerged (below_nil hl0)
  -- both sides list entries: the two scans decide the order
  have hrn := (any_newer_iff (distinct_empty.foldl_observe er) (get_parse_nonneg hl)).trans
    (by simp only [Below, get_foldl_observe] :
      (¬∀ d, (er.foldl observe {}).get d ≤ (el.foldl observe {}).get d) ↔ ¬Below er el)
  have hln := (any_newer_iff (distinct_empty.foldl_observe el) (get_parse_nonneg hr)).trans
    (by simp only [Below, get_foldl_observe] :
      (¬∀ d, (el.foldl observe {}).get d ≤ (er.foldl observe {}).get d) ↔ ¬Below el er)
  obtain ⟨hmerged, hupdate, hconflict⟩ :=
    compare_answers (foldl_observe_ne_nil her) (foldl_observe_ne_nil hne) hrn hln
  refine ⟨?_, ?_, ?_⟩
  · rw [Except.ok.injEq, hmerged, not_not]
  · rw [Except.ok.injEq, hupdate, not_not, and_comm]
  · rw [Except.ok.injEq, hconflict]

/-- When the local text lists nothing, the shortcuts answer: already merged for an equal or
blank remote text, or for a remote listing nothing against a local text that is not blank, and
an update otherwise. -/
theorem conflictStatus_of_nil {r l : String} {er : List CvEntry} (hr : written r = .ok er)
    (hl : written l = .ok []) :
    conflictStatus r l =
      .ok (if r = l ∨ (Text.trim r).isEmpty = true ∨
          (er = [] ∧ (Text.trim l).isEmpty = false) then .alreadyMerged else .update) := by
  rw [conflictStatus_eq hr hl]
  by_cases hshort : r = l ∨ (Text.trim r).isEmpty = true
  · rw [if_pos hshort, if_pos (hshort.elim .inl fun h => .inr (.inl h))]
  rw [if_neg hshort]
  cases hlb : (Text.trim l).isEmpty with
  | true =>
    rw [if_pos rfl, if_neg]
    simpa only [Bool.true_eq_false, and_false, or_false] using hshort
  | false =>
    simp only [Bool.false_eq_true, if_false, and_true]
    by_cases her : er = []
    · subst her
      rw [if_pos (.inr (.inr rfl))]
      rfl
    · rw [if_neg (by simpa only [her, false_and, or_false] using hshort)]
      simp [compare, foldl_observe_ne_nil her, isEmpty]

/-! ## Merged texts -/

section Merged

variable {a b m : String} {ea eb : List CvEntry}

/-- The merge of two accepted texts is the text of the merge of what they read to. -/
theorem mergeVectors_of_written (ha : written a = .ok ea) (hb : written b = .ok eb)
    (hm : mergeVectors a b = .ok m) :
    m = ((ea.foldl observe {}).merge (eb.foldl observe {})).render := by
  rw [mergeVectors_eq (parse_of_written ha) (parse_of_written hb)] at hm
  cases hm
  rfl

/-- The entries of a merge of read vectors are well formed. -/
theorem wellFormed_merge_written (ha : written a = .ok ea) (hb : written b = .ok eb) :
    ∀ e ∈ ((ea.foldl observe {}).merge (eb.foldl observe {})).entries, e.WellFormed := by
  have hwf {s : String} {es : List CvEntry} (h : written s = .ok es) :
      ∀ e ∈ (es.foldl observe {}).entries, e.WellFormed := by
    intro e he
    rcases mem_foldl_observe he with he | he
    · simp at he
    · exact wellFormed_of_written h e he
  exact wellFormed_merge (hwf ha) (hwf hb)

/-- A merge records at least what the first text records. -/
theorem below_merge (hb : written b = .ok eb) :
    Below ea ((ea.foldl observe {}).merge (eb.foldl observe {})).entries := by
  intro d
  have hva := distinct_empty.foldl_observe ea
  have hvb := distinct_empty.foldl_observe eb
  have hvm : DistinctDbs ((ea.foldl observe {}).merge (eb.foldl observe {})).entries :=
    hva.foldl_observe _
  rw [← get_foldl_observe, get_eq_seen, hvm.listedEtag_eq]
  show (seen _ d).getD 0 ≤ (seen (ChangeVector.merge _ _) d).getD 0
  rw [seen_merge hva hvb]
  have hb0 := get_parse_nonneg hb d
  rw [get_eq_seen] at hb0
  cases seen (ea.foldl observe {}) d <;> cases hsb : seen (eb.foldl observe {}) d <;>
    simp_all [Option.merge]

end Merged

/-! ## The order decided -/

/-- Comparing change-vector texts decides the pointwise order of what they record, whenever the
local text lists an entry: already merged exactly when the remote records no newer etag on any
database, an update exactly when only the local one is below it, a conflict exactly when
neither is. When the local text lists nothing, an equal or blank remote text, or a remote
listing nothing against a non-blank local text, is already merged, and any other remote is an
update. So a text is already merged into its merge with another unless both list nothing and it
is not blank, and a merge is never in conflict with the first text merged. -/
theorem conflictStatus_order :
    (∀ (r l : String) (er el : List CvEntry), written r = .ok er → written l = .ok el →
      (el ≠ [] → AnswersOrder (conflictStatus r l) er el) ∧
      (el = [] → conflictStatus r l =
        .ok (if r = l ∨ (Text.trim r).isEmpty = true ∨
            (er = [] ∧ (Text.trim l).isEmpty = false) then .alreadyMerged else .update))) ∧
    ∀ (a b m : String) (ea eb : List CvEntry), written a = .ok ea → written b = .ok eb →
      mergeVectors a b = .ok m →
      conflictStatus a m = .ok (if (Text.trim a).isEmpty = false ∧ ea = [] ∧ eb = []
          then .update else .alreadyMerged) ∧
        conflictStatus m a ≠ .ok .conflict := by
  refine ⟨fun r l er el hr hl => ⟨conflictStatus_answers hr hl, fun hnil => ?_⟩,
    fun a b m ea eb ha hb hm => ?_⟩
  · subst hnil
    exact conflictStatus_of_nil hr hl
  -- the merge is the text of a vector holding the larger etag of every database
  have hM := mergeVectors_of_written ha hb hm
  have hwm : written m = .ok ((ea.foldl observe {}).merge (eb.foldl observe {})).entries := by
    rw [hM]
    exact written_render (wellFormed_merge_written ha hb)
  have hbelow : Below ea ((ea.foldl observe {}).merge (eb.foldl observe {})).entries :=
    below_merge hb
  constructor
  · by_cases hnil : ((ea.foldl observe {}).merge (eb.foldl observe {})).entries = []
    · -- both texts list nothing, and the merge is the empty text
      obtain ⟨hva, hvb⟩ := foldl_observe_eq_nil_iff.mp hnil
      have hea := (foldl_observe_eq_nil_iff.mp hva).2
      have heb := (foldl_observe_eq_nil_iff.mp hvb).2
      have hm' : m = "" := by rw [hM, render, hnil]; rfl
      rw [hnil] at hwm
      rw [conflictStatus_of_nil ha hwm, hm']
      subst hea heb
      have hempty : (Text.trim "").isEmpty = true := by decide +kernel
      cases hab : (Text.trim a).isEmpty with
      | true => simp
      | false =>
        have hne : a ≠ "" := by
          rintro rfl
          rw [hempty] at hab
          cases hab
        simp [hne, hempty]
    · obtain ⟨hmerged, -, -⟩ := conflictStatus_answers ha hwm hnil
      have hne : ¬(ea = [] ∧ eb = []) := by
        rintro ⟨rfl, rfl⟩
        exact hnil rfl
      rw [if_neg (fun h => hne h.2), hmerged]
      exact hbelow
  · by_cases hea : ea = []
    · subst hea
      rw [conflictStatus_of_nil hwm ha]
      split_ifs <;> simp
    · obtain ⟨-, -, hconflict⟩ := conflictStatus_answers hwm ha hea
      rw [Ne, hconflict]
      exact fun h => h.2 hbelow

/-- The remote `A:6-db1, B:1-db2` against the local `A:7-db1`, and the merge of `A:5-db1` with
`B:4-db2`. -/
theorem conflictStatus_order_sample :
    let er : List CvEntry := [⟨"A", 6, "db1"⟩, ⟨"B", 1, "db2"⟩]
    let el : List CvEntry := [⟨"A", 7, "db1"⟩]
    written "A:6-db1, B:1-db2" = .ok er ∧ written "A:7-db1" = .ok el ∧
      (el ≠ [] → AnswersOrder (conflictStatus "A:6-db1, B:1-db2" "A:7-db1") er el) ∧
      written "A:5-db1" = .ok [⟨"A", 5, "db1"⟩] ∧ written "B:4-db2" = .ok [⟨"B", 4, "db2"⟩] ∧
      mergeVectors "A:5-db1" "B:4-db2" = .ok "A:5-db1, B:4-db2" ∧
      conflictStatus "A:5-db1" "A:5-db1, B:4-db2" =
        .ok (if (Text.trim "A:5-db1").isEmpty = false ∧ [⟨"A", 5, "db1"⟩] = ([] : List CvEntry) ∧
          [⟨"B", 4, "db2"⟩] = ([] : List CvEntry) then .update else .alreadyMerged) ∧
      conflictStatus "A:5-db1, B:4-db2" "A:5-db1" ≠ .ok .conflict := by
  intro er el
  have hr : written "A:6-db1, B:1-db2" = .ok er := by decide +kernel
  have hl : written "A:7-db1" = .ok el := by decide +kernel
  have ha : written "A:5-db1" = .ok [⟨"A", 5, "db1"⟩] := by decide +kernel
  have hb : written "B:4-db2" = .ok [⟨"B", 4, "db2"⟩] := by decide +kernel
  have hm : mergeVectors "A:5-db1" "B:4-db2" = .ok "A:5-db1, B:4-db2" := by
    rw [mergeVectors_eq (parse_of_written ha) (parse_of_written hb)]
    simp [observe, merge, List.mergeSort, List.cons_merge_cons]
    decide +kernel
  exact ⟨hr, hl, (conflictStatus_order.1 _ _ _ _ hr hl).1, ha, hb, hm,
    conflictStatus_order.2 _ _ _ _ _ ha hb hm⟩

/-- A remote whose only etag is zero against an empty local text is an update, though it records
nothing newer than the empty text. -/
theorem conflictStatus_zero_etag :
    written "A:0-db1" = .ok [⟨"A", 0, "db1"⟩] ∧ written "" = .ok [] ∧
      Below [⟨"A", 0, "db1"⟩] [] ∧ conflictStatus "A:0-db1" "" = .ok .update := by
  refine ⟨by decide +kernel, by decide +kernel, fun d => ?_, by decide +kernel⟩
  by_cases hd : "db1" = d <;> simp [listedEtag, hd]

end ChangeVector

end SeriesStore
