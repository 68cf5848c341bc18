import Mathlib
import SeriesStore.Proofs.SortedSearch
import SeriesStore.Proofs.Store.TableOrder
import SeriesStore.Proofs.Store.Txn

/-!
# The series names of a document

A document lists the names of its series in its metadata (`@timeseries`), in ascending order of
their lowercase forms, and carries the flag `HasTimeSeries` (`@flags`) while it lists any. Names
are added and taken off by `Tables.addSeriesName` and `Tables.removeSeriesName`, which find a
name by halving the list.

Take a document stored with no metadata of its own, then any run of calls on the names of
documents, this one's or others' (`NameHistory`). Along the run (`seriesNames_sorted_set`):

* the document's names strictly ascend without case, and as a set without case they are the
  names added to it and not taken off since;
* it carries the flag exactly while it lists a name;
* adding a name answers false exactly when the name is listed already, taking one off exactly
  when it is not, and both answer false on a missing document.

The proof carries one invariant of the document (`Tracks`): its names ascend and are those of
the run, they sit in `@timeseries` while there are any, and then `HasTimeSeries` is the only
flag (`NamesShape`). Each call keeps it (`addSeriesName_tracked`, `removeSeriesName_tracked`),
and a call on another document leaves the document alone (`addSeriesName_keeps`,
`removeSeriesName_keeps`), as every document is stored under the key of its own id (`Keyed`).
-/

namespace SeriesStore

/-! ## Fields of a JSON object -/

namespace Json

variable {fs : List (String × Json)} {k k' : String} {v : Json}

theorem lookup_setField_self : (setField fs k v).lookup k = some v := by
  unfold setField
  dsimp only
  split_ifs with hany
  · -- replaced in place: the first field named `k` now holds `v`
    induction fs with
    | nil => simp at hany
    | cons p fs ih =>
      obtain ⟨k₁, v₁⟩ := p
      by_cases h : k₁ = k
      · subst h
        simp
      · have hk : (k == k₁) = false := by simpa using Ne.symm h
        have hk₁ : (k₁ == k) = false := by simpa using h
        simp only [List.any_cons, hk₁, Bool.false_or] at hany
        simp only [List.map_cons, hk₁, Bool.false_eq_true, if_false, List.lookup, hk]
        exact ih hany
  · -- added at the end, after fields that are not named `k`
    induction fs with
    | nil => simp
    | cons p fs ih =>
      obtain ⟨k₁, v₁⟩ := p
      simp only [List.any_cons, Bool.or_eq_true, beq_iff_eq, not_or] at hany
      have hk : (k == k₁) = false := by simpa using Ne.symm hany.1
      simp only [List.cons_append, List.lookup, hk]
      exact ih (by simpa using hany.2)

theorem lookup_setField_of_ne (h : k' ≠ k) : (setField fs k v).lookup k' = fs.lookup k' := by
  unfold setField
  dsimp only
  split_ifs with hany
  · clear hany
    induction fs with
    | nil => rfl
    | cons p fs ih =>
      obtain ⟨k₁, v₁⟩ := p
      by_cases hk' : k' = k₁
      · -- the field asked for is not the one set
        subst hk'
        simp [List.lookup, h]
      · have hne : (k' == k₁) = false := by simpa using hk'
        simp only [List.map_cons]
        split_ifs <;> simp only [List.lookup, hne] <;> exact ih
  · rw [List.lookup_append]
    have hne : (k' == k) = false := by simpa using h
    cases fs.lookup k' <;> simp [List.lookup, hne]

theorem lookup_eraseField_self : (eraseField fs k).lookup k = none := by
  induction fs with
  | nil => rfl
  | cons p fs ih =>
    obtain ⟨k₁, v₁⟩ := p
    by_cases hk : k₁ = k
    · subst hk
      simpa [eraseField] using ih
    · have : (k == k₁) = false := by simpa using Ne.symm hk
      simpa [eraseField, List.filter_cons, hk, List.lookup, this] using ih

theorem lookup_eraseField_of_ne (h : k' ≠ k) : (eraseField fs k).lookup k' = fs.lookup k' := by
  induction fs with
  | nil => rfl
  | cons p fs ih =>
    obtain ⟨k₁, v₁⟩ := p
    by_cases hk : k₁ = k
    · subst hk
      have : (k' == k₁) = false := by simpa using h
      simpa [eraseField, List.lookup, this] using ih
    · simp only [eraseField, List.filter_cons, bne_iff_ne, ne_eq, hk, not_false_eq_true,
        if_true, List.lookup]
      split
      · rfl
      · exact ih

end Json

/-! ## The names and the flag of a document -/

namespace Document

variable {d : Document} {root m : List (String × Json)} {ns : List String}

/-- The metadata of a document whose data is an object with an object under `@metadata`. -/
theorem metadata?_eq (hd : d.data = .obj root) (hm : root.lookup "@metadata" = some (.obj m)) :
    d.metadata? = some m := by
  simp [metadata?, hd, Json.get?, hm, Json.asObject?]

/-- Changing the metadata of such a document sets the changed object in its place. -/
theorem updateMetadata_eq (hd : d.data = .obj root) (hm : root.lookup "@metadata" = some (.obj m))
    (f : List (String × Json) → List (String × Json)) :
    d.updateMetadata f =
      .ok { d with data := .obj (Json.setField root "@metadata" (.obj (f m))) } := by
  simp [updateMetadata, hd, hm]

/-- How the metadata looks while only the calls on the names change it: the names in
`@timeseries` while there are any, and then `HasTimeSeries` as the only flag. -/
structure NamesShape (ns : List String) (m : List (String × Json)) : Prop where
  names : m.lookup "@timeseries" = if ns = [] then none else some (.arr (ns.map .str))
  flags : m.lookup "@flags" = if ns = [] then none else some (.str seriesFlag)

theorem seriesNames_of_shape (hmeta : d.metadata? = some m) (hs : NamesShape ns m) :
    d.seriesNames = ns := by
  unfold seriesNames
  rw [hmeta, Option.bind_some, hs.names]
  split_ifs with hns
  · simp [hns]
  · simp [Json.asArray?, List.filterMap_map, Function.comp_def, Json.asString?]

/-- The series flag holds no comma, so splitting it on commas gives it back. The split is by
well-founded recursion, so it is run step by step. -/
theorem seriesFlag_splitOn : seriesFlag.splitOn "," = [seriesFlag] := by
  simp only [seriesFlag, String.splitOn]
  repeat (rw [String.splitOnAux]; simp +decide only [↓reduceIte])

theorem flagsOf_of_seriesFlag (h : m.lookup "@flags" = some (.str seriesFlag)) :
    flagsOf m = some [seriesFlag] := by
  simp only [flagsOf, h, Option.bind_some, Json.asString?, Option.map_some, seriesFlag_splitOn,
    List.map_cons, List.map_nil]
  rfl

theorem flagsOf_of_none (h : m.lookup "@flags" = none) : flagsOf m = none := by
  simp [flagsOf, h]

/-- A document of that shape carries the flag exactly while it lists a name. -/
theorem hasSeriesFlag_of_shape (hmeta : d.metadata? = some m) (hs : NamesShape ns m) :
    d.hasSeriesFlag = true ↔ ns ≠ [] := by
  unfold hasSeriesFlag
  rw [hmeta, Option.bind_some]
  by_cases hns : ns = []
  · rw [flagsOf_of_none (by simpa [hns] using hs.flags)]
    simp [hns]
  · rw [flagsOf_of_seriesFlag (by simpa [hns] using hs.flags)]
    simp [hns]

/-- Where the series flag is the only flag, or there is none, setting or clearing it leaves it
alone or absent. -/
theorem setSeriesFlag_of_flags (h : m.lookup "@flags" = none ∨
    m.lookup "@flags" = some (.str seriesFlag)) (on : Bool) :
    setSeriesFlag on m =
      if on then Json.setField m "@flags" (.str seriesFlag) else Json.eraseField m "@flags" := by
  have hothers : ((flagsOf m).getD []).filter (fun f => !f.isEmpty && f != seriesFlag) = [] := by
    rcases h with h | h
    · simp [flagsOf_of_none h]
    · simp [flagsOf_of_seriesFlag h]
  unfold setSeriesFlag
  simp only [hothers]
  cases on
  · simp
  · simp only [List.nil_append, List.isEmpty_cons, Bool.false_eq_true, if_false, if_true]
    rfl

/-- Changing the metadata keeps the document's id. -/
theorem updateMetadata_id {f : List (String × Json) → List (String × Json)} {d' : Document}
    (h : d.updateMetadata f = .ok d') : d'.id = d.id := by
  unfold updateMetadata at h
  split at h
  · split at h <;> first | (cases h; rfl) | cases h
  · cases h

/-- The metadata after a name is listed: the names in place and the series flag set. -/
theorem namesShape_listed (hs : NamesShape ns m) {ns' : List String} (hne : ns' ≠ []) :
    NamesShape ns' (setSeriesFlag true (Json.setField m "@timeseries" (.arr (ns'.map .str)))) := by
  have hflags : (Json.setField m "@timeseries" (.arr (ns'.map .str))).lookup "@flags" =
      m.lookup "@flags" := Json.lookup_setField_of_ne (by decide)
  rw [setSeriesFlag_of_flags (by rw [hflags, hs.flags]; split_ifs <;> simp) true, if_pos rfl]
  constructor
  · rw [if_neg hne, Json.lookup_setField_of_ne (by decide), Json.lookup_setField_self]
  · rw [if_neg hne, Json.lookup_setField_self]

/-- The metadata after a listed name is taken off: the names left in place, or, with none left,
neither names nor flags. -/
theorem namesShape_unlisted (hs : NamesShape ns m) (hne : ns ≠ []) (ns' : List String) :
    NamesShape ns' (if ns'.isEmpty then setSeriesFlag false (Json.eraseField m "@timeseries")
      else Json.setField m "@timeseries" (.arr (ns'.map .str))) := by
  have hflag : m.lookup "@flags" = some (.str seriesFlag) := by rw [hs.flags, if_neg hne]
  by_cases hns' : ns' = []
  · subst hns'
    have hflags : (Json.eraseField m "@timeseries").lookup "@flags" = some (.str seriesFlag) := by
      rw [Json.lookup_eraseField_of_ne (by decide), hflag]
    rw [if_pos List.isEmpty_nil, setSeriesFlag_of_flags (.inr hflags) false,
      if_neg Bool.false_ne_true]
    constructor
    · rw [if_pos rfl, Json.lookup_eraseField_of_ne (by decide), Json.lookup_eraseField_self]
    · rw [if_pos rfl, Json.lookup_eraseField_self]
  · rw [if_neg (by simpa using hns')]
    constructor
    · rw [if_neg hns', Json.lookup_setField_self]
    · rw [if_neg hns', Json.lookup_setField_of_ne (by decide), hflag]

/-- A document whose names are kept as the calls on them promise, for the set `S` of lowercase
names added and not taken off since: its metadata has the names' shape, and the names strictly
ascend without case and have `S` as their lowercase forms. -/
structure Tracks (S : Finset String) (d : Document) : Prop where
  shape : ∃ root m, d.data = .obj root ∧ root.lookup "@metadata" = some (.obj m) ∧
    NamesShape d.seriesNames m
  sorted : (d.seriesNames.map Text.lower).Pairwise (· < ·)
  names : ∀ x, x ∈ S ↔ x ∈ d.seriesNames.map Text.lower

variable {S : Finset String}

/-- A document whose metadata is set to one of the names' shape tracks the names it lists. -/
theorem tracks_setMetadata {m' : List (String × Json)} (hshape : NamesShape ns m')
    (hsorted : (ns.map Text.lower).Pairwise (· < ·))
    (hnames : ∀ x, x ∈ S ↔ x ∈ ns.map Text.lower) :
    Tracks S { d with data := .obj (Json.setField root "@metadata" (.obj m')) } := by
  have hmeta : ({ d with data := .obj (Json.setField root "@metadata" (.obj m')) } :
      Document).metadata? = some m' := metadata?_eq rfl Json.lookup_setField_self
  have hns := seriesNames_of_shape hmeta hshape
  refine ⟨⟨_, m', rfl, Json.lookup_setField_self, ?_⟩, ?_, ?_⟩ <;> rw [hns]
  exacts [hshape, hsorted, hnames]

/-- Searching the tracked names without case answers exactly, the names being sorted. -/
theorem Tracks.answers (ht : d.Tracks S) (name : String) :
    (searchSorted (fun n => compareNames n name) d.seriesNames).Answers
      (fun n => compare (Text.lower n) (Text.lower name)) d.seriesNames :=
  searchSorted_answers (graded_of_sorted (ht.sorted.imp le_of_lt))

end Document

/-! ## Documents in the store -/

namespace Tables

variable {t t' : Tables} {id id' name : String} {b : Bool} {d : Document}

/-- Every document sits under the key of its own id. -/
def Keyed (t : Tables) : Prop :=
  ∀ k r, t.documents.get? k = some r → Document.keyOf r.value.id = k

theorem document?_storeDocument (d : Document) (id : String) :
    (t.storeDocument d).document? id =
      if Document.keyOf id = Document.keyOf d.id then some d else t.document? id := by
  unfold document? storeDocument
  split_ifs with h
  · simp [h, Table.get?_insert_self]
  · simp [Table.get?_insert_of_ne _ (Ne.symm h)]

theorem document?_congr (h : Document.keyOf id = Document.keyOf id') :
    t.document? id = t.document? id' := by
  simp [document?, h]

theorem Keyed.storeDocument (hk : t.Keyed) (d : Document) : (t.storeDocument d).Keyed := by
  intro k r hr
  by_cases h : Document.keyOf d.id = k
  · subst h
    simp only [Tables.storeDocument, Table.get?_insert_self, Option.some.injEq] at hr
    rw [← hr]
  · rw [Tables.storeDocument, Table.get?_insert_of_ne _ h] at hr
    exact hk k r hr

theorem Keyed.keyOf_id (hk : t.Keyed) (hd : t.document? id = some d) :
    Document.keyOf d.id = Document.keyOf id := by
  unfold document? at hd
  obtain ⟨r, hr, rfl⟩ := Option.map_eq_some_iff.mp hd
  exact hk _ r hr

/-- Storing a changed copy of a document found under a key leaves every other key alone. -/
theorem Keyed.store_changed (hk : t.Keyed) (hd : t.document? id = some d) {d' : Document}
    (hid : d'.id = d.id) :
    (t.storeDocument d').Keyed ∧ (t.storeDocument d').document? id = some d' ∧
      ∀ id', Document.keyOf id' ≠ Document.keyOf id →
        (t.storeDocument d').document? id' = t.document? id' := by
  have hkey : Document.keyOf d'.id = Document.keyOf id := hid ▸ hk.keyOf_id hd
  refine ⟨hk.storeDocument d', ?_, fun id' hne => ?_⟩
  · rw [document?_storeDocument, if_pos hkey.symm]
  · rw [document?_storeDocument, if_neg (hkey ▸ hne)]

/-- What an add or a removal of a name does to the store: nothing, or storing a changed copy of
the document it was called on. -/
def StoresAt (t : Tables) (id : String) (t' : Tables) : Prop :=
  t' = t ∨ ∃ d d', t.document? id = some d ∧ d'.id = d.id ∧ t' = t.storeDocument d'

theorem addSeriesName_stores (h : t.addSeriesName id name = .ok (t', b)) : StoresAt t id t' := by
  unfold addSeriesName at h
  cases hd : t.document? id with
  | none =>
    rw [hd] at h
    cases h
    exact .inl rfl
  | some d =>
    rw [hd] at h
    dsimp only at h
    split at h
    · cases h
      exact .inl rfl
    · obtain ⟨d', hd', hpure⟩ := Except.bind_eq_ok.mp h
      cases hpure
      exact .inr ⟨d, d', hd, Document.updateMetadata_id hd', rfl⟩

theorem removeSeriesName_stores (h : t.removeSeriesName id name = .ok (t', b)) :
    StoresAt t id t' := by
  unfold removeSeriesName at h
  cases hd : t.document? id with
  | none =>
    rw [hd] at h
    cases h
    exact .inl rfl
  | some d =>
    rw [hd] at h
    dsimp only at h
    split at h
    · cases h
      exact .inl rfl
    · obtain ⟨d', hd', hpure⟩ := Except.bind_eq_ok.mp h
      cases hpure
      exact .inr ⟨d, d', hd, Document.updateMetadata_id hd', rfl⟩

/-- A call on the names of one document keeps every document under its own key and leaves the
documents under other keys alone. -/
theorem StoresAt.keeps (hk : t.Keyed) (h : StoresAt t id t') :
    t'.Keyed ∧
      ∀ id', Document.keyOf id' ≠ Document.keyOf id → t'.document? id' = t.document? id' := by
  rcases h with rfl | ⟨d, d', hd, hid, rfl⟩
  · exact ⟨hk, fun _ _ => rfl⟩
  · obtain ⟨hk', -, hframe⟩ := hk.store_changed hd hid
    exact ⟨hk', hframe⟩

/-- Adding a name to a tracked document answers whether it was missing, and the document then
tracks the name too. -/
theorem addSeriesName_tracked {S : Finset String} (hk : t.Keyed) (hd : t.document? id = some d)
    (ht : d.Tracks S) (name : String) :
    ∃ t', t.addSeriesName id name = .ok (t', decide (Text.lower name ∉ S)) ∧ t'.Keyed ∧
      ∃ d', t'.document? id = some d' ∧ d'.Tracks (insert (Text.lower name) S) := by
  obtain ⟨root, m, hdata, hm, hshape⟩ := ht.shape
  have hanswers := ht.answers name
  unfold addSeriesName Document.addName
  rw [hd]
  dsimp only
  cases hsr : searchSorted (fun n => compareNames n name) d.seriesNames with
  | found i =>
    -- listed already, and so flagged: nothing changes
    rw [hsr] at hanswers
    dsimp only
    have hlisted := mem_of_found hanswers
    have hmem : Text.lower name ∈ S := (ht.names _).mpr hlisted
    have hne : d.seriesNames ≠ [] := by
      rintro hnil
      simp [hnil] at hlisted
    have hflag := (Document.hasSeriesFlag_of_shape (Document.metadata?_eq hdata hm) hshape).mpr hne
    refine ⟨t, by simp [hflag, hmem], hk, d, hd, ?_⟩
    rwa [Finset.insert_eq_of_mem hmem]
  | missing i =>
    -- put in its place, the names written back and the document flagged
    rw [hsr] at hanswers
    dsimp only
    have hnot : Text.lower name ∉ S := fun h => not_mem_of_missing hanswers ((ht.names _).mp h)
    rw [Document.updateMetadata_eq hdata hm]
    obtain ⟨hk', hd', -⟩ := hk.store_changed hd
      (rfl : ({ d with data := .obj (Json.setField root "@metadata" (.obj _)) } : Document).id =
        d.id)
    refine ⟨_, by rw [decide_eq_true hnot]; rfl, hk', _, hd', Document.tracks_setMetadata
      (Document.namesShape_listed hshape (by simp))
      (pairwise_insert_of_missing ht.sorted rfl hanswers)
      fun x => ?_⟩
    rw [Finset.mem_insert, ht.names, mem_map_insert]

/-- Taking a name off a tracked document answers whether it was listed, and the document then
tracks the names without it. -/
theorem removeSeriesName_tracked {S : Finset String} (hk : t.Keyed) (hd : t.document? id = some d)
    (ht : d.Tracks S) (name : String) :
    ∃ t', t.removeSeriesName id name = .ok (t', decide (Text.lower name ∈ S)) ∧ t'.Keyed ∧
      ∃ d', t'.document? id = some d' ∧ d'.Tracks (S.erase (Text.lower name)) := by
  obtain ⟨root, m, hdata, hm, hshape⟩ := ht.shape
  have hanswers := ht.answers name
  unfold removeSeriesName Document.removeName
  rw [hd]
  dsimp only
  cases hsr : searchSorted (fun n => compareNames n name) d.seriesNames with
  | found i =>
    -- taken out of its place; with no name left the list and the flag go
    rw [hsr] at hanswers
    dsimp only
    have hlisted := mem_of_found hanswers
    have hmem : Text.lower name ∈ S := (ht.names _).mpr hlisted
    have hne : d.seriesNames ≠ [] := by
      rintro hnil
      simp [hnil] at hlisted
    rw [Document.updateMetadata_eq hdata hm]
    obtain ⟨hk', hd', -⟩ := hk.store_changed hd
      (rfl : ({ d with data := .obj (Json.setField root "@metadata" (.obj _)) } : Document).id =
        d.id)
    refine ⟨_, by rw [decide_eq_true hmem]; rfl, hk', _, hd', Document.tracks_setMetadata
      (Document.namesShape_unlisted hshape hne _)
      (ht.sorted.sublist ((List.eraseIdx_sublist _ _).map _)) fun x => ?_⟩
    rw [Finset.mem_erase, ht.names, mem_map_eraseIdx_of_found ht.sorted hanswers, and_comm]
  | missing i =>
    -- not listed: nothing changes
    rw [hsr] at hanswers
    dsimp only
    have hnot : Text.lower name ∉ S := fun h => not_mem_of_missing hanswers ((ht.names _).mp h)
    refine ⟨t, by simp [hnot], hk, d, hd, ?_⟩
    rwa [Finset.erase_eq_of_notMem hnot]

/-- A document stored with no metadata of its own lists no name and has no flag. -/
theorem putDocument_tracked {collection : String} {data : Json} (hk : t.Keyed)
    (hmeta : data.get? "@metadata" = none) (h : t.putDocument id collection data = .ok t') :
    t'.Keyed ∧ ∃ d, t'.document? id = some d ∧ d.Tracks ∅ := by
  obtain ⟨d, hmake, hpure⟩ := Except.bind_eq_ok.mp h
  cases hpure
  obtain ⟨u, hvalid, hmake⟩ := Except.bind_eq_ok.mp hmake
  cases data with
  | obj root =>
    -- an object: its metadata is made, holding the collection alone
    have hroot : root.lookup "@metadata" = none := hmeta
    simp only [Json.isObject, Bool.not_true, Bool.false_eq_true, if_false] at hmake
    simp only [Document.updateMetadata, hroot, Except.ok.injEq] at hmake
    subst hmake
    have hshape : Document.NamesShape [] (Json.setField [] "@collection" (.str collection)) :=
      ⟨by rw [Json.lookup_setField_of_ne (by decide)]; rfl,
        by rw [Json.lookup_setField_of_ne (by decide)]; rfl⟩
    have ht : Document.Tracks ∅ { (⟨id, .obj root⟩ : Document) with
        data := .obj (Json.setField root "@metadata"
          (.obj (Json.setField [] "@collection" (.str collection)))) } :=
      Document.tracks_setMetadata hshape List.Pairwise.nil (by simp)
    refine ⟨hk.storeDocument _, _, ?_, ht⟩
    rw [document?_storeDocument, if_pos rfl]
  | _ =>
    -- not an object: refused
    cases hmake

end Tables

/-! ## Runs of calls on the names -/

open Tables

/-- Stores reached by storing a document under `id₀` with no metadata of its own, then calling
on the names of documents, `S` being the lowercase names added to that document and not taken
off since. A call on another document leaves `S` as it is. -/
inductive NameHistory (id₀ : String) : Finset String → Tables → Prop
  | stored {t t' : Tables} {collection : String} {data : Json} :
      t.Keyed → data.get? "@metadata" = none → t.putDocument id₀ collection data = .ok t' →
      NameHistory id₀ ∅ t'
  | add {S : Finset String} {t t' : Tables} {id name : String} {b : Bool} :
      NameHistory id₀ S t → Document.keyOf id = Document.keyOf id₀ →
      t.addSeriesName id name = .ok (t', b) → NameHistory id₀ (insert (Text.lower name) S) t'
  | remove {S : Finset String} {t t' : Tables} {id name : String} {b : Bool} :
      NameHistory id₀ S t → Document.keyOf id = Document.keyOf id₀ →
      t.removeSeriesName id name = .ok (t', b) → NameHistory id₀ (S.erase (Text.lower name)) t'
  | addOther {S : Finset String} {t t' : Tables} {id name : String} {b : Bool} :
      NameHistory id₀ S t → Document.keyOf id ≠ Document.keyOf id₀ →
      t.addSeriesName id name = .ok (t', b) → NameHistory id₀ S t'
  | removeOther {S : Finset String} {t t' : Tables} {id name : String} {b : Bool} :
      NameHistory id₀ S t → Document.keyOf id ≠ Document.keyOf id₀ →
      t.removeSeriesName id name = .ok (t', b) → NameHistory id₀ S t'

variable {id₀ : String} {S : Finset String} {t : Tables}

/-- Along a history the store keeps every document under its own key, and the document tracks
the names of the history. -/
theorem NameHistory.tracks (h : NameHistory id₀ S t) :
    t.Keyed ∧ ∃ d, t.document? id₀ = some d ∧ d.Tracks S := by
  induction h with
  | stored hk hmeta hput => exact putDocument_tracked hk hmeta hput
  | @add S t t' id name b _ hid hcall ih =>
    obtain ⟨hk, d, hd, ht⟩ := ih
    obtain ⟨t'', hcall', hk', d', hd', ht'⟩ :=
      addSeriesName_tracked hk ((document?_congr hid).trans hd) ht name
    obtain ⟨rfl, -⟩ := Prod.mk.inj (Except.ok.inj (hcall.symm.trans hcall'))
    exact ⟨hk', d', (document?_congr hid).symm.trans hd', ht'⟩
  | @remove S t t' id name b _ hid hcall ih =>
    obtain ⟨hk, d, hd, ht⟩ := ih
    obtain ⟨t'', hcall', hk', d', hd', ht'⟩ :=
      removeSeriesName_tracked hk ((document?_congr hid).trans hd) ht name
    obtain ⟨rfl, -⟩ := Prod.mk.inj (Except.ok.inj (hcall.symm.trans hcall'))
    exact ⟨hk', d', (document?_congr hid).symm.trans hd', ht'⟩
  | addOther _ hid hcall ih =>
    obtain ⟨hk, d, hd, ht⟩ := ih
    obtain ⟨hk', hframe⟩ := (addSeriesName_stores hcall).keeps hk
    exact ⟨hk', d, (hframe _ (Ne.symm hid)).trans hd, ht⟩
  | removeOther _ hid hcall ih =>
    obtain ⟨hk, d, hd, ht⟩ := ih
    obtain ⟨hk', hframe⟩ := (removeSeriesName_stores hcall).keeps hk
    exact ⟨hk', d, (hframe _ (Ne.symm hid)).trans hd, ht⟩

/-- What the calls on a document's names promise along a history, `S` being the lowercase names
added and not taken off since. -/
structure NamesKept (id₀ : String) (S : Finset String) (t : Tables) : Prop where
  /-- The names strictly ascend without case, they are `S` without case, and the flag is set
  exactly while there are any. -/
  listed : ∃ d, t.document? id₀ = some d ∧
    d.seriesNames.Pairwise (fun a b => compareNames a b = .lt) ∧
    (∀ x, x ∈ S ↔ ∃ n ∈ d.seriesNames, Text.lower n = x) ∧
    (d.hasSeriesFlag = true ↔ d.seriesNames ≠ [])
  /-- Adding a name answers false exactly when it is listed already; the history goes on. -/
  add : ∀ id name, Document.keyOf id = Document.keyOf id₀ →
    ∃ t', t.addSeriesName id name = .ok (t', decide (Text.lower name ∉ S)) ∧
      NameHistory id₀ (insert (Text.lower name) S) t'
  /-- Taking a name off answers false exactly when it is not listed; the history goes on. -/
  remove : ∀ id name, Document.keyOf id = Document.keyOf id₀ →
    ∃ t', t.removeSeriesName id name = .ok (t', decide (Text.lower name ∈ S)) ∧
      NameHistory id₀ (S.erase (Text.lower name)) t'
  /-- On a missing document both calls answer false and change nothing. -/
  missing : ∀ id name, t.document? id = none →
    t.addSeriesName id name = .ok (t, false) ∧ t.removeSeriesName id name = .ok (t, false)

/-- A document's names stay a sorted set without case: along every history of calls on the
names, the document keeps its names strictly ascending without case, as the set of names added
and not taken off since, flagged exactly while there are any, and each call answers whether it
changed the list. -/
theorem seriesNames_sorted_set (h : NameHistory id₀ S t) : NamesKept id₀ S t := by
  obtain ⟨hk, d, hd, ht⟩ := h.tracks
  obtain ⟨root, m, hdata, hm, hshape⟩ := ht.shape
  refine ⟨⟨d, hd, ?_, fun x => ?_, Document.hasSeriesFlag_of_shape
    (Document.metadata?_eq hdata hm) hshape⟩, fun id name hid => ?_, fun id name hid => ?_,
    fun id name hnone => ?_⟩
  · exact (List.pairwise_map.mp ht.sorted).imp compare_lt_iff_lt.mpr
  · rw [ht.names, List.mem_map]
  · obtain ⟨t', hcall, -⟩ :=
      addSeriesName_tracked hk ((document?_congr hid).trans hd) ht name
    exact ⟨t', hcall, h.add hid hcall⟩
  · obtain ⟨t', hcall, -⟩ :=
      removeSeriesName_tracked hk ((document?_congr hid).trans hd) ht name
    exact ⟨t', hcall, h.remove hid hcall⟩
  · unfold addSeriesName removeSeriesName
    rw [hnone]
    exact ⟨rfl, rfl⟩

/-- A document stored with no metadata into an empty store starts a history. -/
theorem names_kept_fresh :
    NameHistory "users/1" ∅ (({} : Tables).storeDocument
        ⟨"users/1", .obj [("@metadata", .obj [("@collection", .str "Users")])]⟩) ∧
      NamesKept "users/1" ∅ (({} : Tables).storeDocument
        ⟨"users/1", .obj [("@metadata", .obj [("@collection", .str "Users")])]⟩) := by
  have h : NameHistory "users/1" ∅ (({} : Tables).storeDocument
      ⟨"users/1", .obj [("@metadata", .obj [("@collection", .str "Users")])]⟩) :=
    .stored (fun k r hr => by simp [Table.get?] at hr) (rfl : (Json.obj []).get? "@metadata" = none)
      rfl
  exact ⟨h, seriesNames_sorted_set h⟩

end SeriesStore
