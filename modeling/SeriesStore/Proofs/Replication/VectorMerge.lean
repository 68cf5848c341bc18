import SeriesStore.Proofs.Replication.VectorText

/-!
# Merging change vectors is a join, given one node tag per database

`observe` keeps, for each database id, the larger etag; merging observes every entry of the
other vector. What a vector records is `seen v db`, the etag it lists for `db`, and merging
takes the larger of the two on every database (`seen_merge`), an operation that is commutative,
associative and idempotent.

The text of a merge carries more than that: the node tag of every entry and the order of the
entries. An entry that wins keeps its place, node tag included, and only a new database makes
the entries be sorted again. So when one database id is written with two node tags the text
depends on the order of the merges: `A:5-db1` merged with `B:5-db1` keeps `A`, the other way
round keeps `B` (`mergeVectors_not_comm`).

When each database id carries the one node tag of the node that holds it (`OwnedBy owner`),
every vector read or merged is *canonical*: sorted by node tag then database id, one entry per
database, each with its owner's tag. A canonical vector is fixed by what it records
(`Canonical.ext`) and reads back from its own text (`parse_render`), so the merged text is a
semilattice join (`mergeVectors_join`):

    mergeVectors a b = mergeVectors b a
    (mergeVectors a b >>= (mergeVectors · c)) = (mergeVectors b c >>= mergeVectors a)
    mergeVectors a a = mergeVectors a ""
-/

namespace SeriesStore

namespace ChangeVector

/-! ## The order of entries -/

theorem entryLe_iff (a b : CvEntry) :
    entryLe a b = true ↔ a.node < b.node ∨ (a.node = b.node ∧ a.db ≤ b.db) := by
  unfold entryLe
  rcases h : Ord.compare a.node b.node with _ | _ | _
  · simp [compare_lt_iff_lt.mp h]
  · have hnode := compare_eq_iff_eq.mp h
    dsimp only
    rw [bne_iff_ne, ne_eq, compare_gt_iff_gt, not_lt, hnode]
    simp
  · have hgt := compare_gt_iff_gt.mp h
    simp [not_lt.mpr hgt.le, hgt.ne']

theorem entryLe_trans (a b c : CvEntry) (h₁ : entryLe a b = true) (h₂ : entryLe b c = true) :
    entryLe a c = true := by
  rw [entryLe_iff] at *
  rcases h₁ with h₁ | ⟨h₁, h₁'⟩ <;> rcases h₂ with h₂ | ⟨h₂, h₂'⟩
  · exact .inl (h₁.trans h₂)
  · exact .inl (h₂ ▸ h₁)
  · exact .inl (h₁ ▸ h₂)
  · exact .inr ⟨h₁.trans h₂, h₁'.trans h₂'⟩

theorem entryLe_total (a b : CvEntry) : (entryLe a b || entryLe b a) = true := by
  rw [Bool.or_eq_true, entryLe_iff, entryLe_iff]
  rcases lt_trichotomy a.node b.node with h | h | h
  · exact .inl (.inl h)
  · rcases le_total a.db b.db with h' | h'
    · exact .inl (.inr ⟨h, h'⟩)
    · exact .inr (.inr ⟨h.symm, h'⟩)
  · exact .inr (.inl h)

/-- Entries ordered both ways have one node tag and one database id. -/
theorem eq_of_entryLe_of_entryLe {a b : CvEntry} (h₁ : entryLe a b = true)
    (h₂ : entryLe b a = true) : a.node = b.node ∧ a.db = b.db := by
  rw [entryLe_iff] at h₁ h₂
  rcases h₁ with h₁ | ⟨h₁, h₁'⟩ <;> rcases h₂ with h₂ | ⟨h₂, h₂'⟩
  · exact absurd (h₁.trans h₂) (lt_irrefl _)
  · exact absurd h₁ (h₂ ▸ lt_irrefl _)
  · exact absurd h₂ (h₁ ▸ lt_irrefl _)
  · exact ⟨h₁, le_antisymm h₁' h₂'⟩

/-- The order of entries looks at node tags and database ids only. -/
theorem entryLe_congr {a a' b b' : CvEntry} (ha : a.node = a'.node ∧ a.db = a'.db)
    (hb : b.node = b'.node ∧ b.db = b'.db) : entryLe a b = entryLe a' b' := by
  unfold entryLe
  rw [ha.1, ha.2, hb.1, hb.2]

/-! ## What a vector records -/

/-- The etag that a list of entries records for a database: the first one listed. -/
def seenIn (l : List CvEntry) (db : String) : Option Int :=
  (l.find? (·.db == db)).map (·.etag)

/-- The etag a vector records for a database, if it lists it. -/
def seen (v : ChangeVector) (db : String) : Option Int := seenIn v.entries db

/-- A list of entries with one entry per database id. -/
def DistinctDbs (l : List CvEntry) : Prop := (l.map (·.db)).Nodup

theorem seenIn_eq_none_iff {l : List CvEntry} {d : String} :
    seenIn l d = none ↔ ∀ x ∈ l, x.db ≠ d := by
  simp [seenIn, List.find?_eq_none]

theorem DistinctDbs.eq_of_db_eq {l : List CvEntry} (h : DistinctDbs l) {x y : CvEntry}
    (hx : x ∈ l) (hy : y ∈ l) (hxy : x.db = y.db) : x = y :=
  List.inj_on_of_nodup_map h hx hy hxy

theorem DistinctDbs.seenIn_eq_some_iff {l : List CvEntry} (h : DistinctDbs l) {d : String}
    {n : Int} : seenIn l d = some n ↔ ∃ x ∈ l, x.db = d ∧ x.etag = n := by
  constructor
  · intro hs
    obtain ⟨y, hy, rfl⟩ := Option.map_eq_some_iff.mp hs
    exact ⟨y, List.mem_of_find?_eq_some hy, by simpa using List.find?_some hy, rfl⟩
  · rintro ⟨x, hx, rfl, rfl⟩
    obtain ⟨y, hy⟩ := Option.isSome_iff_exists.mp
      (List.find?_isSome.mpr ⟨x, hx, by simp⟩ : (l.find? (·.db == x.db)).isSome)
    have hyx : y = x := h.eq_of_db_eq (List.mem_of_find?_eq_some hy) hx
      (by simpa using List.find?_some hy)
    simp [seenIn, hy, hyx]

/-- Lists with one entry per database record the same etags when they hold the same entries. -/
theorem DistinctDbs.seenIn_perm {l₁ l₂ : List CvEntry} (h₁ : DistinctDbs l₁) (hp : l₁.Perm l₂)
    (d : String) : seenIn l₁ d = seenIn l₂ d := by
  have h₂ : DistinctDbs l₂ := (hp.map _).nodup_iff.mp h₁
  cases hs : seenIn l₂ d with
  | none =>
    rw [seenIn_eq_none_iff] at hs ⊢
    exact fun x hx => hs x (hp.subset hx)
  | some n =>
    obtain ⟨x, hx, hd, hn⟩ := h₂.seenIn_eq_some_iff.mp hs
    exact h₁.seenIn_eq_some_iff.mpr ⟨x, hp.symm.subset hx, hd, hn⟩

theorem seenIn_cons (e : CvEntry) (l : List CvEntry) (d : String) :
    seenIn (e :: l) d = if e.db = d then some e.etag else seenIn l d := by
  by_cases h : e.db = d <;> simp [seenIn, h]

theorem seenIn_append_single (l : List CvEntry) (e : CvEntry) (d : String) :
    seenIn (l ++ [e]) d = (seenIn l d).or (if e.db = d then some e.etag else none) := by
  unfold seenIn
  rw [List.find?_append]
  cases l.find? (·.db == d) <;> by_cases h : e.db = d <;> simp [h]

/-! ## Observing one entry -/

/-- What observing `e` does to a listed entry: a newer `e` takes its place. -/
def replaceBy (e x : CvEntry) : CvEntry := if x.db == e.db && e.etag > x.etag then e else x

@[simp] theorem db_replaceBy (e x : CvEntry) : (replaceBy e x).db = x.db := by
  unfold replaceBy
  split_ifs with h
  · simp only [Bool.and_eq_true, beq_iff_eq] at h
    exact h.1.symm
  · rfl

theorem etag_replaceBy_of_db {e x : CvEntry} (h : x.db = e.db) :
    (replaceBy e x).etag = max x.etag e.etag := by
  unfold replaceBy
  by_cases hlt : x.etag < e.etag
  · simp [h, hlt, max_eq_right hlt.le]
  · simp [h, hlt, max_eq_left (not_lt.mp hlt)]

theorem replaceBy_of_db_ne {e x : CvEntry} (h : x.db ≠ e.db) : replaceBy e x = x := by
  simp [replaceBy, h]

theorem observe_of_listed {v : ChangeVector} {e : CvEntry} (h : ∃ x ∈ v.entries, x.db = e.db) :
    v.observe e = ⟨v.entries.map (replaceBy e)⟩ := by
  have hany : v.entries.any (·.db == e.db) = true := by
    obtain ⟨x, hx, hxe⟩ := h
    exact List.any_eq_true.mpr ⟨x, hx, by simp [hxe]⟩
  simp only [observe, hany, ↓reduceIte]
  rfl

theorem observe_of_unlisted {v : ChangeVector} {e : CvEntry} (h : ∀ x ∈ v.entries, x.db ≠ e.db) :
    v.observe e = ⟨(v.entries ++ [e]).mergeSort entryLe⟩ := by
  have hany : v.entries.any (·.db == e.db) = false := by
    simpa [List.any_eq_false] using h
  simp [observe, hany]

/-- Observing an entry only keeps entries, replaces them by it, or adds it. -/
theorem mem_observe {v : ChangeVector} {e x : CvEntry} (hx : x ∈ (v.observe e).entries) :
    x ∈ v.entries ∨ x = e := by
  by_cases h : ∃ y ∈ v.entries, y.db = e.db
  · rw [observe_of_listed h] at hx
    obtain ⟨y, hy, rfl⟩ := List.mem_map.mp hx
    unfold replaceBy
    split_ifs
    · exact .inr rfl
    · exact .inl hy
  · simp only [not_exists, not_and] at h
    rw [observe_of_unlisted h] at hx
    simpa using (List.mergeSort_perm _ _).subset hx

/-- An entry is replaced by one of the same node and database at an etag no smaller. -/
theorem replaceBy_of_le {n d : String} {a b : Int} (hab : a ≤ b) :
    replaceBy ⟨n, b, d⟩ ⟨n, a, d⟩ = ⟨n, b, d⟩ := by
  rcases lt_or_eq_of_le hab with hab | rfl
  · simp [replaceBy, hab]
  · simp [replaceBy]

/-- Replacing by an entry, then by one of the same node and database at an etag no smaller, is
replacing by the second. -/
theorem replaceBy_replaceBy {n d : String} {a b : Int} (hab : a ≤ b) (x : CvEntry) :
    replaceBy ⟨n, b, d⟩ (replaceBy ⟨n, a, d⟩ x) = replaceBy ⟨n, b, d⟩ x := by
  by_cases hx : x.db = d
  · by_cases hlt : x.etag < a
    · have h₁ : replaceBy ⟨n, a, d⟩ x = ⟨n, a, d⟩ := by simp [replaceBy, hx, hlt]
      have h₂ : replaceBy ⟨n, b, d⟩ x = ⟨n, b, d⟩ := by
        simp [replaceBy, hx, show x.etag < b by omega]
      rw [h₁, h₂, replaceBy_of_le hab]
    · have h₁ : replaceBy ⟨n, a, d⟩ x = x := by simp [replaceBy, hx, hlt]
      rw [h₁]
  · have h₁ : replaceBy ⟨n, a, d⟩ x = x := replaceBy_of_db_ne hx
    rw [h₁]

/-- Observing this node's entry at one etag and then at a later one is observing the later one:
the earlier is listed where the later goes, and the later replaces it. -/
theorem observe_observe_of_le (v : ChangeVector) {n d : String} {a b : Int} (hab : a ≤ b) :
    (v.observe ⟨n, a, d⟩).observe ⟨n, b, d⟩ = v.observe ⟨n, b, d⟩ := by
  by_cases h : ∃ x ∈ v.entries, x.db = d
  · have h' : ∃ x ∈ (v.observe ⟨n, a, d⟩).entries, x.db = d := by
      obtain ⟨x, hx, hxd⟩ := h
      rw [observe_of_listed ⟨x, hx, hxd⟩]
      exact ⟨_, List.mem_map_of_mem hx, by simpa using hxd⟩
    rw [observe_of_listed h', observe_of_listed h, observe_of_listed h, List.map_map]
    simp only [ChangeVector.mk.injEq]
    exact List.map_congr_left fun x _ => replaceBy_replaceBy hab x
  · simp only [not_exists, not_and] at h
    have h' : ∃ x ∈ (v.observe ⟨n, a, d⟩).entries, x.db = d := by
      rw [observe_of_unlisted h]
      exact ⟨⟨n, a, d⟩, List.mem_mergeSort.mpr (by simp), rfl⟩
    rw [observe_of_listed h', observe_of_unlisted h, observe_of_unlisted h]
    simp only [ChangeVector.mk.injEq]
    -- only the new entry is replaced, by one in the same place of the order
    have hfix : ∀ x ∈ v.entries, replaceBy ⟨n, b, d⟩ x = x := fun x hx => replaceBy_of_db_ne (h x hx)
    have hkeep : ∀ x ∈ v.entries ++ [⟨n, a, d⟩],
        x.node = (replaceBy ⟨n, b, d⟩ x).node ∧ x.db = (replaceBy ⟨n, b, d⟩ x).db := by
      intro x hx
      rcases List.mem_append.mp hx with hx | hx
      · rw [hfix x hx]
        exact ⟨rfl, rfl⟩
      · rw [List.mem_singleton.mp hx, replaceBy_of_le hab]
        exact ⟨rfl, rfl⟩
    have hmap : (v.entries ++ [(⟨n, a, d⟩ : CvEntry)]).map (replaceBy ⟨n, b, d⟩) =
        v.entries ++ [(⟨n, b, d⟩ : CvEntry)] := by
      rw [List.map_append, List.map_singleton, replaceBy_of_le hab, List.map_congr_left hfix,
        List.map_id']
    rw [List.map_mergeSort fun x hx y hy => entryLe_congr (hkeep x hx) (hkeep y hy), hmap]

theorem DistinctDbs.append_single {l : List CvEntry} (hl : DistinctDbs l) {e : CvEntry}
    (h : ∀ x ∈ l, x.db ≠ e.db) : DistinctDbs (l ++ [e]) := by
  simp only [DistinctDbs, List.map_append, List.map_cons, List.map_nil]
  exact List.nodup_append.mpr ⟨hl, List.nodup_singleton _, by simpa using h⟩

theorem DistinctDbs.observe {v : ChangeVector} (hv : DistinctDbs v.entries) (e : CvEntry) :
    DistinctDbs (v.observe e).entries := by
  by_cases h : ∃ y ∈ v.entries, y.db = e.db
  · rw [observe_of_listed h]
    simpa [DistinctDbs, List.map_map, Function.comp_def] using hv
  · simp only [not_exists, not_and] at h
    rw [observe_of_unlisted h]
    exact ((List.mergeSort_perm _ _).map _).nodup_iff.mpr (hv.append_single h)

/-- Observing `e` takes the larger etag for its database and leaves the others. -/
theorem seen_observe {v : ChangeVector} (hv : DistinctDbs v.entries) (e : CvEntry) (d : String) :
    seen (v.observe e) d =
      if e.db = d then Option.merge max (seen v d) (some e.etag) else seen v d := by
  by_cases h : ∃ y ∈ v.entries, y.db = e.db
  · rw [observe_of_listed h]
    unfold seen seenIn
    rw [List.find?_map, Option.map_map]
    have hp : ((·.db == d) ∘ replaceBy e) = (·.db == d) := by
      funext x
      simp
    rw [hp]
    split_ifs with hd
    · subst hd
      obtain ⟨y, hy⟩ := Option.isSome_iff_exists.mp
        (List.find?_isSome.mpr (by simpa using h) : (v.entries.find? (·.db == e.db)).isSome)
      have hye : y.db = e.db := by simpa using List.find?_some hy
      simp [hy, etag_replaceBy_of_db hye, Option.merge]
    · cases hy : v.entries.find? (·.db == d) with
      | none => rfl
      | some y =>
        have hyd : y.db = d := by simpa using List.find?_some hy
        simp [replaceBy_of_db_ne (hyd.trans_ne (Ne.symm hd))]
  · simp only [not_exists, not_and] at h
    rw [observe_of_unlisted h]
    unfold seen
    rw [← (hv.append_single h).seenIn_perm (List.mergeSort_perm _ _).symm, seenIn_append_single]
    split_ifs with hd
    · subst hd
      rw [seenIn_eq_none_iff.mpr h]
      rfl
    · cases seenIn v.entries d <;> rfl

/-! ## Canonical vectors -/

/-- The shape of every vector read or merged when each database id has one node tag: entries in
order of node tag then database id, one per database, each with the tag `owner` gives it. -/
structure Canonical (owner : String → String) (v : ChangeVector) : Prop where
  owned : ∀ e ∈ v.entries, e.node = owner e.db
  sorted : v.entries.Pairwise fun a b => entryLe a b = true
  distinct : DistinctDbs v.entries

variable {owner : String → String}

theorem canonical_empty (owner : String → String) : Canonical owner {} :=
  ⟨by simp, .nil, .nil⟩

/-- A newer entry takes the place of an older one of its database without moving it. -/
theorem node_replaceBy {e x : CvEntry} (he : e.node = owner e.db) (hx : x.node = owner x.db) :
    (replaceBy e x).node = x.node := by
  unfold replaceBy
  split_ifs with h
  · simp only [Bool.and_eq_true, beq_iff_eq] at h
    rw [he, hx, h.1]
  · rfl

theorem Canonical.observe {v : ChangeVector} (hv : Canonical owner v) {e : CvEntry}
    (he : e.node = owner e.db) : Canonical owner (v.observe e) := by
  refine ⟨fun x hx => ?_, ?_, hv.distinct.observe e⟩
  · rcases mem_observe hx with hx | rfl
    · exact hv.owned x hx
    · exact he
  by_cases h : ∃ y ∈ v.entries, y.db = e.db
  · -- entries keep their node tag and database id, so they keep their order
    rw [observe_of_listed h]
    refine List.pairwise_map.mpr (hv.sorted.imp_of_mem fun {a b} ha hb hab => ?_)
    rw [@entryLe_congr _ a _ b ⟨node_replaceBy he (hv.owned a ha), db_replaceBy e a⟩
      ⟨node_replaceBy he (hv.owned b hb), db_replaceBy e b⟩]
    exact hab
  · simp only [not_exists, not_and] at h
    rw [observe_of_unlisted h]
    exact List.pairwise_mergeSort entryLe_trans entryLe_total _

/-- Of two canonical vectors recording the same etags, the entries of one are entries of the
other: an entry is its database's etag with its owner's tag. -/
theorem Canonical.mem_of_seen {v w : ChangeVector} (hv : Canonical owner v)
    (hw : Canonical owner w) (h : ∀ d, seen v d = seen w d) {x : CvEntry} (hx : x ∈ v.entries) :
    x ∈ w.entries := by
  have hs : seen w x.db = some x.etag :=
    h x.db ▸ hv.distinct.seenIn_eq_some_iff.mpr ⟨x, hx, rfl, rfl⟩
  obtain ⟨y, hy, hyd, hye⟩ := hw.distinct.seenIn_eq_some_iff.mp hs
  have hyn : y.node = x.node := by rw [hw.owned y hy, hv.owned x hx, hyd]
  have hyx : y = x := by
    cases x
    cases y
    simp_all
  exact hyx ▸ hy

/-- A canonical vector is fixed by the etags it records. -/
theorem Canonical.ext {v w : ChangeVector} (hv : Canonical owner v) (hw : Canonical owner w)
    (h : ∀ d, seen v d = seen w d) : v = w := by
  obtain ⟨l₁⟩ := v
  obtain ⟨l₂⟩ := w
  congr 1
  -- the same entries, each sorted: the same list
  have hp : l₁.Perm l₂ := (List.perm_ext_iff_of_nodup hv.distinct.of_map hw.distinct.of_map).mpr
    fun x => ⟨hv.mem_of_seen hw h, hw.mem_of_seen hv fun d => (h d).symm⟩
  refine hp.eq_of_pairwise (fun a b ha hb hab hba => ?_) hv.sorted hw.sorted
  exact hv.distinct.eq_of_db_eq ha (hp.symm.subset hb) (eq_of_entryLe_of_entryLe hab hba).2

/-! ## Merging -/

theorem mem_foldl_observe {l : List CvEntry} {v : ChangeVector} {x : CvEntry}
    (hx : x ∈ (l.foldl observe v).entries) : x ∈ v.entries ∨ x ∈ l := by
  induction l generalizing v with
  | nil => exact .inl hx
  | cons e l ih =>
    rcases ih hx with hx | hx
    · rcases mem_observe hx with hx | rfl
      · exact .inl hx
      · exact .inr List.mem_cons_self
    · exact .inr (List.mem_cons_of_mem e hx)

theorem DistinctDbs.foldl_observe {v : ChangeVector} (hv : DistinctDbs v.entries)
    (l : List CvEntry) : DistinctDbs (l.foldl ChangeVector.observe v).entries := by
  induction l generalizing v with
  | nil => exact hv
  | cons e l ih => exact ih (hv.observe e)

theorem Canonical.foldl_observe {v : ChangeVector} (hv : Canonical owner v) {l : List CvEntry}
    (hl : ∀ e ∈ l, e.node = owner e.db) : Canonical owner (l.foldl ChangeVector.observe v) := by
  induction l generalizing v with
  | nil => exact hv
  | cons e l ih =>
    exact ih (hv.observe (hl e List.mem_cons_self)) fun x hx => hl x (List.mem_cons_of_mem e hx)

/-- Observing the entries of a list, one per database, takes for every database the larger of
what the vector recorded and what the list records. -/
theorem seen_foldl_observe {v : ChangeVector} (hv : DistinctDbs v.entries) {l : List CvEntry}
    (hl : DistinctDbs l) (d : String) :
    seen (l.foldl observe v) d = Option.merge max (seen v d) (seenIn l d) := by
  induction l generalizing v with
  | nil => simp [seenIn]
  | cons e l ih =>
    have hl' : DistinctDbs l := (List.nodup_cons.mp hl).2
    rw [List.foldl_cons, ih (hv.observe e) hl', seen_observe hv]
    rw [seenIn_cons]
    by_cases hd : e.db = d
    · -- the list records `d` at its head and nowhere after
      have hnone : seenIn l d = none := seenIn_eq_none_iff.mpr fun x hx hxd =>
        (List.nodup_cons.mp hl).1 (List.mem_map.mpr ⟨x, hx, hxd.trans hd.symm⟩)
      rw [if_pos hd, if_pos hd, hnone, Option.merge_none_right]
    · rw [if_neg hd, if_neg hd]

/-- Merging takes the larger etag on every database. -/
theorem seen_merge {v w : ChangeVector} (hv : DistinctDbs v.entries) (hw : DistinctDbs w.entries)
    (d : String) : seen (v.merge w) d = Option.merge max (seen v d) (seen w d) :=
  seen_foldl_observe hv hw d

theorem Canonical.merge {v w : ChangeVector} (hv : Canonical owner v) (hw : Canonical owner w) :
    Canonical owner (v.merge w) :=
  hv.foldl_observe hw.owned

/-- Observing an entry a vector already lists changes nothing. -/
theorem observe_of_mem {v : ChangeVector} (hv : DistinctDbs v.entries) {e : CvEntry}
    (he : e ∈ v.entries) : v.observe e = v := by
  rw [observe_of_listed ⟨e, he, rfl⟩]
  congr 1
  conv => rhs; rw [← List.map_id v.entries]
  refine List.map_congr_left fun x hx => ?_
  by_cases hxe : x.db = e.db
  · rw [hv.eq_of_db_eq hx he hxe]
    simp [replaceBy]
  · exact replaceBy_of_db_ne hxe

/-- Merging a vector with itself gives it back. -/
theorem merge_self {v : ChangeVector} (hv : DistinctDbs v.entries) : v.merge v = v := by
  suffices h : ∀ l : List CvEntry, (∀ e ∈ l, e ∈ v.entries) → l.foldl observe v = v from
    h v.entries fun _ he => he
  intro l hl
  induction l with
  | nil => rfl
  | cons e l ih =>
    rw [List.foldl_cons, observe_of_mem hv (hl e List.mem_cons_self)]
    exact ih fun x hx => hl x (List.mem_cons_of_mem e hx)

theorem wellFormed_merge {v w : ChangeVector} (hv : ∀ e ∈ v.entries, e.WellFormed)
    (hw : ∀ e ∈ w.entries, e.WellFormed) : ∀ e ∈ (v.merge w).entries, e.WellFormed := by
  intro e he
  rcases mem_foldl_observe he with he | he
  · exact hv e he
  · exact hw e he

/-! ## Reading the text of a vector -/

/-- Observing, one after the other, entries sorted and of distinct databases appends them. -/
theorem foldl_observe_sorted (p l : List CvEntry)
    (hs : (p ++ l).Pairwise fun a b => entryLe a b = true) (hd : DistinctDbs (p ++ l)) :
    l.foldl observe ⟨p⟩ = ⟨p ++ l⟩ := by
  induction l generalizing p with
  | nil => simp
  | cons e l ih =>
    have hnew : ∀ x ∈ p, x.db ≠ e.db := by
      intro x hx hxe
      have hdisj := (List.nodup_append.mp (by simpa [DistinctDbs] using hd)).2.2
      exact hdisj x.db (List.mem_map_of_mem hx) e.db (by simp) hxe
    have hpe : (p ++ [e]).Pairwise fun a b => entryLe a b = true :=
      hs.sublist (List.Sublist.append_left ((List.nil_sublist l).cons_cons e) p)
    have happ : p ++ e :: l = (p ++ [e]) ++ l := by simp
    rw [List.foldl_cons, observe_of_unlisted hnew, List.mergeSort_of_pairwise hpe, happ]
    exact ih (p ++ [e]) (happ ▸ hs) (happ ▸ hd)

/-- A vector sorted, with one entry per database and well-formed entries, reads back from its
text. -/
theorem parse_render {v : ChangeVector} (hs : v.entries.Pairwise fun a b => entryLe a b = true)
    (hd : DistinctDbs v.entries) (hw : ∀ e ∈ v.entries, e.WellFormed) :
    parse v.render = .ok v := by
  rw [parse_eq_written, written_render hw]
  show Except.ok (v.entries.foldl observe ⟨[]⟩) = .ok v
  rw [foldl_observe_sorted [] v.entries (by simpa using hs) (by simpa using hd)]
  rfl

theorem parse_empty : parse "" = .ok {} := by
  have htrim : Text.trim "" = "" := Text.trim_of_unpadded (by simp [Text.Unpadded])
  have hparts : parts "" = [] := by simp [parts, htrim]
  rw [parse_eq_written, written, hparts]
  rfl

/-- A text is accepted and every entry written in it carries the node tag `owner` gives its
database. -/
def OwnedBy (owner : String → String) (s : String) : Prop :=
  ∃ es, written s = .ok es ∧ ∀ e ∈ es, e.node = owner e.db

/-- A text whose entries carry their owners' tags reads as a canonical vector of well-formed
entries. -/
theorem OwnedBy.canonical_parse {s : String} (h : OwnedBy owner s) :
    ∃ v, ChangeVector.parse s = .ok v ∧ Canonical owner v ∧ ∀ e ∈ v.entries, e.WellFormed := by
  obtain ⟨es, hes, hown⟩ := h
  refine ⟨es.foldl ChangeVector.observe {}, by rw [parse_eq_written, hes]; rfl,
    (canonical_empty owner).foldl_observe hown, fun e he => ?_⟩
  rcases mem_foldl_observe he with he | he
  · simp at he
  · exact wellFormed_of_written hes e he

end ChangeVector

theorem mergeVectors_eq {a b : String} {va vb : ChangeVector} (ha : ChangeVector.parse a = .ok va)
    (hb : ChangeVector.parse b = .ok vb) : mergeVectors a b = .ok (va.merge vb).render := by
  unfold mergeVectors
  rw [ha, hb]
  rfl

open ChangeVector in
/-- Merged change-vector texts form a semilattice when every database id is written with the
node tag of its owner: merging is commutative and associative, and merging a text with itself
gives its canonical text. -/
theorem mergeVectors_join (owner : String → String) {a b c : String} (ha : OwnedBy owner a)
    (hb : OwnedBy owner b) (hc : OwnedBy owner c) :
    mergeVectors a b = mergeVectors b a ∧
      (mergeVectors a b >>= fun ab => mergeVectors ab c) =
        (mergeVectors b c >>= fun bc => mergeVectors a bc) ∧
      mergeVectors a a = mergeVectors a "" := by
  obtain ⟨va, hpa, hca, hwa⟩ := ha.canonical_parse
  obtain ⟨vb, hpb, hcb, hwb⟩ := hb.canonical_parse
  obtain ⟨vc, hpc, hcc, hwc⟩ := hc.canonical_parse
  refine ⟨?_, ?_, ?_⟩
  · rw [mergeVectors_eq hpa hpb, mergeVectors_eq hpb hpa,
      (hca.merge hcb).ext (hcb.merge hca) fun d => ?_]
    rw [seen_merge hca.distinct hcb.distinct, seen_merge hcb.distinct hca.distinct]
    exact Std.Commutative.comm _ _
  · -- both sides read back the text of a canonical merge
    have hpab := parse_render (hca.merge hcb).sorted (hca.merge hcb).distinct
      (wellFormed_merge hwa hwb)
    have hpbc := parse_render (hcb.merge hcc).sorted (hcb.merge hcc).distinct
      (wellFormed_merge hwb hwc)
    rw [mergeVectors_eq hpa hpb, mergeVectors_eq hpb hpc]
    show mergeVectors (va.merge vb).render c = mergeVectors a (vb.merge vc).render
    rw [mergeVectors_eq hpab hpc, mergeVectors_eq hpa hpbc,
      ((hca.merge hcb).merge hcc).ext (hca.merge (hcb.merge hcc)) fun d => ?_]
    rw [seen_merge (hca.merge hcb).distinct hcc.distinct, seen_merge hca.distinct hcb.distinct,
      seen_merge hca.distinct (hcb.merge hcc).distinct, seen_merge hcb.distinct hcc.distinct]
    exact Std.Associative.assoc _ _ _
  · rw [mergeVectors_eq hpa hpa, mergeVectors_eq hpa parse_empty, merge_self hca.distinct]
    rfl

end SeriesStore

namespace SeriesStore

/-- One database id written with two node tags: of two equal etags the entry met first stays,
so the merged text keeps `A` one way and `B` the other. -/
theorem mergeVectors_not_comm :
    mergeVectors "A:5-db1" "B:5-db1" ≠ mergeVectors "B:5-db1" "A:5-db1" := by
  decide +kernel

/-- Three texts whose databases `db1`, `db2`, `db3` belong to nodes `A`, `B`, `C`. -/
theorem mergeVectors_join_owned :
    let owner := fun d => if d = "db1" then "A" else if d = "db2" then "B" else "C"
    let a := "A:5-db1, B:1-db2"
    let b := "B:4-db2, C:1-db3"
    let c := "A:7-db1"
    ChangeVector.OwnedBy owner a ∧ ChangeVector.OwnedBy owner b ∧ ChangeVector.OwnedBy owner c ∧
      (mergeVectors a b = mergeVectors b a ∧
        (mergeVectors a b >>= fun ab => mergeVectors ab c) =
          (mergeVectors b c >>= fun bc => mergeVectors a bc) ∧
        mergeVectors a a = mergeVectors a "") := by
  intro owner a b c
  have ha : ChangeVector.OwnedBy owner a :=
    ⟨[⟨"A", 5, "db1"⟩, ⟨"B", 1, "db2"⟩], by decide +kernel, by decide⟩
  have hb : ChangeVector.OwnedBy owner b :=
    ⟨[⟨"B", 4, "db2"⟩, ⟨"C", 1, "db3"⟩], by decide +kernel, by decide⟩
  have hc : ChangeVector.OwnedBy owner c := ⟨[⟨"A", 7, "db1"⟩], by decide +kernel, by decide⟩
  exact ⟨ha, hb, hc, mergeVectors_join owner ha hb hc⟩

end SeriesStore
