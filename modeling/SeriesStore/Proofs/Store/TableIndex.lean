import Mathlib
import SeriesStore.Proofs.Store.TableOrder

/-!
# The secondary index and the byte count of a table

Beside its rows a table keeps a set of `(index, key)` pairs and a count of bytes, and every
change moves them by bookkeeping of its own: an insert puts the new row's pair in, then takes
the replaced row's pair out unless the new row carries the same index, and counts the new row's
bytes in before it counts the replaced row's out; a removal takes the row's pair and bytes out,
and a removal of a prefix removes its rows one by one.

That bookkeeping is right. Every table reached from the empty one by inserts and removals
(`Reachable`) is `Coherent`:

* its keys strictly increase, so a key names at most one row;
* its index holds exactly the pairs `(i, k)` of a row under `k` indexed `i`, in strictly
  increasing order of index, then key, also where two keys share an index (`IndexExact`); so
  `indexFrom i` lists exactly the indexed rows from `i` on, in that order, and `indexRev` all of
  them backwards;
* its byte count is the bytes of its keys and values (`BytesExact`);
* every seek inside a prefix `p`, from a key that starts with `p`, lists exactly the rows under
  `p` on its side of the key, in its direction.

Each part is a predicate beside the table with one lemma per change that keeps it, so the
coherence of a reached table is an induction over the changes that reached it.
-/

namespace SeriesStore

namespace Table

variable {α : Type}

/-! ## Rows under one key -/

section Key

variable {rows : List (Key × Row α)} {k : Key}

/-- In ordered rows, the rows under a key are the one `find?` meets, if any. -/
theorem Ordered.filter_key (h : Ordered rows) :
    rows.filter (·.1 == k) = (rows.find? (·.1 == k)).toList := by
  induction rows with
  | nil => rfl
  | cons x xs ih =>
    by_cases hx : x.1 = k
    · -- every later row lies above `x`, so none of them is under `k`
      have hrest : xs.filter (·.1 == k) = [] := by
        rw [List.filter_eq_nil_iff]
        intro y hy hyk
        exact Key.ne_of_lt (h.lt_of_mem hy) (by rw [hx, beq_iff_eq.mp hyk])
      simp [hx, hrest]
    · simp [hx, ih h.tail]

/-- Ordered rows hold no row twice. -/
theorem Ordered.nodup (h : Ordered rows) : rows.Nodup :=
  h.imp fun hlt heq => Key.ne_of_lt hlt (congrArg Prod.fst heq)

theorem mem_of_find? {x : Key × Row α} (h : rows.find? (·.1 == k) = some x) :
    x ∈ rows ∧ x.1 = k := by
  have hk := List.find?_some h
  exact ⟨List.mem_of_find?_eq_some h, beq_iff_eq.mp hk⟩

end Key

/-! ## Looking up a key -/

section Lookup

variable {t : Table α} {k : Key} {r : Row α}

theorem mem_of_get? (h : t.get? k = some r) : (k, r) ∈ t.rows := by
  unfold get? at h
  obtain ⟨x, hx, rfl⟩ := Option.map_eq_some_iff.mp h
  obtain ⟨hmem, hk⟩ := mem_of_find? hx
  rw [← hk]
  exact hmem

theorem Sorted.get?_of_mem (h : t.Sorted) (hx : (k, r) ∈ t.rows) : t.get? k = some r := by
  unfold get?
  cases hf : t.rows.find? (·.1 == k) with
  | none =>
    exact absurd (List.find?_eq_none.mp hf (k, r) hx) (by simp)
  | some y =>
    obtain ⟨hy, hyk⟩ := mem_of_find? hf
    rw [Ordered.eq_of_key_eq h hy hx hyk]
    rfl

theorem Sorted.get?_eq_some_iff (h : t.Sorted) : t.get? k = some r ↔ (k, r) ∈ t.rows :=
  ⟨mem_of_get?, h.get?_of_mem⟩

end Lookup

/-! ## The order of index entries -/

section Order

/-- One index entry strictly before another: by index, then key. -/
def IndexLt (a b : Int × Key) : Prop := a.1 < b.1 ∨ a.1 = b.1 ∧ Key.lt a.2 b.2 = true

variable {a b c : Int × Key}

theorem indexBefore_iff : indexBefore a b = true ↔ IndexLt a b := by
  simp [indexBefore, IndexLt]

theorem IndexLt.trans (h₁ : IndexLt a b) (h₂ : IndexLt b c) : IndexLt a c := by
  rcases h₁ with h₁ | ⟨h₁, h₁'⟩ <;> rcases h₂ with h₂ | ⟨h₂, h₂'⟩
  · exact .inl (by omega)
  · exact .inl (by omega)
  · exact .inl (by omega)
  · exact .inr ⟨by omega, Key.lt_trans h₁' h₂'⟩

theorem IndexLt.ne (h : IndexLt a b) : a ≠ b := by
  rintro rfl
  rcases h with h | ⟨-, h⟩
  · omega
  · exact Key.ne_of_lt h rfl

/-- Two entries are equal or one comes before the other. -/
theorem indexLt_trichotomy (a b : Int × Key) : IndexLt a b ∨ a = b ∨ IndexLt b a := by
  rcases lt_trichotomy a.1 b.1 with h | h | h
  · exact .inl (.inl h)
  · cases hab : Key.lt a.2 b.2
    · rcases eq_or_ne a.2 b.2 with hk | hk
      · exact .inr (.inl (Prod.ext h hk))
      · exact .inr (.inr (.inr ⟨h.symm, Key.lt_of_le_of_ne (Key.lt_eq_false_iff.mp hab) hk.symm⟩))
    · exact .inl (.inr ⟨h, hab⟩)
  · exact .inr (.inr (.inl h))

/-- An index whose entries strictly increase. -/
def IndexSorted (idx : List (Int × Key)) : Prop := idx.Pairwise IndexLt

variable {e x : Int × Key} {idx : List (Int × Key)}

theorem mem_indexInsert : x ∈ indexInsert e idx ↔ x = e ∨ x ∈ idx := by
  induction idx with
  | nil => simp [indexInsert]
  | cons y ys ih =>
    unfold indexInsert
    split
    · simp
    · split
      · next hye =>
        subst hye
        simp only [List.mem_cons]
        constructor
        · exact .inr
        · rintro (rfl | h) <;> simp_all
      · simp only [List.mem_cons, ih]
        tauto

/-- Putting an entry in keeps the index strictly increasing. -/
theorem IndexSorted.indexInsert (h : IndexSorted idx) (e : Int × Key) :
    IndexSorted (indexInsert e idx) := by
  induction idx with
  | nil => exact List.pairwise_singleton _ _
  | cons y ys ih =>
    obtain ⟨hy, hys⟩ := List.pairwise_cons.mp h
    unfold Table.indexInsert
    split
    · next hbefore =>
      -- `e` comes before `y`, hence before everything after it
      have hey := indexBefore_iff.mp hbefore
      exact List.pairwise_cons.mpr ⟨fun z hz => (List.mem_cons.mp hz).elim (· ▸ hey)
        fun hz => hey.trans (hy z hz), h⟩
    · split
      · exact h
      · next hbefore hne =>
        -- `e` comes after `y`, so `y` stays first
        have hye : IndexLt y e := by
          rcases indexLt_trichotomy e y with h' | h' | h'
          · exact absurd (indexBefore_iff.mpr h') hbefore
          · exact absurd h'.symm hne
          · exact h'
        refine List.pairwise_cons.mpr ⟨fun z hz => ?_, ih hys⟩
        rcases mem_indexInsert.mp hz with rfl | hz
        · exact hye
        · exact hy z hz

theorem mem_indexErase : x ∈ indexErase e idx ↔ x ∈ idx ∧ x ≠ e := by
  simp [indexErase]

theorem IndexSorted.indexErase (h : IndexSorted idx) (e : Int × Key) :
    IndexSorted (indexErase e idx) :=
  List.Pairwise.filter _ h

end Order

/-! ## An index that lists exactly the indexed rows -/

section Exact

variable {k k' : Key} {j : Int} {i : Option Int} {previous : Option (Row α)}
  {idx : List (Int × Key)} {x : Int × Key}

/-- The pairs after the bookkeeping of an insert: the new row's pair is in, and a replaced row's
pair is out unless the new row carries the same index. -/
theorem mem_reindex :
    x ∈ reindex idx k i previous ↔ (x ∈ idx ∨ ∃ j, i = some j ∧ x = (j, k)) ∧
      ∀ old, previous.bind (·.index) = some old → i ≠ some old → x ≠ (old, k) := by
  unfold reindex
  cases i with
  | none => cases previous.bind (·.index) <;> simp [mem_indexErase]
  | some j =>
    cases previous.bind (·.index) with
    | none => simp [mem_indexInsert, or_comm]
    | some old =>
      by_cases hj : j = old
      · simp [hj, mem_indexInsert, or_comm]
      · simp [hj, mem_indexInsert, mem_indexErase, or_comm]

/-- The bookkeeping of an insert touches only the pairs of its key. -/
theorem mem_reindex_of_ne (hne : k ≠ k') :
    (j, k') ∈ reindex idx k i previous ↔ (j, k') ∈ idx := by
  rw [mem_reindex]
  simp [Ne.symm hne]

/-- After an insert the index holds a pair of the key exactly when the new row carries it,
provided it held that key's pairs exactly when the replaced row carried them. -/
theorem mem_reindex_self (hprev : ∀ j, (j, k) ∈ idx ↔ previous.bind (·.index) = some j) :
    (j, k) ∈ reindex idx k i previous ↔ i = some j := by
  rw [mem_reindex, hprev]
  cases previous.bind (·.index) with
  | none => simp
  | some old =>
    constructor
    · rintro ⟨hin | ⟨j', hi, hj'⟩, hout⟩
      · -- the replaced row's pair stays only when the new row carries it too
        obtain rfl := Option.some.inj hin
        by_contra hi
        exact hout old rfl hi rfl
      · obtain ⟨rfl, -⟩ := Prod.mk.inj hj'
        exact hi
    · rintro rfl
      exact ⟨.inr ⟨j, rfl, rfl⟩, fun old' _ hne heq => hne (by rw [(Prod.mk.inj heq).1])⟩

theorem IndexSorted.reindex (h : IndexSorted idx) (k : Key) (i : Option Int)
    (previous : Option (Row α)) : IndexSorted (reindex idx k i previous) := by
  -- the pair put in keeps the order, and taking the replaced row's pair out does too
  have hout : ∀ idx', IndexSorted idx' → ∀ old,
      IndexSorted (if i = some old then idx' else Table.indexErase (old, k) idx') := by
    intro idx' h' old
    split_ifs
    · exact h'
    · exact h'.indexErase _
  unfold Table.reindex
  cases i with
  | none =>
    cases previous.bind (·.index) with
    | none => exact h
    | some old => exact hout idx h old
  | some j =>
    cases previous.bind (·.index) with
    | none => exact h.indexInsert _
    | some old => exact hout _ (h.indexInsert _) old

theorem mem_unindex {k : Key} :
    x ∈ unindex idx k previous ↔ x ∈ idx ∧ ∀ old, previous.bind (·.index) = some old → x ≠ (old, k) := by
  unfold unindex
  cases previous.bind (·.index) <;> simp [mem_indexErase]

theorem IndexSorted.unindex (h : IndexSorted idx) (k : Key) (previous : Option (Row α)) :
    IndexSorted (unindex idx k previous) := by
  unfold Table.unindex
  cases previous.bind (·.index) with
  | none => exact h
  | some old => exact h.indexErase _

/-- The index lists, in strictly increasing order, exactly the pairs `(i, k)` of a row under `k`
that carries the index `i`. -/
structure IndexExact (t : Table α) : Prop where
  sorted : IndexSorted t.index
  mem : ∀ i k, (i, k) ∈ t.index ↔ ∃ r, t.get? k = some r ∧ r.index = some i

theorem indexExact_empty : (empty : Table α).IndexExact :=
  ⟨List.Pairwise.nil, fun _ _ => by simp [empty, get?]⟩

variable {t : Table α}

/-- The index held the pairs of a key exactly as the row under it carried them. -/
theorem IndexExact.mem_key (h : t.IndexExact) (k : Key) (j : Int) :
    (j, k) ∈ t.index ↔ (t.get? k).bind (·.index) = some j := by
  rw [h.mem]
  cases t.get? k <;> simp

variable [ByteSize α]

/-- An insert keeps the index exact. -/
theorem IndexExact.insert (h : t.IndexExact) (k : Key) (v : α) (i : Option Int) :
    (t.insert k v i).1.IndexExact := by
  refine ⟨h.sorted.reindex k i _, fun j k' => ?_⟩
  show (j, k') ∈ reindex t.index k i (t.get? k) ↔ _
  by_cases hk : k = k'
  · subst hk
    rw [mem_reindex_self (h.mem_key k), get?_insert_self]
    simp [eq_comm]
  · rw [mem_reindex_of_ne hk, h.mem, get?_insert_of_ne t hk]

/-- A removal keeps the index exact. -/
theorem IndexExact.remove (h : t.IndexExact) (k : Key) : (t.remove k).1.IndexExact := by
  refine ⟨h.sorted.unindex k _, fun j k' => ?_⟩
  show (j, k') ∈ unindex t.index k (t.get? k) ↔ _
  rw [mem_unindex]
  by_cases hk : k = k'
  · -- the removed key keeps no pair
    subst hk
    rw [get?_remove_self, h.mem_key]
    simp only [reduceCtorEq, false_and, exists_false, iff_false, not_and, not_forall]
    intro hj
    exact ⟨j, hj, fun hne => hne rfl⟩
  · rw [get?_remove_of_ne t hk, ← h.mem]
    have hpair : ∀ old, (j, k') ≠ (old, k) := fun old he => hk (congrArg Prod.snd he).symm
    simp [hpair]

/-- A removal of a prefix, one removal after another, keeps the index exact. -/
theorem IndexExact.removePrefix (h : t.IndexExact) (p : Key) :
    (t.removePrefix p).1.IndexExact := by
  show (((t.withPrefix p).map (·.1)).foldl (fun t k => (t.remove k).1) t).IndexExact
  generalize (t.withPrefix p).map (·.1) = keys
  induction keys generalizing t with
  | nil => exact h
  | cons k keys ih => exact ih (h.remove k)

end Exact

/-! ## Reading the index -/

section Read

variable {t : Table α} {i : Int}

/-- Index entries in strictly increasing order of index, then key. -/
def IndexBefore (a b : Int × Key × Row α) : Prop := IndexLt (a.1, a.2.1) (b.1, b.2.1)

/-- Looking entries up keeps those whose key has a row, with that row. -/
theorem mem_lookupEntries {es : List (Int × Key)} {e : Int × Key × Row α} :
    e ∈ t.lookupEntries es ↔ (e.1, e.2.1) ∈ es ∧ t.get? e.2.1 = some e.2.2 := by
  unfold lookupEntries
  rw [List.mem_filterMap]
  constructor
  · rintro ⟨x, hx, hget⟩
    obtain ⟨r, hr, rfl⟩ := Option.map_eq_some_iff.mp hget
    exact ⟨hx, hr⟩
  · rintro ⟨hx, hr⟩
    exact ⟨_, hx, by simp [hr]⟩

theorem pairwise_lookupEntries {R : Int × Key → Int × Key → Prop} {es : List (Int × Key)}
    (h : es.Pairwise R) :
    (t.lookupEntries es).Pairwise fun a b => R (a.1, a.2.1) (b.1, b.2.1) := by
  unfold lookupEntries
  refine List.Pairwise.filterMap _ (fun a b hab x hx y hy => ?_) h
  obtain ⟨_, -, rfl⟩ := Option.map_eq_some_iff.mp hx
  obtain ⟨_, -, rfl⟩ := Option.map_eq_some_iff.mp hy
  exact hab

/-- Every row listed from `i` on is a row of the table, indexed at least `i`. -/
theorem mem_rows_of_mem_indexFrom {e : Int × Key × Row α} (h : e ∈ t.indexFrom i) :
    (e.2.1, e.2.2) ∈ t.rows ∧ i ≤ e.1 := by
  obtain ⟨hx, hget⟩ := mem_lookupEntries.mp h
  exact ⟨mem_of_get? hget, by simpa using (List.mem_filter.mp hx).2⟩

/-- An exact index lists, from `i` on, exactly the rows indexed at least `i`. -/
theorem IndexExact.mem_indexFrom (h : t.IndexExact) {e : Int × Key × Row α} :
    e ∈ t.indexFrom i ↔ t.get? e.2.1 = some e.2.2 ∧ e.2.2.index = some e.1 ∧ i ≤ e.1 := by
  unfold indexFrom
  rw [mem_lookupEntries, List.mem_filter, h.mem]
  constructor
  · rintro ⟨⟨⟨r, hr, hri⟩, hi⟩, hget⟩
    rw [hget, Option.some.injEq] at hr
    subst hr
    exact ⟨hget, hri, by simpa using hi⟩
  · rintro ⟨hget, hri, hi⟩
    exact ⟨⟨⟨_, hget, hri⟩, by simpa using hi⟩, hget⟩

/-- An exact index lists the rows in strictly increasing order of index, then key. -/
theorem IndexExact.pairwise_indexFrom (h : t.IndexExact) (i : Int) :
    (t.indexFrom i).Pairwise IndexBefore :=
  pairwise_lookupEntries (h.sorted.filter _)

/-- An exact index lists, backwards, exactly the indexed rows. -/
theorem IndexExact.mem_indexRev (h : t.IndexExact) {e : Int × Key × Row α} :
    e ∈ t.indexRev ↔ t.get? e.2.1 = some e.2.2 ∧ e.2.2.index = some e.1 := by
  unfold indexRev
  rw [mem_lookupEntries, List.mem_reverse, h.mem]
  constructor
  · rintro ⟨⟨r, hr, hri⟩, hget⟩
    rw [hget, Option.some.injEq] at hr
    subst hr
    exact ⟨hget, hri⟩
  · rintro ⟨hget, hri⟩
    exact ⟨⟨_, hget, hri⟩, hget⟩

theorem IndexExact.pairwise_indexRev (h : t.IndexExact) :
    t.indexRev.Pairwise fun a b => IndexBefore b a :=
  pairwise_lookupEntries (List.pairwise_reverse.mpr h.sorted)

/-- The rows an exact index lists come in order of index. -/
theorem IndexExact.pairwise_index_le (h : t.IndexExact) (i : Int) :
    (t.indexFrom i).Pairwise fun a b => a.1 ≤ b.1 :=
  (h.pairwise_indexFrom i).imp fun hab => by
    rcases hab with hab | ⟨hab, -⟩ <;> simp only at hab <;> omega

/-- The rows an exact index lists have distinct keys. -/
theorem IndexExact.nodup_indexFrom_keys (h : t.IndexExact) (i : Int) :
    ((t.indexFrom i).map fun e => e.2.1).Nodup := by
  refine List.pairwise_map.mpr ((List.Pairwise.and_mem.mp (h.pairwise_indexFrom i)).imp ?_)
  rintro a b ⟨ha, hb, hab⟩ hk
  -- one key has one row, and that row one index: the two entries are one
  obtain ⟨hga, hia, -⟩ := h.mem_indexFrom.mp ha
  obtain ⟨hgb, hib, -⟩ := h.mem_indexFrom.mp hb
  rw [hk, hgb, Option.some.injEq] at hga
  rw [hga, hia, Option.some.injEq] at hib
  exact hab.ne (Prod.ext hib hk)

end Read

/-! ## The byte count -/

section Bytes

variable [ByteSize α] {t : Table α}

/-- The bytes of rows under their keys. -/
def rowsBytes (rows : List (Key × Row α)) : Nat := (rows.map fun x => rowBytes x.1 x.2).sum

/-- The byte count is the bytes of the keys and values of the rows. -/
def BytesExact (t : Table α) : Prop := t.bytes = rowsBytes t.rows

theorem bytesExact_empty : (empty : Table α).BytesExact := rfl

/-- The rows of a sorted table are those under a key and those under other keys. -/
theorem Sorted.rowsBytes_split (h : t.Sorted) (k : Key) :
    rowsBytes t.rows = rowsBytes (t.rows.filter (·.1 != k)) + bytesOf k (t.get? k) := by
  have hperm : (t.rows.filter (·.1 == k) ++ t.rows.filter (·.1 != k)).Perm t.rows := by
    have := List.filter_append_perm (fun x : Key × Row α => x.1 == k) t.rows
    simpa [bne] using this
  unfold rowsBytes
  rw [← (hperm.map _).sum_eq, List.map_append, List.sum_append, Ordered.filter_key h,
    Nat.add_comm]
  congr 1
  unfold bytesOf get?
  cases hf : t.rows.find? (·.1 == k) with
  | none => rfl
  | some x =>
    obtain ⟨-, hk⟩ := mem_of_find? hf
    simp [← hk]

/-- An insert counts the new row's bytes in and the replaced row's out, which keeps the count
exact. -/
theorem BytesExact.insert (h : t.BytesExact) (hs : t.Sorted) (k : Key) (v : α) (i : Option Int) :
    (t.insert k v i).1.BytesExact := by
  -- after the insert the rows are the new row and the rows under other keys
  have hperm :
      (putRow k ⟨v, i⟩ t.rows).Perm ((k, ⟨v, i⟩) :: t.rows.filter (·.1 != k)) := by
    refine (List.perm_ext_iff_of_nodup ?_ ?_).mpr fun x => ?_
    · exact (hs.insert k v i).nodup
    · refine List.nodup_cons.mpr ⟨fun hx => by simp at hx, ?_⟩
      exact (hs.filter _).nodup
    · rw [mem_putRow hs, List.mem_cons, List.mem_filter, bne_iff_ne]
  have hnew : rowsBytes (putRow k ⟨v, i⟩ t.rows) =
      rowBytes k ⟨v, i⟩ + rowsBytes (t.rows.filter (·.1 != k)) := by
    unfold rowsBytes
    rw [(hperm.map _).sum_eq, List.map_cons, List.sum_cons]
  have hsplit := hs.rowsBytes_split k
  show t.bytes + rowBytes k ⟨v, i⟩ - bytesOf k (t.get? k) = rowsBytes (putRow k ⟨v, i⟩ t.rows)
  rw [hnew, h]
  omega

/-- A removal counts the removed row's bytes out, which keeps the count exact. -/
theorem BytesExact.remove (h : t.BytesExact) (hs : t.Sorted) (k : Key) :
    (t.remove k).1.BytesExact := by
  have hsplit := hs.rowsBytes_split k
  show t.bytes - bytesOf k (t.get? k) = rowsBytes (t.rows.filter (·.1 != k))
  rw [h]
  omega

/-- A removal of a prefix, one removal after another, keeps the count exact. -/
theorem BytesExact.removePrefix (h : t.BytesExact) (hs : t.Sorted) (p : Key) :
    (t.removePrefix p).1.BytesExact := by
  show (((t.withPrefix p).map (·.1)).foldl (fun t k => (t.remove k).1) t).BytesExact
  generalize (t.withPrefix p).map (·.1) = keys
  induction keys generalizing t with
  | nil => exact h
  | cons k keys ih => exact ih (h.remove hs k) (hs.remove k)

end Bytes

/-! ## Tables reached by inserts and removals -/

section Reach

variable [ByteSize α]

/-- The tables reached from the empty one by any sequence of inserts, removals and removals of a
prefix. -/
inductive Reachable : Table α → Prop
  | empty : Reachable empty
  | insert {t : Table α} (k : Key) (v : α) (i : Option Int) : Reachable t →
      Reachable (t.insert k v i).1
  | remove {t : Table α} (k : Key) : Reachable t → Reachable (t.remove k).1
  | removePrefix {t : Table α} (p : Key) : Reachable t → Reachable (t.removePrefix p).1

theorem Sorted.removePrefix {t : Table α} (h : t.Sorted) (p : Key) :
    (t.removePrefix p).1.Sorted := by
  show (((t.withPrefix p).map (·.1)).foldl (fun t k => (t.remove k).1) t).Sorted
  generalize (t.withPrefix p).map (·.1) = keys
  induction keys generalizing t with
  | nil => exact h
  | cons k keys ih => exact ih (h.remove k)

/-- What a table reached by inserts and removals keeps: rows in key order, an exact index and an
exact byte count. -/
theorem Reachable.kept {t : Table α} (h : t.Reachable) :
    t.Sorted ∧ t.IndexExact ∧ t.BytesExact := by
  induction h with
  | empty => exact ⟨sorted_empty, indexExact_empty, bytesExact_empty⟩
  | insert k v i _ ih => exact ⟨ih.1.insert k v i, ih.2.1.insert k v i, ih.2.2.insert ih.1 k v i⟩
  | remove k _ ih => exact ⟨ih.1.remove k, ih.2.1.remove k, ih.2.2.remove ih.1 k⟩
  | removePrefix p _ ih =>
    exact ⟨ih.1.removePrefix p, ih.2.1.removePrefix p, ih.2.2.removePrefix ih.1 p⟩

/-- What a table has to get right: the order of its rows, the index it keeps and what reading
it lists, the byte count it keeps, and the seeks read off the rows. -/
structure Coherent (t : Table α) : Prop where
  sorted : t.Sorted
  index : ∀ i k, (i, k) ∈ t.index ↔ ∃ r, t.get? k = some r ∧ r.index = some i
  bytes : t.sizeInBytes = (t.rows.map fun x => x.1.length + ByteSize.size x.2.value).sum
  indexFrom : ∀ i, (t.indexFrom i).Pairwise IndexBefore ∧
    ∀ e, e ∈ t.indexFrom i ↔ t.get? e.2.1 = some e.2.2 ∧ e.2.2.index = some e.1 ∧ i ≤ e.1
  indexRev : t.indexRev.Pairwise (fun a b => IndexBefore b a) ∧
    ∀ e, e ∈ t.indexRev ↔ t.get? e.2.1 = some e.2.2 ∧ e.2.2.index = some e.1
  seekForward : ∀ p k, Key.startsWith k p = true →
    t.seekForward p k = (t.under p).filter fun x => Key.le k x.1
  seekAfter : ∀ p k, Key.startsWith k p = true →
    t.seekAfter p k = (t.under p).filter fun x => Key.lt k x.1
  seekBackward : ∀ p k, Key.startsWith k p = true →
    t.seekBackward p k = ((t.under p).filter fun x => Key.le x.1 k).getLast?
  seekBefore : ∀ p k, Key.startsWith k p = true →
    t.seekBefore p k = ((t.under p).filter fun x => Key.lt x.1 k).reverse

/-- Every table reached from the empty one by inserts, removals and removals of a prefix is
coherent: its index holds exactly the pairs of its indexed rows, so reading it lists them in
order of index and then key, forwards from any index and backwards; its byte count is the bytes
of its keys and values; and each seek inside a prefix lists exactly the rows under the prefix on
its side of the key. -/
theorem coherent_of_reachable {t : Table α} (h : t.Reachable) : t.Coherent := by
  obtain ⟨hs, hidx, hbytes⟩ := h.kept
  exact {
    sorted := hs
    index := hidx.mem
    bytes := hbytes
    indexFrom := fun _ => ⟨hidx.pairwise_indexFrom _, fun _ => hidx.mem_indexFrom⟩
    indexRev := ⟨hidx.pairwise_indexRev, fun _ => hidx.mem_indexRev⟩
    seekForward := fun _ _ hk => seekForward_eq hs hk
    seekAfter := fun _ _ hk => seekAfter_eq hs hk
    seekBackward := fun _ _ hk => seekBackward_eq hs hk
    seekBefore := fun _ _ hk => seekBefore_eq hs hk }

end Reach

/-- Rows put under two keys with one index, one of them put again with its index kept and then
with another: the index keeps one pair per row, and the count the bytes of the rows now held. -/
theorem shared_index_coherent :
    let t : Table (List UInt8) :=
      (((((empty.insert [2] [7] (some 5)).1.insert [2] [8, 8] (some 5)).1.insert [1] [9]
        (some 5)).1.insert [2] [6] (some 7)).1.insert [3] [] none).1
    t.Reachable ∧ t.Coherent ∧ t.index = [(5, [1]), (7, [2])] ∧ t.sizeInBytes = 5 := by
  intro t
  have hr : t.Reachable :=
    .insert _ _ _ (.insert _ _ _ (.insert _ _ _ (.insert _ _ _ (.insert _ _ _ .empty))))
  exact ⟨hr, coherent_of_reachable hr, by decide, by decide⟩

end Table

end SeriesStore
