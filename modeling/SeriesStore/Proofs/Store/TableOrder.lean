import SeriesStore.Proofs.Store.KeyOrder

/-!
# Sorted tables

A table is `Sorted` when its keys strictly increase. Every table the store builds is: the
empty table is, and `insert` and `remove` keep it so. On a sorted table every seek inside a
prefix `p` is a plain list operation on `t.under p`, the rows whose keys start with `p`:

    t.seekForward p k  = (t.under p).filter (k ≤ ·)
    t.seekAfter p k    = (t.under p).filter (k < ·)
    t.seekBackward p k = ((t.under p).filter (· ≤ k)).getLast?
    t.seekBefore p k   = ((t.under p).filter (· < k)).reverse

(for a key `k` that starts with `p`). Each holds because the keys with the prefix form an
interval: a seek that starts inside it stops at its end and meets no key outside.
-/

namespace SeriesStore

namespace Table

variable {α : Type}

/-- Rows whose keys strictly increase. -/
def Ordered (rows : List (Key × Row α)) : Prop := rows.Pairwise fun a b => Key.lt a.1 b.1 = true

/-- A table whose keys strictly increase. -/
def Sorted (t : Table α) : Prop := Ordered t.rows

/-- The rows whose keys start with `p`, in key order. -/
def under (t : Table α) (p : Key) : List (Key × Row α) :=
  t.rows.filter fun r => Key.startsWith r.1 p

/-! ## Ordered lists of rows -/

section Ordered

variable {rows rows' : List (Key × Row α)}

theorem Ordered.filter (h : Ordered rows) (f : Key × Row α → Bool) : Ordered (rows.filter f) :=
  List.Pairwise.filter f h

theorem Ordered.tail {r : Key × Row α} (h : Ordered (r :: rows)) : Ordered rows :=
  (List.pairwise_cons.mp h).2

theorem Ordered.lt_of_mem {r : Key × Row α} (h : Ordered (r :: rows)) {x : Key × Row α}
    (hx : x ∈ rows) : Key.lt r.1 x.1 = true :=
  (List.pairwise_cons.mp h).1 x hx

/-- Two ordered lists with the same rows are equal. -/
theorem Ordered.eq_of_mem_iff (h : Ordered rows) (h' : Ordered rows')
    (hmem : ∀ x, x ∈ rows ↔ x ∈ rows') : rows = rows' := by
  induction rows generalizing rows' with
  | nil =>
    cases rows' with
    | nil => rfl
    | cons b bs => exact absurd ((hmem b).mpr List.mem_cons_self) List.not_mem_nil
  | cons a as ih =>
    cases rows' with
    | nil => exact absurd ((hmem a).mp List.mem_cons_self) List.not_mem_nil
    | cons b bs =>
      have hab : a = b := by
        rcases List.mem_cons.mp ((hmem a).mp List.mem_cons_self) with hab | ha
        · exact hab
        rcases List.mem_cons.mp ((hmem b).mpr List.mem_cons_self) with hba | hb
        · exact hba.symm
        have h₁ := h.lt_of_mem hb
        have h₂ := h'.lt_of_mem ha
        rw [Key.lt_asymm h₁] at h₂
        cases h₂
      subst hab
      have htail : ∀ x, x ∈ as ↔ x ∈ bs := by
        intro x
        constructor
        · intro hx
          have hne : x ≠ a := fun hxa => by
            have := h.lt_of_mem hx
            rw [hxa] at this
            simp at this
          exact (List.mem_cons.mp ((hmem x).mp (List.mem_cons_of_mem a hx))).resolve_left hne
        · intro hx
          have hne : x ≠ a := fun hxa => by
            have := h'.lt_of_mem hx
            rw [hxa] at this
            simp at this
          exact (List.mem_cons.mp ((hmem x).mpr (List.mem_cons_of_mem a hx))).resolve_left hne
      rw [ih h.tail h'.tail htail]

/-- In an ordered list a key names at most one row. -/
theorem Ordered.eq_of_key_eq (h : Ordered rows) {x y : Key × Row α} (hx : x ∈ rows)
    (hy : y ∈ rows) (hk : x.1 = y.1) : x = y := by
  induction rows with
  | nil => cases hx
  | cons r rs ih =>
    rcases List.mem_cons.mp hx with hxr | hxs
    · rcases List.mem_cons.mp hy with hyr | hys
      · rw [hxr, hyr]
      · have := h.lt_of_mem hys
        rw [← hxr, hk] at this
        simp at this
    · rcases List.mem_cons.mp hy with hyr | hys
      · have := h.lt_of_mem hxs
        rw [← hyr, hk] at this
        simp at this
      · exact ih h.tail hxs hys

theorem mem_putRow {k : Key} {r : Row α} (h : Ordered rows) {x : Key × Row α} :
    x ∈ putRow k r rows ↔ x = (k, r) ∨ (x ∈ rows ∧ x.1 ≠ k) := by
  induction rows with
  | nil => simp [putRow]
  | cons y ys ih =>
    have hys := h.tail
    unfold putRow
    cases hc : Key.compare k y.1 with
    | lt =>
      simp only [List.mem_cons]
      constructor
      · rintro (rfl | rfl | hx)
        · exact .inl rfl
        · exact .inr ⟨.inl rfl, fun hyk => by rw [hyk, Key.compare_self] at hc; cases hc⟩
        · refine .inr ⟨.inr hx, fun hxk => ?_⟩
          have h₁ := h.lt_of_mem hx
          rw [hxk, Key.lt_iff, Key.compare_swap, hc] at h₁
          cases h₁
      · rintro (rfl | ⟨rfl | hx, -⟩)
        · exact .inl rfl
        · exact .inr (.inl rfl)
        · exact .inr (.inr hx)
    | eq =>
      have hky : k = y.1 := Key.compare_eq_iff.mp hc
      simp only [List.mem_cons]
      constructor
      · rintro (rfl | hx)
        · exact .inl rfl
        · refine .inr ⟨.inr hx, fun hxk => ?_⟩
          have h₁ := h.lt_of_mem hx
          rw [hxk, hky] at h₁
          simp at h₁
      · rintro (rfl | ⟨rfl | hx, hne⟩)
        · exact .inl rfl
        · exact absurd hky.symm hne
        · exact .inr hx
    | gt =>
      simp only [List.mem_cons, ih hys]
      constructor
      · rintro (rfl | rfl | ⟨hx, hne⟩)
        · exact .inr ⟨.inl rfl, fun hyk => by rw [hyk, Key.compare_self] at hc; cases hc⟩
        · exact .inl rfl
        · exact .inr ⟨.inr hx, hne⟩
      · rintro (rfl | ⟨rfl | hx, hne⟩)
        · exact .inr (.inl rfl)
        · exact .inl rfl
        · exact .inr (.inr ⟨hx, hne⟩)

theorem Ordered.putRow (h : Ordered rows) (k : Key) (r : Row α) :
    Ordered (SeriesStore.Table.putRow k r rows) := by
  induction rows with
  | nil => exact List.pairwise_singleton _ _
  | cons y ys ih =>
    unfold SeriesStore.Table.putRow
    cases hc : Key.compare k y.1 with
    | lt =>
      refine List.Pairwise.cons (fun x hx => ?_) h
      have hky : Key.lt k y.1 = true := Key.lt_iff.mpr hc
      rcases List.mem_cons.mp hx with rfl | hx
      · exact hky
      · exact Key.lt_trans hky (h.lt_of_mem hx)
    | eq =>
      have hky : k = y.1 := Key.compare_eq_iff.mp hc
      refine List.Pairwise.cons (fun x hx => ?_) h.tail
      rw [hky]
      exact h.lt_of_mem hx
    | gt =>
      refine List.Pairwise.cons (fun x hx => ?_) (ih h.tail)
      rcases (mem_putRow h.tail).mp hx with rfl | ⟨hx, -⟩
      · rw [Key.lt_iff, Key.compare_swap, hc]
        rfl
      · exact h.lt_of_mem hx

/-- Where rows are filtered by their keys, putting a row commutes with the filter. -/
theorem filter_putRow (h : Ordered rows) (k : Key) (r : Row α) (f : Key → Bool) :
    (SeriesStore.Table.putRow k r rows).filter (fun x => f x.1) =
      if f k then SeriesStore.Table.putRow k r (rows.filter fun x => f x.1)
      else rows.filter fun x => f x.1 := by
  have hf : Ordered (rows.filter fun x => f x.1) := h.filter _
  split
  · next hk =>
    refine ((h.putRow k r).filter _).eq_of_mem_iff (hf.putRow k r) fun x => ?_
    rw [List.mem_filter, mem_putRow h, mem_putRow hf, List.mem_filter]
    constructor
    · rintro ⟨rfl | ⟨hx, hne⟩, hfx⟩
      · exact .inl rfl
      · exact .inr ⟨⟨hx, hfx⟩, hne⟩
    · rintro (rfl | ⟨⟨hx, hfx⟩, hne⟩)
      · exact ⟨.inl rfl, hk⟩
      · exact ⟨.inr ⟨hx, hne⟩, hfx⟩
  · next hk =>
    refine ((h.putRow k r).filter _).eq_of_mem_iff hf fun x => ?_
    rw [List.mem_filter, mem_putRow h, List.mem_filter]
    constructor
    · rintro ⟨rfl | ⟨hx, -⟩, hfx⟩
      · exact absurd hfx hk
      · exact ⟨hx, hfx⟩
    · rintro ⟨hx, hfx⟩
      refine ⟨.inr ⟨hx, fun hxk => hk ?_⟩, hfx⟩
      rw [← hxk]
      exact hfx

/-- Putting a row past every row of a first part leaves that part in front. -/
theorem putRow_append_of_lt {k : Key} {r : Row α} (hlt : ∀ x ∈ rows, Key.lt x.1 k = true)
    (rest : List (Key × Row α)) :
    SeriesStore.Table.putRow k r (rows ++ rest) = rows ++ SeriesStore.Table.putRow k r rest := by
  induction rows with
  | nil => rfl
  | cons x xs ih =>
    have hx : Key.compare k x.1 = .gt := by
      rw [Key.compare_swap, (Key.lt_iff.mp (hlt x List.mem_cons_self))]
      rfl
    rw [List.cons_append, SeriesStore.Table.putRow, hx]
    simp only [List.cons_append]
    rw [ih fun y hy => hlt y (List.mem_cons_of_mem x hy)]

/-- A row below the first row goes in front. -/
theorem putRow_cons_of_lt {k : Key} {r : Row α} {x : Key × Row α} (hlt : Key.lt k x.1 = true) :
    SeriesStore.Table.putRow k r (x :: rows) = (k, r) :: x :: rows := by
  rw [SeriesStore.Table.putRow, Key.lt_iff.mp hlt]

/-- A row under the first row's key replaces it. -/
theorem putRow_cons_self {k : Key} {r r' : Row α} :
    SeriesStore.Table.putRow k r ((k, r') :: rows) = (k, r) :: rows := by
  rw [SeriesStore.Table.putRow, Key.compare_self]

/-- The rows at or below a key, then those above it, are all the rows. -/
theorem filter_le_append_filter_lt (h : Ordered rows) (k : Key) :
    rows.filter (fun x => Key.le x.1 k) ++ rows.filter (fun x => Key.lt k x.1) = rows := by
  induction rows with
  | nil => rfl
  | cons x xs ih =>
    by_cases hx : Key.le x.1 k = true
    · have hlt : Key.lt k x.1 = false := Key.lt_eq_false_iff.mpr hx
      simp only [List.filter_cons, hx, hlt, if_true, Bool.false_eq_true, if_false,
        List.cons_append]
      rw [ih h.tail]
    · have hlt : Key.lt k x.1 = true := Key.le_eq_false_iff.mp (by simpa using hx)
      -- every later row lies above `x`, so above `k`
      have hall : ∀ y ∈ xs, Key.lt k y.1 = true := fun y hy => Key.lt_trans hlt (h.lt_of_mem hy)
      have hnone : xs.filter (fun y => Key.le y.1 k) = [] :=
        List.filter_eq_nil_iff.mpr fun y hy hle => by
          have := hall y hy
          rw [Key.lt_eq_false_iff.mpr hle] at this
          cases this
      simp only [List.filter_cons, hx, hlt, if_true, Bool.false_eq_true, if_false, hnone,
        List.filter_eq_self.mpr hall, List.nil_append]

/-- Removing the key of a row of an ordered list removes that row only. -/
theorem filter_ne_append_cons {a b : List (Key × Row α)} {x : Key × Row α}
    (h : Ordered (a ++ x :: b)) : (a ++ x :: b).filter (·.1 != x.1) = a ++ b := by
  have hkeys : ∀ y ∈ a ++ b, y.1 ≠ x.1 := by
    intro y hy hyx
    rcases List.mem_append.mp hy with hy | hy
    · have := (List.pairwise_append.mp h).2.2 y hy x List.mem_cons_self
      rw [hyx] at this
      simp at this
    · have := Ordered.lt_of_mem (List.pairwise_append.mp h).2.1 hy
      rw [hyx] at this
      simp at this
  rw [List.filter_append, List.filter_cons_of_neg (by simp), ← List.filter_append]
  exact List.filter_eq_self.mpr fun y hy => by simpa using hkeys y hy


end Ordered

/-! ## Changing a sorted table -/

section Change

variable {t : Table α}

theorem sorted_empty : (empty : Table α).Sorted := List.Pairwise.nil

@[simp] theorem rows_insert [ByteSize α] (t : Table α) (k : Key) (v : α) (i : Option Int) :
    (t.insert k v i).1.rows = putRow k ⟨v, i⟩ t.rows := rfl

@[simp] theorem rows_remove [ByteSize α] (t : Table α) (k : Key) :
    (t.remove k).1.rows = t.rows.filter (·.1 != k) := rfl

theorem Sorted.insert [ByteSize α] (h : t.Sorted) (k : Key) (v : α) (i : Option Int) :
    (t.insert k v i).1.Sorted :=
  Ordered.putRow h k ⟨v, i⟩

theorem Sorted.remove [ByteSize α] (h : t.Sorted) (k : Key) : (t.remove k).1.Sorted :=
  Ordered.filter h _

theorem under_insert [ByteSize α] (h : t.Sorted) (p k : Key) (v : α) (i : Option Int) :
    (t.insert k v i).1.under p =
      if Key.startsWith k p then putRow k ⟨v, i⟩ (t.under p) else t.under p :=
  filter_putRow h k ⟨v, i⟩ (Key.startsWith · p)

theorem under_remove [ByteSize α] (t : Table α) (p k : Key) :
    (t.remove k).1.under p = (t.under p).filter (·.1 != k) := by
  simp only [under, rows_remove, List.filter_filter]
  congr 1
  funext x
  rw [Bool.and_comm]

/-- A row put under a key outside a prefix leaves the rows under the prefix alone, whatever the
order of the rows. -/
theorem under_insert_of_startsWith_eq_false [ByteSize α] (t : Table α) {p k : Key}
    (hk : Key.startsWith k p = false) (v : α) (i : Option Int) :
    (t.insert k v i).1.under p = t.under p := by
  unfold under
  rw [rows_insert]
  induction t.rows with
  | nil => simp [putRow, hk]
  | cons y ys ih =>
    obtain ⟨k', r'⟩ := y
    unfold putRow
    cases hc : Key.compare k k' with
    | lt => simp [List.filter_cons, hk]
    | eq =>
      -- the row replaced sits under `k` itself, outside the prefix too
      have hkk : k = k' := Key.compare_eq_iff.mp hc
      subst hkk
      simp [hk]
    | gt => simp [List.filter_cons, ih]

/-- A row put under a key is the row found under it. -/
theorem get?_insert_self [ByteSize α] (t : Table α) (k : Key) (v : α) (i : Option Int) :
    (t.insert k v i).1.get? k = some ⟨v, i⟩ := by
  unfold get?
  rw [rows_insert]
  induction t.rows with
  | nil => simp [putRow]
  | cons y ys ih =>
    obtain ⟨k', r'⟩ := y
    unfold putRow
    cases hc : Key.compare k k' with
    | lt => simp
    | eq => simp
    | gt =>
      have hne : k' ≠ k := fun h => by rw [h, Key.compare_self] at hc; cases hc
      simp [hne, ih]

/-- A row put under one key leaves the row under any other key alone, whatever the order of the
rows. -/
theorem get?_insert_of_ne [ByteSize α] (t : Table α) {k k' : Key} (hne : k ≠ k') (v : α) (i : Option Int) :
    (t.insert k v i).1.get? k' = t.get? k' := by
  unfold get?
  rw [rows_insert]
  congr 1
  induction t.rows with
  | nil => simp [putRow, hne]
  | cons y ys ih =>
    obtain ⟨k'', r'⟩ := y
    unfold putRow
    cases hc : Key.compare k k'' with
    | lt => simp [List.find?_cons, hne]
    | eq =>
      have hkk : k = k'' := Key.compare_eq_iff.mp hc
      subst hkk
      simp [hne]
    | gt => simp [List.find?_cons, ih]

/-- A removed key has no row left. -/
@[simp] theorem get?_remove_self [ByteSize α] (t : Table α) (k : Key) :
    (t.remove k).1.get? k = none := by
  simp [get?, remove, List.find?_filter]

/-- Removing one key leaves the row under any other key alone, whatever the order of the rows. -/
theorem get?_remove_of_ne [ByteSize α] (t : Table α) {k k' : Key} (hne : k ≠ k') :
    (t.remove k).1.get? k' = t.get? k' := by
  unfold get? remove
  rw [List.find?_filter]
  congr 2
  funext x
  by_cases hx : x.1 = k'
  · simp [hx, Ne.symm hne]
  · simp [hx]

/-- A row of a table after a put is the row put or a row from before. -/
theorem mem_insert_rows [ByteSize α] {t : Table α} {k : Key} {v : α} {i : Option Int} {x : Key × Row α}
    (hx : x ∈ (t.insert k v i).1.rows) : x = (k, ⟨v, i⟩) ∨ x ∈ t.rows := by
  rw [rows_insert] at hx
  revert hx
  induction t.rows with
  | nil => simp [putRow]
  | cons y ys ih =>
    obtain ⟨k', r'⟩ := y
    intro hx
    unfold putRow at hx
    cases hc : Key.compare k k' with
    | lt =>
      rw [hc] at hx
      simp only [List.mem_cons] at hx ⊢
      tauto
    | eq =>
      rw [hc] at hx
      simp only [List.mem_cons] at hx ⊢
      tauto
    | gt =>
      rw [hc] at hx
      simp only [List.mem_cons] at hx ⊢
      rcases hx with rfl | hx
      · exact .inr (.inl rfl)
      · rcases ih hx with rfl | hx
        · exact .inl rfl
        · exact .inr (.inr hx)

theorem Sorted.under (h : t.Sorted) (p : Key) : Ordered (t.under p) := Ordered.filter h _

theorem startsWith_of_mem_under {p : Key} {x : Key × Row α} (hx : x ∈ t.under p) :
    Key.startsWith x.1 p = true :=
  (List.mem_filter.mp hx).2

end Change

/-! ## Seeks inside a prefix -/

section Seek

variable {t : Table α} {p k : Key}

/-- A list whose items meeting `f` all come before those that do not: taking while `f` holds
keeps exactly the items that meet it. -/
theorem takeWhile_eq_filter {β : Type} {l : List β} {f : β → Bool}
    (h : l.Pairwise fun x y => f y = true → f x = true) : l.takeWhile f = l.filter f := by
  induction l with
  | nil => rfl
  | cons x xs ih =>
    have hxs := (List.pairwise_cons.mp h).2
    by_cases hx : f x = true
    · rw [List.takeWhile_cons_of_pos hx, List.filter_cons_of_pos hx, ih hxs]
    · rw [List.takeWhile_cons_of_neg hx, List.filter_cons_of_neg hx]
      symm
      rw [List.filter_eq_nil_iff]
      intro y hy hfy
      exact hx ((List.pairwise_cons.mp h).1 y hy hfy)

/-- Past a key inside the prefix, the rows with the prefix come first. -/
theorem pairwise_prefix_of_le (h : t.Sorted) (hk : Key.startsWith k p = true)
    (g : Key → Bool) (hg : ∀ x, g x = true → Key.le k x = true) :
    (t.rows.filter fun x => g x.1).Pairwise
      fun x y => Key.startsWith y.1 p = true → Key.startsWith x.1 p = true := by
  refine List.Pairwise.imp_of_mem ?_ (h.filter _)
  intro x y hx _ hxy hy
  exact Key.startsWith_of_le_of_le hk hy (hg x.1 (List.mem_filter.mp hx).2) (Key.le_of_lt hxy)

theorem filter_under_comm (t : Table α) (p : Key) (g : Key → Bool) :
    (t.rows.filter fun x => g x.1).filter (fun x => Key.startsWith x.1 p) =
      (t.under p).filter fun x => g x.1 := by
  simp only [under, List.filter_filter]
  congr 1
  funext x
  rw [Bool.and_comm]

theorem seekForward_eq (h : t.Sorted) (hk : Key.startsWith k p = true) :
    t.seekForward p k = (t.under p).filter fun x => Key.le k x.1 := by
  unfold seekForward
  rw [takeWhile_eq_filter (pairwise_prefix_of_le h hk _ fun _ hx => hx), filter_under_comm]

theorem seekAfter_eq (h : t.Sorted) (hk : Key.startsWith k p = true) :
    t.seekAfter p k = (t.under p).filter fun x => Key.lt k x.1 := by
  unfold seekAfter
  rw [takeWhile_eq_filter (pairwise_prefix_of_le h hk _ fun _ hx => Key.le_of_lt hx),
    filter_under_comm]

/-- Every row with the prefix is at or above the prefix itself. -/
theorem withPrefix_eq (h : t.Sorted) (p : Key) : t.withPrefix p = t.under p := by
  rw [withPrefix, seekForward_eq h (by simpa using Key.startsWith_append p [])]
  apply List.filter_eq_self.mpr
  intro x hx
  obtain ⟨y, hy⟩ := Key.startsWith_iff.mp (startsWith_of_mem_under hx)
  rw [hy]
  exact Key.le_append p y

/-- The backward seek as a bind: the last row at or below the key, kept when it has the
prefix. -/
theorem seekBackward_eq_bind (t : Table α) (p k : Key) :
    t.seekBackward p k = (t.rows.filter fun x => Key.le x.1 k).getLast?.bind
      fun x => if Key.startsWith x.1 p then some x else none := by
  unfold seekBackward
  split
  · next k' r hlast =>
    have hlast' : (t.rows.filter fun x => Key.le x.1 k).getLast? = some (k', r) := hlast
    rw [hlast', Option.bind_some]
  · next hlast =>
    have hlast' : (t.rows.filter fun x => Key.le x.1 k).getLast? = none := hlast
    rw [hlast', Option.bind_none]

/-- Of ordered rows at or below a key with the prefix, those with the prefix end where the
rows do, or are none. -/
theorem getLast?_filter_of_le {l : List (Key × Row α)} (hord : Ordered l)
    (hle : ∀ x ∈ l, Key.le x.1 k = true) (hk : Key.startsWith k p = true) :
    (l.filter fun x => Key.startsWith x.1 p).getLast? =
      l.getLast?.bind fun x => if Key.startsWith x.1 p then some x else none := by
  rcases List.eq_nil_or_concat l with rfl | ⟨l', last, rfl⟩
  · rfl
  · rw [List.concat_eq_append] at hord hle ⊢
    rw [List.getLast?_concat, Option.bind_some]
    split
    · next hlast => simp [List.filter_append, hlast]
    · next hlast =>
      -- a row with the prefix below the last row would put the last row inside the prefix
      rw [List.getLast?_eq_none_iff, List.filter_eq_nil_iff]
      intro x hx hxp
      rcases List.mem_append.mp hx with hx | hx
      · have hlt : Key.lt x.1 last.1 = true :=
          (List.pairwise_append.mp hord).2.2 x hx last (List.mem_singleton.mpr rfl)
        exact hlast (Key.startsWith_of_le_of_le hxp hk (Key.le_of_lt hlt)
          (hle last (List.mem_append_right _ (List.mem_singleton.mpr rfl))))
      · rw [List.mem_singleton.mp hx] at hxp
        exact hlast hxp

theorem seekBackward_eq (h : t.Sorted) (hk : Key.startsWith k p = true) :
    t.seekBackward p k = ((t.under p).filter fun x => Key.le x.1 k).getLast? := by
  rw [seekBackward_eq_bind, ← filter_under_comm t p (fun y => Key.le y k)]
  exact (getLast?_filter_of_le (h.filter _) (fun x hx => (List.mem_filter.mp hx).2) hk).symm

theorem seekBefore_eq (h : t.Sorted) (hk : Key.startsWith k p = true) :
    t.seekBefore p k = ((t.under p).filter fun x => Key.lt x.1 k).reverse := by
  show ((t.rows.filter fun x => Key.lt x.1 k).reverse.takeWhile
    fun x => Key.startsWith x.1 p) = _
  rw [takeWhile_eq_filter, List.filter_reverse, filter_under_comm t p (fun y => Key.lt y k)]
  rw [List.pairwise_reverse]
  refine List.Pairwise.imp_of_mem ?_ (h.filter _)
  intro x y _ hy hxy hx
  exact Key.startsWith_of_le_of_le hx hk (Key.le_of_lt hxy)
    (Key.le_of_lt (List.mem_filter.mp hy).2)

/-- The row under a key with the prefix is found among the rows with the prefix. -/
theorem get?_eq (hk : Key.startsWith k p = true) :
    t.get? k = ((t.under p).find? (·.1 == k)).map (·.2) := by
  unfold get? under
  congr 1
  induction t.rows with
  | nil => rfl
  | cons x xs ih =>
    by_cases hx : x.1 = k
    · simp [hx, hk]
    · by_cases hxp : Key.startsWith x.1 p = true
      · simp [hxp, hx, ih]
      · simp [hxp, hx, ih]

end Seek

end Table

end SeriesStore
