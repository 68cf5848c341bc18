import Mathlib
import SeriesStore.Proofs.SummaryFold
import SeriesStore.Proofs.Store.Txn
import SeriesStore.Proofs.Store.SegmentBuild

/-!
# The two paths of a window summary

A reader summarizes a window (`SeriesWindow.summary`) by the count of its live samples and, per
column, their least and greatest number. A segment lying inside the window is taken whole: its
live count is added, and each column folds in only the least and greatest that the segment's own
column summary kept. Every other segment gives its samples, folded value by value. Both paths
give what folding every sample gives (`summary_agrees_with_values`), the bounds up to `==`: of
a zero and a negative zero, either may stand for the other.

Numbers compare by `Double.orderKey`, their magnitude signed by the sign bit, so a bound is
described by where its key stands among the keys of its column's numbers (`Describes`): the
least key, the greatest, or a NaN padding where the column has no number. Folding a value adds
its key to its column (`Describes.fold`). A column summary bounds the keys of the numbers it took
(`ColumnSummary.bounds_foldl_observe`), and adding its least and greatest bounds a column as
adding all of them does (`sameBounds_summaryKeys`). This needs the segments to be sound, as every
segment built by appends is (`Segment.Built.sound`).
-/

namespace SeriesStore

namespace Double

/-! ## Keys of the numbers among values -/

/-- The keys of the numbers among some values; NaNs have none. -/
def keysOf (xs : List Double) : Set Int := {k | ∃ v ∈ xs, v.isNaN = false ∧ v.orderKey = k}

@[simp] theorem keysOf_nil : keysOf [] = ∅ := by
  simp [keysOf]

theorem keysOf_append (xs ys : List Double) : keysOf (xs ++ ys) = keysOf xs ∪ keysOf ys := by
  ext k
  simp only [keysOf, List.mem_append, Set.mem_ofPred_eq, Set.mem_union]
  constructor
  · rintro ⟨v, hv | hv, hnum⟩
    · exact .inl ⟨v, hv, hnum⟩
    · exact .inr ⟨v, hv, hnum⟩
  · rintro (⟨v, hv, hnum⟩ | ⟨v, hv, hnum⟩)
    · exact ⟨v, .inl hv, hnum⟩
    · exact ⟨v, .inr hv, hnum⟩

theorem keysOf_singleton_of_isNaN {v : Double} (h : v.isNaN = true) : keysOf [v] = ∅ := by
  ext k
  simp [keysOf, h]

theorem keysOf_singleton {v : Double} (h : v.isNaN = false) : keysOf [v] = {v.orderKey} := by
  ext k
  simp only [keysOf, List.mem_singleton, Set.mem_ofPred_eq, Set.mem_singleton_iff]
  constructor
  · rintro ⟨_, rfl, -, rfl⟩
    rfl
  · rintro rfl
    exact ⟨v, rfl, h, rfl⟩

@[simp] theorem keysOf_nan : keysOf [nan] = ∅ := keysOf_singleton_of_isNaN (by decide)

end Double

open Double

namespace ColumnSummary

/-- What a column summary says of the keys `ks` of the numbers it took: it counted none exactly
when there are none, and otherwise its least and greatest are numbers with the least and the
greatest key. -/
structure Bounds (c : ColumnSummary) (ks : Set Int) : Prop where
  count_eq_zero : c.count = 0 ↔ ks = ∅
  min_num : c.count ≠ 0 → c.min.isNaN = false
  max_num : c.count ≠ 0 → c.max.isNaN = false
  least : c.count ≠ 0 → IsLeast ks c.min.orderKey
  greatest : c.count ≠ 0 → IsGreatest ks c.max.orderKey

theorem bounds_empty : ({} : ColumnSummary).Bounds ∅ :=
  ⟨by simp, fun h => absurd rfl h, fun h => absurd rfl h, fun h => absurd rfl h,
    fun h => absurd rfl h⟩

/-- Taking one more value into a summary bounds its key too; a NaN changes nothing. -/
theorem Bounds.observe {c : ColumnSummary} {ks : Set Int} (h : c.Bounds ks) (v : Double) :
    (c.observe v).Bounds (ks ∪ keysOf [v]) := by
  cases hv : v.isNaN
  case true =>
    rw [keysOf_singleton_of_isNaN hv, Set.union_empty]
    simpa [ColumnSummary.observe, hv] using h
  case false =>
    rw [keysOf_singleton hv]
    by_cases hc : c.count = 0
    · -- the first number is both bounds
      have hks : ks = ∅ := h.count_eq_zero.mp hc
      simp only [ColumnSummary.observe, hv, hc, Bool.false_eq_true, if_false, if_true, hks,
        Set.empty_union]
      exact ⟨by simp, fun _ => hv, fun _ => hv, fun _ => isLeast_singleton,
        fun _ => isGreatest_singleton⟩
    · have hmin := h.min_num hc
      have hmax := h.max_num hc
      simp only [ColumnSummary.observe, hv, hc, Bool.false_eq_true, if_false]
      have hne : ks ∪ {v.orderKey} ≠ ∅ :=
        Set.nonempty_iff_ne_empty.mp ⟨v.orderKey, Set.mem_union_right ks rfl⟩
      refine ⟨⟨fun h' => absurd h' (Nat.succ_ne_zero _), fun h' => absurd h' hne⟩,
        fun _ => isNaN_least hmin hv, fun _ => isNaN_greatest hmax hv, fun _ => ?_, fun _ => ?_⟩
      · rw [orderKey_least hmin hv]
        exact (h.least hc).union isLeast_singleton
      · rw [orderKey_greatest hmax hv]
        exact (h.greatest hc).union isGreatest_singleton

/-- A summary taken over values bounds the keys of the numbers among them. -/
theorem bounds_foldl_observe (xs : List Double) : (xs.foldl observe {}).Bounds (keysOf xs) := by
  induction xs using List.reverseRecOn with
  | nil => simpa using bounds_empty
  | append_singleton xs v ih =>
    rw [List.foldl_append, List.foldl_cons, List.foldl_nil, keysOf_append]
    exact ih.observe v

end ColumnSummary

namespace WindowSummary

/-! ## What a window summary says of its columns -/

/-- Keys of the numbers in column `j` of some rows of values; a row too short for the column has
none there. -/
def columnKeys (rows : List (List Double)) (j : Nat) : Set Int :=
  keysOf (rows.map fun r => r.getD j Double.nan)

@[simp] theorem columnKeys_nil (j : Nat) : columnKeys [] j = ∅ := by
  simp [columnKeys]

theorem columnKeys_append (rows rows' : List (List Double)) (j : Nat) :
    columnKeys (rows ++ rows') j = columnKeys rows j ∪ columnKeys rows' j := by
  simp only [columnKeys, List.map_append, keysOf_append]

/-- A bound of a summary against the keys `ks` of a column: the NaN a summary pads with when the
column has no number, else a number whose key is extreme in `ks` as `P` says. -/
structure Marks (P : Set Int → Int → Prop) (ks : Set Int) (x : Double) : Prop where
  of_empty : ks = ∅ → x = Double.nan
  of_nonempty : ks.Nonempty → x.isNaN = false ∧ P ks x.orderKey

/-- What the bounds of a window summary say of columns of numbers with keys `C j`: both lists are
as long as the last column holding a number needs, and each holds the least, or the greatest,
number of its column. -/
structure Describes (C : Nat → Set Int) (S : WindowSummary) : Prop where
  length_max : S.max.length = S.min.length
  lt_length : ∀ i, i < S.min.length ↔ ∃ j, i ≤ j ∧ (C j).Nonempty
  low : ∀ i, Marks IsLeast (C i) (S.min.getD i Double.nan)
  high : ∀ i, Marks IsGreatest (C i) (S.max.getD i Double.nan)

theorem describes_empty : Describes (fun _ => ∅) ({} : WindowSummary) where
  length_max := rfl
  lt_length i := by simp
  low i := ⟨fun _ => rfl, fun h => absurd h Set.not_nonempty_empty⟩
  high i := ⟨fun _ => rfl, fun h => absurd h Set.not_nonempty_empty⟩

/-! ### Setting one position -/

theorem length_setAt (xs : List Double) (i : Nat) (v : Double) :
    (setAt xs i v).length = xs.length + (i + 1 - xs.length) := by
  simp only [setAt, List.length_set, List.length_append, List.length_replicate]

theorem getD_setAt (xs : List Double) (i : Nat) (v : Double) (j : Nat) :
    (setAt xs i v).getD j Double.nan = if j = i then v else xs.getD j Double.nan := by
  simp only [setAt, List.getD_eq_getElem?_getD]
  by_cases hj : j = i
  · subst hj
    rw [List.getElem?_set_self (by simp; omega), if_pos rfl]
    rfl
  · rw [List.getElem?_set_ne (Ne.symm hj), if_neg hj, List.getElem?_append]
    split_ifs with hlt
    · rfl
    · -- past the old list, the padding is NaN
      rw [List.getElem?_eq_none (by omega : xs.length ≤ j), List.getElem?_replicate]
      split_ifs <;> rfl

/-! ### One value -/

section Marks

variable {ks : Set Int} {v : Double}

/-- The least so far, against one more number: the number when it is below, or when nothing was
seen, else the least so far. -/
theorem Marks.low_step {lo : Double} (h : Marks IsLeast ks lo) (hv : v.isNaN = false) :
    Marks IsLeast (ks ∪ {v.orderKey}) (if lo.isNaN || v.lt lo then v else lo) := by
  have hne : (ks ∪ {v.orderKey}).Nonempty := ⟨v.orderKey, Set.mem_union_right ks rfl⟩
  refine ⟨fun h' => absurd h' (Set.nonempty_iff_ne_empty.mp hne), fun _ => ?_⟩
  rcases ks.eq_empty_or_nonempty with hks | hks
  · -- nothing seen: the padding NaN gives way to the number
    rw [h.of_empty hks, if_pos (by rw [show Double.nan.isNaN = true by decide, Bool.true_or]), hks,
      Set.empty_union]
    exact ⟨hv, isLeast_singleton⟩
  · obtain ⟨hlo, hleast⟩ := h.of_nonempty hks
    have hkey : IsLeast (ks ∪ {v.orderKey}) (Min.min lo.orderKey v.orderKey) :=
      hleast.union isLeast_singleton
    simp only [hlo, Bool.false_or]
    split_ifs with hlt
    · rw [lt_eq_true_iff hv hlo] at hlt
      rw [min_eq_right hlt.le] at hkey
      exact ⟨hv, hkey⟩
    · rw [lt_eq_true_iff hv hlo, not_lt] at hlt
      rw [min_eq_left hlt] at hkey
      exact ⟨hlo, hkey⟩

/-- The greatest so far, against one more number. -/
theorem Marks.high_step {hi : Double} (h : Marks IsGreatest ks hi) (hv : v.isNaN = false) :
    Marks IsGreatest (ks ∪ {v.orderKey}) (if hi.isNaN || hi.lt v then v else hi) := by
  have hne : (ks ∪ {v.orderKey}).Nonempty := ⟨v.orderKey, Set.mem_union_right ks rfl⟩
  refine ⟨fun h' => absurd h' (Set.nonempty_iff_ne_empty.mp hne), fun _ => ?_⟩
  rcases ks.eq_empty_or_nonempty with hks | hks
  · rw [h.of_empty hks, if_pos (by rw [show Double.nan.isNaN = true by decide, Bool.true_or]), hks,
      Set.empty_union]
    exact ⟨hv, isGreatest_singleton⟩
  · obtain ⟨hhi, hgreatest⟩ := h.of_nonempty hks
    have hkey : IsGreatest (ks ∪ {v.orderKey}) (Max.max hi.orderKey v.orderKey) :=
      hgreatest.union isGreatest_singleton
    simp only [hhi, Bool.false_or]
    split_ifs with hlt
    · rw [lt_eq_true_iff hhi hv] at hlt
      rw [max_eq_right hlt.le] at hkey
      exact ⟨hv, hkey⟩
    · rw [lt_eq_true_iff hhi hv, not_lt] at hlt
      rw [max_eq_left hlt] at hkey
      exact ⟨hhi, hkey⟩

end Marks

section Fold

variable {C : Nat → Set Int} {S : WindowSummary}

/-- Folding a value into column `i` adds its key to that column, if it is a number. -/
theorem Describes.fold (h : Describes C S) (i : Nat) (v : Double) :
    Describes (fun j => if j = i then C j ∪ keysOf [v] else C j) (S.fold i v) := by
  cases hv : v.isNaN
  case true =>
    -- a NaN is passed over
    have hC : (fun j => if j = i then C j ∪ keysOf [v] else C j) = C := by
      funext j
      split_ifs <;> simp [keysOf_singleton_of_isNaN hv]
    rw [hC]
    simpa [WindowSummary.fold, hv] using h
  case false =>
    simp only [WindowSummary.fold, hv, Bool.false_eq_true, if_false, keysOf_singleton hv]
    refine ⟨by simp only [length_setAt, h.length_max], fun i' => ?_, fun j => ?_, fun j => ?_⟩
    · rw [length_setAt]
      constructor
      · intro hi'
        by_cases hlt : i' < S.min.length
        · obtain ⟨j, hj, hne⟩ := (h.lt_length i').mp hlt
          refine ⟨j, hj, ?_⟩
          split_ifs
          · exact hne.mono Set.subset_union_left
          · exact hne
        · exact ⟨i, by omega, by simp⟩
      · rintro ⟨j, hj, hne⟩
        by_cases hji : j = i
        · omega
        · rw [if_neg hji] at hne
          have := (h.lt_length i').mpr ⟨j, hj, hne⟩
          omega
    · rw [getD_setAt]
      by_cases hji : j = i
      · subst hji
        rw [if_pos rfl, if_pos rfl]
        exact (h.low j).low_step hv
      · rw [if_neg hji, if_neg hji]
        exact h.low j
    · rw [getD_setAt]
      by_cases hji : j = i
      · subst hji
        rw [if_pos rfl, if_pos rfl]
        exact (h.high j).high_step hv
      · rw [if_neg hji, if_neg hji]
        exact h.high j

/-- Folding values into their columns one after the other, from column `n` on, adds each one's
keys `K x` to its column. Both paths of the reader fold a row this way: the sample path a value
per column, the segment path a column summary per column. -/
theorem describes_foldl_zipIdx {α : Type} {f : WindowSummary → α × Nat → WindowSummary}
    (K : α → Set Int) {d : α} (hd : K d = ∅)
    (hf : ∀ (C : Nat → Set Int) S x i, Describes C S →
      Describes (fun j => if j = i then C j ∪ K x else C j) (f S (x, i)))
    (hcount : ∀ S x i, (f S (x, i)).count = S.count) (xs : List α) :
    ∀ (n : Nat) {C : Nat → Set Int} {S : WindowSummary}, Describes C S →
      Describes (fun j => if n ≤ j then C j ∪ K (xs.getD (j - n) d) else C j)
        ((xs.zipIdx n).foldl f S) ∧ ((xs.zipIdx n).foldl f S).count = S.count := by
  induction xs with
  | nil =>
    intro n C S h
    have hC : (fun j => if n ≤ j then C j ∪ K (([] : List α).getD (j - n) d) else C j) = C := by
      funext j
      split_ifs <;> simp [hd]
    rw [hC]
    exact ⟨h, rfl⟩
  | cons x xs ih =>
    intro n C S h
    rw [List.zipIdx_cons, List.foldl_cons]
    obtain ⟨hdesc, hcnt⟩ := ih (n + 1) (hf C S x n h)
    refine ⟨?_, hcnt.trans (hcount S x n)⟩
    -- column `n` took `x`, the columns after it the rest of the row
    have hC : (fun j => if n + 1 ≤ j then (if j = n then C j ∪ K x else C j) ∪ K (xs.getD (j - (n + 1)) d)
        else if j = n then C j ∪ K x else C j) =
        fun j => if n ≤ j then C j ∪ K ((x :: xs).getD (j - n) d) else C j := by
      funext j
      rcases lt_trichotomy j n with hj | rfl | hj
      · rw [if_neg (by omega), if_neg (by omega), if_neg (by omega)]
      · rw [if_neg (by omega), if_pos rfl, if_pos le_rfl, Nat.sub_self]
        rfl
      · obtain ⟨m, rfl⟩ : ∃ m, j = n + 1 + m := ⟨j - (n + 1), by omega⟩
        rw [if_pos (by omega), if_neg (by omega), if_pos (by omega),
          show n + 1 + m - n = m + 1 by omega, show n + 1 + m - (n + 1) = m by omega]
        rfl
    rw [← hC]
    exact hdesc

/-- The count plays no part in the bounds. -/
theorem Describes.withCount {C : Nat → Set Int} {S : WindowSummary} (h : Describes C S) (n : Nat) :
    Describes C { S with count := n } :=
  ⟨h.length_max, h.lt_length, h.low, h.high⟩

theorem count_fold (S : WindowSummary) (i : Nat) (v : Double) : (S.fold i v).count = S.count := by
  unfold WindowSummary.fold
  split <;> rfl

end Fold

/-! ### Columns with the same bounds -/

/-- Two sets of keys that a summary cannot tell apart: both empty or neither, and the least and
greatest keys of the first are those of the second. -/
structure SameBounds (s t : Set Int) : Prop where
  nonempty_iff : s.Nonempty ↔ t.Nonempty
  isLeast : ∀ k, IsLeast s k → IsLeast t k
  isGreatest : ∀ k, IsGreatest s k → IsGreatest t k

theorem SameBounds.of_eq {s t : Set Int} (h : s = t) : SameBounds s t :=
  h ▸ ⟨Iff.rfl, fun _ => id, fun _ => id⟩

/-- Adding the least and greatest keys of a set bounds a column as adding the whole set. -/
theorem sameBounds_union_extremes {A B : Set Int} {m M : Int} (hm : IsLeast B m)
    (hM : IsGreatest B M) : SameBounds (A ∪ {m, M}) (A ∪ B) := by
  have hsub : A ∪ {m, M} ⊆ A ∪ B := by
    rintro k (hk | rfl | rfl)
    · exact .inl hk
    · exact .inr hm.1
    · exact .inr hM.1
  refine ⟨⟨fun h => h.mono hsub, fun _ => ⟨m, .inr (.inl rfl)⟩⟩, fun k hk => ⟨hsub hk.1, ?_⟩,
    fun k hk => ⟨hsub hk.1, ?_⟩⟩
  · rintro x (hx | hx)
    · exact hk.2 (.inl hx)
    · exact (hk.2 (.inr (.inl rfl))).trans (hm.2 hx)
  · rintro x (hx | hx)
    · exact hk.2 (.inl hx)
    · exact (hM.2 hx).trans (hk.2 (.inr (.inr rfl)))

/-- A bound carries over to a column that is empty exactly when the first is and whose
extreme keys, as `P` and `Q` say, include those of the first. -/
theorem Marks.congr {P Q : Set Int → Int → Prop} {s t : Set Int} {x : Double} (h : Marks P s x)
    (hne : s.Nonempty ↔ t.Nonempty) (hPQ : ∀ k, P s k → Q t k) : Marks Q t x := by
  refine ⟨fun ht => h.of_empty ?_, fun ht => (h.of_nonempty (hne.mpr ht)).imp_right (hPQ _)⟩
  rw [← Set.not_nonempty_iff_eq_empty, hne, Set.not_nonempty_iff_eq_empty]
  exact ht

theorem Describes.congr {C C' : Nat → Set Int} {S : WindowSummary} (h : Describes C S)
    (hC : ∀ j, SameBounds (C j) (C' j)) : Describes C' S where
  length_max := h.length_max
  lt_length i := by
    rw [h.lt_length i]
    exact exists_congr fun j => and_congr_right fun _ => (hC j).nonempty_iff
  low i := (h.low i).congr (hC i).nonempty_iff (hC i).isLeast
  high i := (h.high i).congr (hC i).nonempty_iff (hC i).isGreatest

/-- The keys a whole segment's column summary adds to a window's column: those of its least and
greatest, when it counted a number. -/
def summaryKeys (c : ColumnSummary) : Set Int := if c.count > 0 then keysOf [c.min, c.max] else ∅

/-- A column summary's least and greatest bound a window's column as all the numbers it took. -/
theorem sameBounds_summaryKeys {c : ColumnSummary} {ks : Set Int} (hb : c.Bounds ks) (A : Set Int) :
    SameBounds (A ∪ summaryKeys c) (A ∪ ks) := by
  unfold summaryKeys
  split_ifs with hc
  · have hc' : c.count ≠ 0 := by omega
    have hkeys : keysOf [c.min, c.max] = {c.min.orderKey, c.max.orderKey} := by
      rw [show [c.min, c.max] = [c.min] ++ [c.max] from rfl, keysOf_append,
        keysOf_singleton (hb.min_num hc'), keysOf_singleton (hb.max_num hc')]
      rfl
    rw [hkeys]
    exact sameBounds_union_extremes (hb.least hc') (hb.greatest hc')
  · rw [hb.count_eq_zero.mp (by omega), Set.union_empty]
    exact .of_eq rfl

/-! ## Summaries of rows -/

/-- What a summary says of the rows of values it was taken over: nothing when there are none,
else how many there are and the bounds of every column. -/
def Summarizes (rows : List (List Double)) : Option WindowSummary → Prop
  | none => rows = []
  | some S => rows ≠ [] ∧ S.count = rows.length ∧ Describes (columnKeys rows) S

/-- The summary a fold continues from: the empty one when there is none yet. -/
theorem Summarizes.getD {rows : List (List Double)} {acc : Option WindowSummary}
    (h : Summarizes rows acc) :
    (acc.getD {}).count = rows.length ∧ Describes (columnKeys rows) (acc.getD {}) := by
  cases acc with
  | none =>
    obtain rfl : rows = [] := h
    have hC : columnKeys [] = fun _ => ∅ := funext columnKeys_nil
    exact ⟨rfl, hC ▸ describes_empty⟩
  | some S => exact h.2

/-- One more sample: one more row, each of its values folded into its column. -/
theorem summarize_sample {rows : List (List Double)} {acc : Option WindowSummary}
    (h : Summarizes rows acc) (x : Sample) :
    Summarizes (rows ++ [x.values]) (SeriesWindow.summarize acc (.values [x])) := by
  obtain ⟨hcount, hdesc⟩ := h.getD
  have hS := hdesc.withCount ((acc.getD {}).count + 1)
  obtain ⟨hdesc', hcount'⟩ := describes_foldl_zipIdx
    (f := fun cur (p : Double × Nat) => cur.fold p.2 p.1) (fun v => keysOf [v]) keysOf_nan
    (fun C S v i hS => hS.fold i v) (fun S v i => count_fold S i v) x.values 0 hS
  have hC : (fun j => if 0 ≤ j then columnKeys rows j ∪ keysOf [x.values.getD (j - 0) Double.nan]
      else columnKeys rows j) = columnKeys (rows ++ [x.values]) := by
    funext j
    rw [columnKeys_append, if_pos (Nat.zero_le j), Nat.sub_zero]
    rfl
  rw [hC] at hdesc'
  exact ⟨by simp, by rw [hcount', hcount, List.length_append, List.length_singleton], hdesc'⟩

/-- Folding samples one by one summarizes their values after the rows before. -/
theorem summarize_values {rows : List (List Double)} {acc : Option WindowSummary}
    (h : Summarizes rows acc) (xs : List Sample) :
    Summarizes (rows ++ xs.map Sample.values) (SeriesWindow.summarize acc (.values xs)) := by
  induction xs generalizing rows acc with
  | nil =>
    rw [List.map_nil, List.append_nil]
    exact h
  | cons x xs ih =>
    rw [List.map_cons, ← List.singleton_append, ← List.append_assoc]
    exact ih (summarize_sample h x)

/-- A whole segment's column summary folded into column `i`: its least and its greatest, when it
counted a number. -/
theorem Describes.foldSummary {C : Nat → Set Int} {S : WindowSummary} (h : Describes C S)
    (c : ColumnSummary) (i : Nat) :
    Describes (fun j => if j = i then C j ∪ summaryKeys c else C j)
      (if c.count > 0 then (S.fold i c.min).fold i c.max else S) := by
  split_ifs with hc
  · have h₂ := (h.fold i c.min).fold i c.max
    have hC : (fun j => if j = i then (if j = i then C j ∪ keysOf [c.min] else C j) ∪ keysOf [c.max]
        else if j = i then C j ∪ keysOf [c.min] else C j) =
        fun j => if j = i then C j ∪ summaryKeys c else C j := by
      funext j
      split_ifs
      · rw [summaryKeys, if_pos hc, show [c.min, c.max] = [c.min] ++ [c.max] from rfl,
          keysOf_append, Set.union_assoc]
      · rfl
    rw [← hC]
    exact h₂
  · have hC : (fun j => if j = i then C j ∪ summaryKeys c else C j) = C := by
      funext j
      split_ifs <;> simp [summaryKeys, hc]
    rw [hC]
    exact h

/-- The live rows of a segment, as a reader reports their values. -/
theorem columnKeys_live (es : List Entry) (j : Nat) :
    columnKeys ((es.filter Entry.isLive).map Entry.values) j = keysOf (Segment.liveColumn es j) := by
  rw [columnKeys, List.map_map]
  rfl

/-- A whole sound segment, folded from its column summaries, summarizes its live rows after the
rows before. -/
theorem summarize_whole {rows : List (List Double)} {acc : Option WindowSummary}
    (h : Summarizes rows acc) {s : StoredSegment} {es : List Entry} (hs : s.segment.Sound es) :
    Summarizes (rows ++ (es.filter Entry.isLive).map Entry.values)
      (SeriesWindow.summarize acc (.whole s)) := by
  by_cases hlive : s.segment.live = 0
  · -- no live sample: the segment is passed over
    have hnil : es.filter Entry.isLive = [] :=
      List.eq_nil_of_length_eq_zero (hs.live_eq ▸ hlive)
    rw [hnil, List.map_nil, List.append_nil]
    simpa only [SeriesWindow.summarize, hlive, if_true] using h
  · obtain ⟨hcount, hdesc⟩ := h.getD
    have hS := hdesc.withCount ((acc.getD {}).count + s.segment.live)
    obtain ⟨hdesc', hcount'⟩ := describes_foldl_zipIdx (d := {})
      (f := fun cur (p : ColumnSummary × Nat) =>
        if p.1.count > 0 then (cur.fold p.2 p.1.min).fold p.2 p.1.max else cur)
      summaryKeys (by simp [summaryKeys]) (fun C S c i hS => hS.foldSummary c i)
      (fun S c i => by dsimp only; split_ifs <;> simp only [count_fold]) s.segment.columns 0 hS
    -- each column summary bounds its column as the live values it took
    have hsame : ∀ j, SameBounds
        (if 0 ≤ j then columnKeys rows j ∪ summaryKeys (s.segment.columns.getD (j - 0) {})
          else columnKeys rows j)
        (columnKeys (rows ++ (es.filter Entry.isLive).map Entry.values) j) := by
      intro j
      have hb := ColumnSummary.bounds_foldl_observe (Segment.liveColumn es j)
      rw [← Segment.columnOf_eq_foldl, ← hs.getD_columns j] at hb
      rw [if_pos (Nat.zero_le j), Nat.sub_zero, columnKeys_append, columnKeys_live]
      exact sameBounds_summaryKeys hb _
    have hne : (es.filter Entry.isLive).map Entry.values ≠ [] := by
      rw [Ne, List.map_eq_nil_iff, ← List.length_eq_zero_iff, ← hs.live_eq]
      exact hlive
    simp only [SeriesWindow.summarize, hlive, if_false]
    refine ⟨by simp [hne], ?_, hdesc'.congr hsame⟩
    rw [hcount', hcount, hs.live_eq, List.length_append, List.length_map]

/-! ## Agreement of two summaries -/

/-- Two bounds a reader cannot tell apart: the same number up to `==`, or padding in both. -/
def SameBound (x y : Double) : Prop := x = Double.nan ∧ y = Double.nan ∨ x.eqNum y = true

/-- Two optional summaries that agree as a reader compares them: both absent, or the same count,
bounds lists of the same lengths, and the same bound at every position. -/
def Agree : Option WindowSummary → Option WindowSummary → Prop
  | none, none => True
  | some a, some b => a.count = b.count ∧ a.min.length = b.min.length ∧
      a.max.length = b.max.length ∧
      ∀ i, SameBound (a.min.getD i Double.nan) (b.min.getD i Double.nan) ∧
        SameBound (a.max.getD i Double.nan) (b.max.getD i Double.nan)
  | _, _ => False

/-- Two bounds of one column that are extreme in the same way are the same bound. -/
theorem Marks.sameBound {P : Set Int → Int → Prop} {ks : Set Int} {x y : Double}
    (hunique : ∀ a b, P ks a → P ks b → a = b) (hx : Marks P ks x) (hy : Marks P ks y) :
    SameBound x y := by
  rcases ks.eq_empty_or_nonempty with hks | hks
  · exact .inl ⟨hx.of_empty hks, hy.of_empty hks⟩
  · obtain ⟨hxn, hxP⟩ := hx.of_nonempty hks
    obtain ⟨hyn, hyP⟩ := hy.of_nonempty hks
    exact .inr ((eqNum_eq_true_iff hxn hyn).mpr (hunique _ _ hxP hyP))

/-- Two summaries of the same columns have bounds lists of the same length. -/
theorem Describes.length_eq {C : Nat → Set Int} {a b : WindowSummary} (ha : Describes C a)
    (hb : Describes C b) : a.min.length = b.min.length :=
  le_antisymm (le_of_forall_lt fun c hc => (hb.lt_length c).mpr ((ha.lt_length c).mp hc))
    (le_of_forall_lt fun c hc => (ha.lt_length c).mpr ((hb.lt_length c).mp hc))

/-- Two summaries of the same rows agree. -/
theorem Summarizes.agree {rows : List (List Double)} {r r' : Option WindowSummary}
    (h : Summarizes rows r) (h' : Summarizes rows r') : Agree r r' := by
  match r, r', h, h' with
  | none, none, _, _ => trivial
  | none, some _, h, h' => exact h'.1 h
  | some _, none, h, h' => exact h.1 h'
  | some a, some b, ⟨_, ha, hda⟩, ⟨_, hb, hdb⟩ =>
    have hlen := hda.length_eq hdb
    exact ⟨ha.trans hb.symm, hlen, by rw [hda.length_max, hdb.length_max, hlen],
      fun i => ⟨(hda.low i).sameBound (fun _ _ h₁ h₂ => h₁.unique h₂) (hdb.low i),
        (hda.high i).sameBound (fun _ _ h₁ h₂ => h₁.unique h₂) (hdb.high i)⟩⟩

end WindowSummary

namespace SeriesWindow

open WindowSummary

variable {w : SeriesWindow}

/-- Without an offset, a reader reports the live samples of the window in a sound segment, with
their values as stored. -/
theorem liveIn_of_sound (hoff : w.offset = none) {s : StoredSegment} {es : List Entry}
    (hs : s.segment.Sound es) :
    w.liveIn s = .ok ((es.filter fun e => e.isLive && w.holds (s.baseline + e.offset)).map
      fun e => Sample.ofEntry (Instant.ofMillis (s.baseline + e.offset)) e) := by
  have hreport : ∀ ms e, w.report ms e = pure (Sample.ofEntry (Instant.ofMillis ms) e) := by
    intro ms e
    simp [report, hoff, pure, Except.pure]
  unfold liveIn StoredSegment.samples
  simp only [hs.samples, Except.ok_bind, hreport, pure_bind, List.mapM_pure, List.filter_map,
    List.map_map]
  rfl

/-- Every sample of a segment lying inside the window is in it. -/
theorem holds_of_inside {s : StoredSegment} {es : List Entry} (hs : s.segment.Sound es)
    (h₁ : w.fromMs ≤ s.startMs) (h₂ : s.endMs ≤ w.toMs) :
    ∀ e ∈ es, w.holds (s.baseline + e.offset) = true := by
  intro e he
  have hlo := hs.offset_nonneg e he
  have hhi := hs.offset_le_last e he
  simp only [StoredSegment.startMs, StoredSegment.endMs, Segment.lastTimestamp] at h₁ h₂
  simp only [holds, Bool.and_eq_true, decide_eq_true_eq]
  omega

/-- A sound segment, taken whole or sample by sample, summarizes the live samples of the window
it holds. -/
theorem segmentOrValues_summarizes (hoff : w.offset = none) {s : StoredSegment} {es : List Entry}
    (hs : s.segment.Sound es) :
    ∃ xs item, w.liveIn s = .ok xs ∧ w.segmentOrValues s = .ok item ∧
      ∀ rows acc, Summarizes rows acc →
        Summarizes (rows ++ xs.map Sample.values) (summarize acc item) := by
  have hlive := liveIn_of_sound hoff hs
  by_cases hwhole : (w.fromMs ≤ s.startMs && s.endMs ≤ w.toMs && w.offset.isNone) = true
  · refine ⟨_, .whole s, hlive, by rw [segmentOrValues, if_pos hwhole], fun rows acc h => ?_⟩
    simp only [Bool.and_eq_true, decide_eq_true_eq] at hwhole
    -- inside the window, the samples reported are the live ones
    have hfilter : (es.filter fun e => e.isLive && w.holds (s.baseline + e.offset)) =
        es.filter Entry.isLive :=
      List.filter_congr fun e he => by rw [holds_of_inside hs hwhole.1.1 hwhole.1.2 e he, Bool.and_true]
    rw [hfilter, List.map_map]
    exact summarize_whole h hs
  · refine ⟨_, .values _, hlive, by rw [segmentOrValues, if_neg hwhole, hlive]; rfl,
      fun rows acc h => summarize_values h _⟩

/-- Segment after segment, both paths of a reader summarize the live samples they report. -/
theorem summarize_segments (hoff : w.offset = none) (segs : List StoredSegment)
    (hsound : ∀ s ∈ segs, ∃ es, s.segment.Sound es) :
    ∃ chunks items, (segs.map w.liveIn).mapM id = .ok chunks ∧
      (segs.map w.segmentOrValues).mapM id = .ok items ∧
      ∀ rows acc, Summarizes rows acc →
        Summarizes (rows ++ chunks.flatten.map Sample.values) (items.foldl summarize acc) := by
  induction segs with
  | nil => exact ⟨[], [], rfl, rfl, fun rows acc h => by simpa using h⟩
  | cons s segs ih =>
    obtain ⟨es, hs⟩ := hsound s List.mem_cons_self
    obtain ⟨xs, item, hlive, hitem, hstep⟩ := segmentOrValues_summarizes hoff hs
    obtain ⟨chunks, items, hchunks, hitems, hrest⟩ :=
      ih fun s' hs' => hsound s' (List.mem_cons_of_mem s hs')
    refine ⟨xs :: chunks, item :: items, ?_, ?_, fun rows acc h => ?_⟩
    · rw [List.map_cons, List.mapM_cons, id, hlive, Except.ok_bind, hchunks]
      rfl
    · rw [List.map_cons, List.mapM_cons, id, hitem, Except.ok_bind, hitems]
      rfl
    · rw [List.flatten_cons, List.map_append, ← List.append_assoc, List.foldl_cons]
      exact hrest _ _ (hstep rows acc h)

/-- A window only meets segments stored in the table. -/
theorem mem_segments {t : Tables} {s : StoredSegment} (hs : s ∈ w.segments t) :
    ∃ r ∈ t.segments.rows, s.segment = r.2.value.segment := by
  unfold segments at hs
  split_ifs at hs
  · cases hs
  · simp only [List.mem_filterMap] at hs
    obtain ⟨⟨k, r, b⟩, hmem, hs⟩ := hs
    split_ifs at hs
    cases hs
    obtain ⟨x, hx, hx'⟩ := List.mem_filterMap.mp ((List.takeWhile_sublist _).subset hmem)
    obtain ⟨b', -, hxeq⟩ := Option.map_eq_some_iff.mp hx'
    unfold Table.seekForward at hx
    refine ⟨x, List.filter_sublist.subset ((List.takeWhile_sublist _).subset hx), ?_⟩
    cases hxeq
    rfl

/-- A reader without offset summarizes a window as folding its samples one by one would. Where
every stored segment is sound, its values and its summary come back without failure and agree:
each is absent exactly when the window holds no live sample, and else counts them and holds, per
column, the least and the greatest number, the same up to `==` in both. -/
theorem summary_agrees_with_values {t : Tables} (hoff : w.offset = none)
    (hsound : ∀ r ∈ t.segments.rows, ∃ es, r.2.value.segment.Sound es) :
    ∃ xs r, w.values t = .ok xs ∧ w.summary t = .ok r ∧
      Agree r (summarize none (.values xs)) ∧
      Summarizes (xs.map Sample.values) r ∧
      Summarizes (xs.map Sample.values) (summarize none (.values xs)) := by
  have hvisit : ∀ s ∈ w.segments t, ∃ es, s.segment.Sound es := by
    intro s hs
    obtain ⟨r, hr, hseg⟩ := mem_segments hs
    rw [hseg]
    exact hsound r hr
  obtain ⟨cs, items, hcs, hitems, hsum⟩ := summarize_segments hoff (w.segments t) hvisit
  have hr := hsum [] none rfl
  have hslow := summarize_values (show Summarizes [] none from rfl) cs.flatten
  rw [List.nil_append] at hr hslow
  refine ⟨cs.flatten, items.foldl summarize none, ?_, ?_, hr.agree hslow, hr, hslow⟩
  · rw [values, SeriesWindow.chunks, hcs]
    rfl
  · rw [summary, segmentsOrValues, hitems]
    rfl

/-- One column holding the sample 1.0 at the baseline. -/
def oneSampleSegment : Segment :=
  ((Segment.mk 1 0 0 0 0 [{}] [{}] BitRun.empty).append 0 [⟨0x3ff0000000000000⟩] none .live).toOption.join.getD
    (Segment.mk 1 0 0 0 0 [{}] [{}] BitRun.empty)

/-- A store whose one segment is `oneSampleSegment`, the series HR of users/1 at time 0. -/
def oneSampleTables : Tables where
  segments := (Table.empty.insert (Key.segment "users/1" "HR" 0)
    ⟨⟨"users/1", "HR", "Users"⟩, 1, "A:1-dbA", oneSampleSegment⟩ (some 1)).1

/-- The segment of the sample store is built by appending its sample to a fresh segment. -/
theorem oneSampleSegment_built :
    oneSampleSegment.Built [⟨0, Segment.padded 1 [⟨0x3ff0000000000000⟩], none, .live⟩] :=
  Segment.Built.append (Segment.Built.fresh (w := 1) rfl) rfl

/-- A reader of the sample store's series summarizes it as its samples. -/
theorem summary_agrees_with_values_one_sample :
    (ofSeries "users/1" "HR" 0 10 none).offset = none ∧
      (∀ r ∈ oneSampleTables.segments.rows, ∃ es, r.2.value.segment.Sound es) ∧
      ∃ xs r, (ofSeries "users/1" "HR" 0 10 none).values oneSampleTables = .ok xs ∧
        (ofSeries "users/1" "HR" 0 10 none).summary oneSampleTables = .ok r ∧
        Agree r (summarize none (.values xs)) ∧
        Summarizes (xs.map Sample.values) r ∧
        Summarizes (xs.map Sample.values) (summarize none (.values xs)) := by
  have hoff : (ofSeries "users/1" "HR" 0 10 none).offset = none := rfl
  have hsound : ∀ r ∈ oneSampleTables.segments.rows, ∃ es, r.2.value.segment.Sound es := by
    intro r hr
    rw [List.mem_singleton.mp hr]
    exact ⟨_, oneSampleSegment_built.sound⟩
  exact ⟨hoff, hsound, summary_agrees_with_values hoff hsound⟩

end SeriesWindow

end SeriesStore
