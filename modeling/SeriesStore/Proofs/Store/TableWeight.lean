import Mathlib
import SeriesStore.Proofs.Store.TableIndex

/-!
# Weights summed over the keys of a table

The passes of the runner stop because every round that asks for more lowers a count read off a
table: the rollups the pending entries stand for, or the segments still holding samples to trim.
Each count is a sum, over the keys of a table, of a weight the row under the key carries
(`Table.weight`). Summing over keys rather than rows lets a step be compared key by key through
`get?`: a step that takes `u` away at one key and adds at most `u'` at another, lowering or
keeping every other key, moves the sum by no more (`Table.weight_add_le_of_moves`). And the sum
is at most the rows times the largest weight (`Table.weight_le`), which bounds the rounds.
-/

namespace SeriesStore

namespace Table

variable {α : Type} (w : Key → Row α → Nat)

/-- The weight the row under a key carries; none without a row. -/
def weightAt (tbl : Table α) (k : Key) : Nat :=
  match tbl.get? k with
  | some r => w k r
  | none => 0

/-- The keys of the rows of a table. -/
def keySet (tbl : Table α) : Finset Key := (tbl.rows.map Prod.fst).toFinset

/-- The weights of a table's rows, summed over its keys. -/
def weight (tbl : Table α) : Nat := ∑ k ∈ tbl.keySet, tbl.weightAt w k

variable {w} {tbl tbl' : Table α}

theorem weightAt_of_get? {k : Key} {r : Row α} (h : tbl.get? k = some r) :
    tbl.weightAt w k = w k r := by
  simp [weightAt, h]

theorem weightAt_of_get?_none {k : Key} (h : tbl.get? k = none) : tbl.weightAt w k = 0 := by
  simp [weightAt, h]

/-- A key without a row carries nothing. -/
theorem weightAt_of_not_mem {k : Key} (hk : k ∉ tbl.keySet) : tbl.weightAt w k = 0 := by
  apply weightAt_of_get?_none
  unfold get?
  rw [Option.map_eq_none_iff, List.find?_eq_none]
  intro x hx hxk
  exact hk (List.mem_toFinset.mpr (List.mem_map.mpr ⟨x, hx, beq_iff_eq.mp hxk⟩))

/-- The weight sums over any set of keys that holds the table's. -/
theorem weight_eq_sum {S : Finset Key} (hS : tbl.keySet ⊆ S) :
    tbl.weight w = ∑ k ∈ S, tbl.weightAt w k :=
  Finset.sum_subset hS fun _ _ hk => weightAt_of_not_mem hk

/-- A step that takes `u` away at key `a` and adds at most `u'` at key `b`, lowering or keeping
every other key, moves the weight by as much. -/
theorem weight_add_le_of_moves {a b : Key} {u u' : Nat}
    (h : ∀ k, tbl'.weightAt w k + (if k = a then u else 0) ≤
      tbl.weightAt w k + (if k = b then u' else 0)) :
    tbl'.weight w + u ≤ tbl.weight w + u' := by
  classical
  -- every key either table holds, and the two keys the step moves weight between
  set S := tbl'.keySet ∪ tbl.keySet ∪ {a, b} with hS
  have ha : a ∈ S := by simp [hS]
  have hb : b ∈ S := by simp [hS]
  have hsum := Finset.sum_le_sum fun k (_ : k ∈ S) => h k
  rw [Finset.sum_add_distrib, Finset.sum_add_distrib, Finset.sum_ite_eq' S a,
    Finset.sum_ite_eq' S b, if_pos ha, if_pos hb] at hsum
  rw [weight_eq_sum (show tbl'.keySet ⊆ S by intro k hk; simp [hS, hk]),
    weight_eq_sum (show tbl.keySet ⊆ S by intro k hk; simp [hS, hk])]
  omega

/-- The weight is at most the rows times the largest weight a row carries. -/
theorem weight_le {B : Nat} (hB : ∀ k r, w k r ≤ B) : tbl.weight w ≤ tbl.size * B := by
  calc tbl.weight w ≤ ∑ _k ∈ tbl.keySet, B := by
        refine Finset.sum_le_sum fun k _ => ?_
        unfold weightAt
        split
        · exact hB _ _
        · exact Nat.zero_le _
    _ = tbl.keySet.card * B := by rw [Finset.sum_const, smul_eq_mul]
    _ ≤ tbl.size * B :=
        Nat.mul_le_mul_right _ ((List.toFinset_card_le _).trans (by simp [size]))

end Table

end SeriesStore
