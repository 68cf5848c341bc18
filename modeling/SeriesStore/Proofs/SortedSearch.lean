import Mathlib
import SeriesStore.Store.Documents

/-!
# Searching a sorted list by halving

`searchSorted cmp xs` halves a window of `xs` until one item is left, with no early stop at an
equal item, and then looks at that item; `cmp` tells how an item compares with the one sought.
On a list that is *graded* by `cmp` (items below the one sought first, then equal ones, then
greater ones) the search is exact (`searchSorted_answers`):

* `found i`: the item at `i` is equal to the one sought;
* `missing i`: the items before `i` are below it and those from `i` on are above it, so `i` is
  where it goes.

The halving keeps two facts (`halve_spec`): every item past the window is above the one sought,
and the window starts at `0` or at an item that is not. A list sorted by a key, searched for a
key by `compare`, is graded (`graded_of_sorted`). On a strictly sorted list, putting an item at
the place a search misses keeps it strictly sorted (`pairwise_insert_of_missing`), and taking
out the item a search finds removes exactly its key (`mem_map_eraseIdx_of_found`).
-/

namespace SeriesStore

variable {α : Type}

section Search

variable (cmp : α → Ordering)

/-- Items below the one sought come first, then equal ones, then greater ones: an item above is
followed only by items above, an item below is preceded only by items below. -/
def Graded (xs : List α) : Prop :=
  ∀ i j (hi : i < xs.length) (hj : j < xs.length), i ≤ j →
    (cmp xs[i] = .gt → cmp xs[j] = .gt) ∧ (cmp xs[j] = .lt → cmp xs[i] = .lt)

/-- What a search answers about a list: an index of an equal item, or the place between the
items below and the items above. -/
def SearchResult.Answers (xs : List α) : SearchResult → Prop
  | .found i => ∃ h : i < xs.length, cmp xs[i] = .eq
  | .missing i => i ≤ xs.length ∧ (∀ j (h : j < xs.length), j < i → cmp xs[j] = .lt) ∧
      (∀ j (h : j < xs.length), i ≤ j → cmp xs[j] = .gt)

variable {cmp} {xs : List α}

/-- The halving loop. Its invariant: the window lies in the list, everything past it is above
the item sought, and it starts at `0` or at an item that is not above. Each round keeps it and
halves the window, so the fuel, one round per item, runs out only on a window of one. -/
theorem halve_spec (hg : Graded cmp xs) (fuel base size : Nat) (hsize : 1 ≤ size)
    (hfuel : size ≤ fuel + 1) (hin : base + size ≤ xs.length)
    (habove : ∀ j (h : j < xs.length), base + size ≤ j → cmp xs[j] = .gt)
    (hbase : base = 0 ∨ ∃ h : base < xs.length, cmp xs[base] ≠ .gt) :
    halve cmp xs fuel base size < xs.length ∧
      (∀ j (h : j < xs.length), halve cmp xs fuel base size < j → cmp xs[j] = .gt) ∧
      (halve cmp xs fuel base size = 0 ∨
        ∃ h : halve cmp xs fuel base size < xs.length,
          cmp xs[halve cmp xs fuel base size] ≠ .gt) := by
  induction fuel generalizing base size with
  | zero =>
    -- no fuel left: the window holds one item
    have hone : size = 1 := by omega
    subst hone
    simp only [halve]
    exact ⟨by omega, fun j hj hlt => habove j hj (by omega), hbase⟩
  | succ fuel ih =>
    rw [halve]
    split_ifs with hle
    · have hone : size = 1 := by omega
      subst hone
      exact ⟨by omega, fun j hj hlt => habove j hj (by omega), hbase⟩
    · have hmid : base + size / 2 < xs.length := by omega
      simp only [List.getElem?_eq_getElem hmid]
      split_ifs with hgt
      · -- the middle item is above: everything from it on is above, keep the lower half
        have hmgt : cmp xs[base + size / 2] = .gt := by simpa using hgt
        refine ih base (size - size / 2) (by omega) (by omega) (by omega) (fun j hj hle => ?_)
          hbase
        exact (hg _ j hmid hj (by omega)).1 hmgt
      · -- the middle item is not above: the window moves up to it
        refine ih (base + size / 2) (size - size / 2) (by omega) (by omega) (by omega)
          (fun j hj hle => habove j hj (by omega)) (.inr ⟨hmid, by simpa using hgt⟩)

/-- On a graded list the search answers exactly. -/
theorem searchSorted_answers (hg : Graded cmp xs) : (searchSorted cmp xs).Answers cmp xs := by
  unfold searchSorted
  split_ifs with hempty
  · have hnil : xs = [] := List.isEmpty_iff.mp hempty
    subst hnil
    exact ⟨le_rfl, fun j hj => absurd hj (Nat.not_lt_zero j),
      fun j hj => absurd hj (Nat.not_lt_zero j)⟩
  · have hpos : 0 < xs.length :=
      List.length_pos_iff.mpr fun h => hempty (List.isEmpty_iff.mpr h)
    obtain ⟨hlt, habove, hbase⟩ :=
      halve_spec hg xs.length 0 xs.length hpos (by omega) (by omega)
        (fun j hj hle => absurd hj (by omega)) (.inl rfl)
    generalize halve cmp xs xs.length 0 xs.length = r at hlt habove hbase
    simp only [List.getElem?_eq_getElem hlt]
    cases hr : cmp xs[r] with
    | eq => exact ⟨hlt, hr⟩
    | lt =>
      -- everything up to the item is below, everything after it above
      refine ⟨by omega, fun j hj hjr => ?_, fun j hj hrj => habove j hj (by omega)⟩
      exact (hg j r hj hlt (by omega)).2 hr
    | gt =>
      -- an item above with nothing below it: the search stopped at the start
      have hr0 : r = 0 := hbase.resolve_right fun ⟨_, hne⟩ => hne hr
      subst hr0
      refine ⟨by omega, fun j hj hjr => absurd hjr (Nat.not_lt_zero j), fun j hj _ => ?_⟩
      rcases Nat.eq_zero_or_pos j with rfl | hj0
      · exact hr
      · exact habove j hj hj0

end Search

section Keys

variable {β : Type} [LinearOrder β] {f : α → β} {x : β} {xs : List α}

theorem le_of_sorted (hs : (xs.map f).Pairwise (· ≤ ·)) {i j : Nat} (hi : i < xs.length)
    (hj : j < xs.length) (hij : i ≤ j) : f xs[i] ≤ f xs[j] := by
  rcases Nat.eq_or_lt_of_le hij with rfl | hlt
  · exact le_rfl
  · have h := List.pairwise_iff_getElem.mp hs i j (by simpa using hi) (by simpa using hj) hlt
    rwa [List.getElem_map, List.getElem_map] at h

/-- A list sorted by a key is graded for any key sought by `compare`. -/
theorem graded_of_sorted (hs : (xs.map f).Pairwise (· ≤ ·)) :
    Graded (fun a => compare (f a) x) xs := by
  intro i j hi hj hij
  have hle := le_of_sorted hs hi hj hij
  refine ⟨fun h => ?_, fun h => ?_⟩
  · exact compare_gt_iff_gt.mpr (lt_of_lt_of_le (compare_gt_iff_gt.mp h) hle)
  · exact compare_lt_iff_lt.mpr (lt_of_le_of_lt hle (compare_lt_iff_lt.mp h))

/-- Where a search by key misses, the items taken before the place are below the key and those
dropped after it above. -/
theorem fits_of_missing {i : Nat}
    (h : (SearchResult.missing i).Answers (fun a => compare (f a) x) xs) :
    (∀ a ∈ xs.take i, f a < x) ∧ (∀ a ∈ xs.drop i, x < f a) := by
  obtain ⟨hi, hbelow, habove⟩ := h
  constructor
  · intro a ha
    obtain ⟨j, hj, rfl⟩ := List.getElem_of_mem ha
    rw [List.getElem_take]
    exact compare_lt_iff_lt.mp (hbelow j _ (by simp at hj; omega))
  · intro a ha
    obtain ⟨j, hj, rfl⟩ := List.getElem_of_mem ha
    rw [List.getElem_drop]
    exact compare_gt_iff_gt.mp (habove (i + j) _ (by omega))

/-- A search by key that misses leaves the key out of the list. -/
theorem not_mem_of_missing {i : Nat}
    (h : (SearchResult.missing i).Answers (fun a => compare (f a) x) xs) : x ∉ xs.map f := by
  obtain ⟨hbelow, habove⟩ := fits_of_missing h
  intro hx
  obtain ⟨a, ha, hax⟩ := List.mem_map.mp hx
  rw [← List.take_append_drop i xs, List.mem_append] at ha
  rcases ha with ha | ha
  · exact (hbelow a ha).ne hax
  · exact (habove a ha).ne' hax

/-- A search by key that finds an item finds the key in the list. -/
theorem mem_of_found {i : Nat}
    (h : (SearchResult.found i).Answers (fun a => compare (f a) x) xs) : x ∈ xs.map f := by
  obtain ⟨hi, heq⟩ := h
  exact List.mem_map.mpr ⟨xs[i], List.getElem_mem hi, compare_eq_iff_eq.mp heq⟩

/-- Putting an item of the key sought at the place where the search missed keeps a strictly
sorted list strictly sorted. -/
theorem pairwise_insert_of_missing (hs : (xs.map f).Pairwise (· < ·)) {a : α} (ha : f a = x)
    {i : Nat} (h : (SearchResult.missing i).Answers (fun a => compare (f a) x) xs) :
    ((xs.take i ++ a :: xs.drop i).map f).Pairwise (· < ·) := by
  obtain ⟨hbelow, habove⟩ := fits_of_missing h
  have hsplit := hs
  rw [← List.take_append_drop i xs, List.map_append, List.pairwise_append] at hsplit
  obtain ⟨hA, hB, hAB⟩ := hsplit
  rw [List.map_append, List.map_cons, List.pairwise_append, List.pairwise_cons]
  refine ⟨hA, ⟨fun c hc => ?_, hB⟩, fun b hb c hc => ?_⟩
  · obtain ⟨c', hc', rfl⟩ := List.mem_map.mp hc
    exact ha ▸ habove c' hc'
  · obtain ⟨b', hb', rfl⟩ := List.mem_map.mp hb
    rcases List.mem_cons.mp hc with rfl | hc
    · exact ha ▸ hbelow b' hb'
    · exact hAB _ (List.mem_map_of_mem hb') c hc

omit [LinearOrder β] in
/-- The keys after putting an item at a place: its key and the others. -/
theorem mem_map_insert {a : α} {i : Nat} {y : β} :
    y ∈ (xs.take i ++ a :: xs.drop i).map f ↔ y = f a ∨ y ∈ xs.map f := by
  conv_rhs => rw [← List.take_append_drop i xs]
  simp only [List.map_append, List.map_cons, List.mem_append, List.mem_cons]
  tauto

/-- Taking out the item a search by key found removes exactly that key from a strictly sorted
list. -/
theorem mem_map_eraseIdx_of_found (hs : (xs.map f).Pairwise (· < ·)) {i : Nat}
    (h : (SearchResult.found i).Answers (fun a => compare (f a) x) xs) {y : β} :
    y ∈ (xs.eraseIdx i).map f ↔ y ∈ xs.map f ∧ y ≠ x := by
  obtain ⟨hi, heq⟩ := h
  have hx : f xs[i] = x := compare_eq_iff_eq.mp heq
  -- the key sought sits at `i` and nowhere else
  have honly : ∀ j (hj : j < xs.length), f xs[j] = x → j = i := by
    intro j hj hfj
    by_contra hne
    rcases Nat.lt_or_gt_of_ne hne with hlt | hlt
    · have := List.pairwise_iff_getElem.mp hs j i (by simpa using hj) (by simpa using hi) hlt
      simp only [List.getElem_map] at this
      exact absurd (hfj.trans hx.symm) this.ne
    · have := List.pairwise_iff_getElem.mp hs i j (by simpa using hi) (by simpa using hj) hlt
      simp only [List.getElem_map] at this
      exact absurd (hx.trans hfj.symm) this.ne
  simp only [List.mem_map, List.mem_eraseIdx_iff_getElem]
  constructor
  · rintro ⟨a, ⟨j, hj, hji, rfl⟩, rfl⟩
    exact ⟨⟨_, List.getElem_mem hj, rfl⟩, fun hfx => hji (honly j hj hfx)⟩
  · rintro ⟨⟨a, ha, rfl⟩, hne⟩
    obtain ⟨j, hj, rfl⟩ := List.getElem_of_mem ha
    exact ⟨_, ⟨j, hj, fun hji => hne (hji ▸ hx), rfl⟩, rfl⟩

end Keys

end SeriesStore
