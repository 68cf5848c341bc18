import Mathlib
import SeriesStore.Policy
import SeriesStore.Proofs.Time.SpanOrder

/-!
# Validated rollup chains

`PolicyChain.validate` either refuses a chain with a configuration error or returns it
`WellFormed`: every named policy is `Policy.Valid` (a name that is not blank, holds no `@` and is
not the raw policy's, ignoring case; a positive finite aggregation span; a positive retention no
shorter than it), the names differ after lowercasing, and the aggregation spans strictly
ascend. The last fact rests on the order of spans being a lawful total order: the chain is
sorted by a stable sort on `compare ≠ gt`, and two neighbours of equal span are refused.

On a well-formed chain every navigation helper finds the policy at position `k` where the chain
holds it (`WellFormed.navigate`): its series name leads back to position `k + 1`, it follows
position `k` and precedes position `k + 2`, and its name in any case resolves to it.
-/

namespace SeriesStore

namespace Policy

/-- A named policy as `validateNamed` accepts it. -/
structure Valid (p : Policy) : Prop where
  not_blank : Text.trim p.name ≠ ""
  no_separator : SeriesName.policySeparator ∉ p.name.toList
  not_raw : Text.lower p.name ≠ Text.lower rawName
  aggregation_pos : 0 < p.aggregation.value
  aggregation_finite : p.aggregation ≠ Span.infinite
  retention_pos : 0 < p.retention.value
  aggregation_le_retention : Span.compare p.aggregation p.retention ≠ .gt

theorem Valid.name_ne_empty {p : Policy} (h : p.Valid) : p.name ≠ "" := by
  intro he
  apply h.not_blank
  rw [he]
  rfl

theorem validateNamed_valid {p : Policy} (h : p.validateNamed = .ok ()) : p.Valid := by
  unfold validateNamed invalid at h
  split_ifs at h with h₁ h₂ h₃ h₄ h₅ h₆
  refine ⟨by simpa using h₁, by simpa using h₂, ?_, ?_, ?_, ?_, ?_⟩
  · simpa [isRaw, sameName] using h₃
  · simp only [Bool.or_eq_true, Bool.not_eq_eq_eq_not, Bool.not_true, not_or,
      Bool.not_eq_false] at h₄
    simpa [Span.isPositive] using h₄.1
  · simp only [Bool.or_eq_true, not_or, Bool.not_eq_true] at h₄
    simpa [Span.isInfinite] using h₄.2
  · simpa [Span.isPositive] using h₅
  · -- retention is not shorter than the aggregation, so the aggregation is not longer
    have hlt : Span.compare p.retention p.aggregation ≠ .lt := by simpa [Span.lt] using h₆
    rw [Span.compare_swap]
    cases hc : Span.compare p.retention p.aggregation <;> simp_all

theorem validateNamed_error {p : Policy} {e : Error} (h : p.validateNamed = .error e) :
    ∃ m, e = .configuration m := by
  unfold validateNamed invalid at h
  split_ifs at h <;> cases h <;> exact ⟨_, rfl⟩

end Policy

namespace SeriesName

/-- The series name a policy writes for a raw name free of `@` names that policy. -/
theorem policy?_ofPolicy {raw p : String} (h : policySeparator ∉ raw.toList) :
    policy? (ofPolicy raw p) = some p := by
  have hlist : (ofPolicy raw p).toList = raw.toList ++ '@' :: p.toList := by
    simp [ofPolicy]
  have h' : '@' ∉ raw.toList := h
  have hdrop : (raw.toList ++ '@' :: p.toList).dropWhile (· != '@') = '@' :: p.toList := by
    rw [List.dropWhile_append_of_pos (fun c hc => by
      simpa using fun he : c = '@' => h' (he ▸ hc))]
    rfl
  simp only [policy?, policySeparator, hlist, hdrop]
  simp

end SeriesName

namespace PolicyChain

/-! ## Checking the names -/

/-- Checking a list of named policies accepts only valid policies whose lowercase names differ
from each other and from those already seen. -/
theorem checkNamed_ok {seen : List String} {ps : List Policy} (h : checkNamed seen ps = .ok ()) :
    (∀ p ∈ ps, p.Valid) ∧ (ps.map fun p => Text.lower p.name).Nodup ∧
      ∀ p ∈ ps, Text.lower p.name ∉ seen := by
  induction ps generalizing seen with
  | nil => simp
  | cons p ps ih =>
    simp only [checkNamed, bind, Except.bind] at h
    split at h
    · cases h
    · next hp =>
      split_ifs at h with hseen
      · cases h
      · obtain ⟨hvalid, hnodup, hfresh⟩ := ih h
        refine ⟨?_, ?_, ?_⟩
        · simp only [List.mem_cons, forall_eq_or_imp]
          exact ⟨Policy.validateNamed_valid hp, hvalid⟩
        · refine List.nodup_cons.mpr ⟨fun hmem => ?_, hnodup⟩
          obtain ⟨q, hq, hqp⟩ := List.mem_map.mp hmem
          exact hfresh q hq (hqp ▸ List.mem_cons_self)
        · simp only [List.mem_cons, forall_eq_or_imp]
          exact ⟨by simpa using hseen,
            fun q hq hmem => hfresh q hq (List.mem_cons_of_mem _ hmem)⟩

theorem checkNamed_error {seen : List String} {ps : List Policy} {e : Error}
    (h : checkNamed seen ps = .error e) : ∃ m, e = .configuration m := by
  induction ps generalizing seen with
  | nil => cases h
  | cons p ps ih =>
    simp only [checkNamed, bind, Except.bind] at h
    split at h
    · next hp =>
      cases h
      exact Policy.validateNamed_error hp
    · split_ifs at h
      · cases h
        exact ⟨_, rfl⟩
      · exact ih h

/-! ## Sorting by aggregation -/

/-- The order `validate` sorts a chain by: aggregation at most the next one's. -/
def aggregationLe (a b : Policy) : Bool := Span.compare a.aggregation b.aggregation != .gt

theorem pairwise_mergeSort (ps : List Policy) :
    (ps.mergeSort aggregationLe).Pairwise
      fun a b => Span.compare a.aggregation b.aggregation ≠ .gt := by
  refine (@List.pairwise_mergeSort _ aggregationLe (fun a b c hab hbc => ?_)
    (fun a b => ?_) ps).imp fun h => by simpa [aggregationLe] using h
  · simp only [aggregationLe, bne_iff_ne, ne_eq] at hab hbc ⊢
    exact Span.compare_le_trans hab hbc
  · rcases Span.compare_le_total a.aggregation b.aggregation with h | h <;>
      simp [aggregationLe, h]

/-- With no two neighbours of equal aggregation found, neighbours differ in aggregation. -/
theorem isChain_of_firstTie {ps : List Policy} (h : firstTie ps = none) :
    ps.IsChain fun a b => a.aggregation ≠ b.aggregation := by
  fun_induction firstTie ps with
  | case1 a b rest heq => cases h
  | case2 a b rest hne ih => exact List.isChain_cons_cons.mpr ⟨hne, ih h⟩
  | case3 l hl =>
    rcases l with _ | ⟨a, _ | ⟨b, rest⟩⟩
    · exact List.IsChain.nil
    · exact List.IsChain.singleton a
    · exact absurd rfl (hl a b rest)

/-- Aggregations at most the later ones, with neighbours differing, strictly ascend. -/
theorem pairwise_lt_of_isChain {ps : List Policy}
    (hle : ps.Pairwise fun a b => Span.compare a.aggregation b.aggregation ≠ .gt)
    (hne : ps.IsChain fun a b => a.aggregation ≠ b.aggregation) :
    ps.Pairwise fun a b => Span.compare a.aggregation b.aggregation = .lt := by
  induction ps with
  | nil => exact List.Pairwise.nil
  | cons a rest ih =>
    have hrest := ih (List.pairwise_cons.mp hle).2 hne.tail
    refine List.Pairwise.cons (fun c hc => ?_) hrest
    cases rest with
    | nil => cases hc
    | cons b rest' =>
      -- the next policy is strictly above `a`, and every later one at least as high as the next
      have hab : Span.compare a.aggregation b.aggregation = .lt :=
        Span.compare_lt_of_le_of_ne ((List.pairwise_cons.mp hle).1 b List.mem_cons_self)
          (List.isChain_cons_cons.mp hne).1
      rcases List.mem_cons.mp hc with rfl | hc
      · exact hab
      · exact Span.compare_lt_of_lt_of_le hab
          ((List.pairwise_cons.mp (List.pairwise_cons.mp hle).2).1 c hc)

/-! ## Validated chains -/

/-- A chain as `validate` returns it. -/
structure WellFormed (c : PolicyChain) : Prop where
  ascending : c.policies.Pairwise fun a b => Span.compare a.aggregation b.aggregation = .lt
  valid : ∀ p ∈ c.policies, p.Valid
  distinct : (c.policies.map fun p => Text.lower p.name).Nodup

theorem validate_ok {c c' : PolicyChain} (h : c.validate = .ok c') :
    checkNamed [] c.policies = .ok () ∧ c'.policies = c.policies.mergeSort aggregationLe ∧
      firstTie c'.policies = none := by
  unfold validate at h
  simp only [bind, Except.bind] at h
  -- past the check of the raw retention, the names, then the ties
  split at h
  · simp [Policy.invalid] at h
  · split at h
    · cases h
    · next hnamed =>
      split at h
      · simp [Policy.invalid] at h
      · next htie =>
        cases h
        exact ⟨hnamed, rfl, htie⟩

theorem validate_error {c : PolicyChain} {e : Error} (h : c.validate = .error e) :
    ∃ m, e = .configuration m := by
  unfold validate at h
  simp only [bind, Except.bind] at h
  split at h
  · simp only [Policy.invalid] at h
    cases h
    exact ⟨_, rfl⟩
  · split at h
    · next hnamed =>
      cases h
      exact checkNamed_error hnamed
    · split at h
      · simp only [Policy.invalid] at h
        cases h
        exact ⟨_, rfl⟩
      · cases h

theorem wellFormed_of_validate {c c' : PolicyChain} (h : c.validate = .ok c') : c'.WellFormed := by
  obtain ⟨hnamed, hsorted, htie⟩ := validate_ok h
  obtain ⟨hvalid, hnodup, -⟩ := checkNamed_ok hnamed
  have hperm : c'.policies.Perm c.policies := hsorted ▸ List.mergeSort_perm _ _
  refine ⟨pairwise_lt_of_isChain (hsorted ▸ pairwise_mergeSort c.policies)
      (isChain_of_firstTie htie),
    fun p hp => hvalid p (hperm.subset hp), (hperm.map _).nodup_iff.mpr hnodup⟩

/-! ## Navigating a validated chain -/

/-- The helpers find policy `p` at chain position `k`: its series leads back to position `k + 1`,
it rolls up position `k` and is rolled up at position `k + 2`, and its name in any case gives
it and position `k + 1`. -/
structure Finds (c : PolicyChain) (k : Nat) (p : Policy) : Prop where
  bySeries : ∀ r, SeriesName.policySeparator ∉ r.toList →
    c.indexBySeries (p.seriesName r) = some (k + 1)
  next : c.nextPolicy k = .named p
  previous : c.previousPolicy (k + 2) = .named p
  byName : ∀ n, Text.lower n = Text.lower p.name → c.byName n = some (.named p)
  indexByName : ∀ n, Text.lower n = Text.lower p.name → c.indexByName n = some (k + 1)

section Navigate

variable {c : PolicyChain} (h : c.WellFormed) {k : Nat} (hk : k < c.policies.length)
include h hk

/-- Of a chain with distinct lowercase names, only the policy at `k` has its name in any case. -/
theorem WellFormed.sameName_iff {n : String} (hn : Text.lower n = Text.lower c.policies[k].name)
    {j : Nat} (hj : j < c.policies.length) :
    Policy.sameName c.policies[j].name n = true ↔ j = k := by
  have hinj := @List.Nodup.getElem_inj_iff _ _ h.distinct j (by simpa using hj) k
    (by simpa using hk)
  simp only [List.getElem_map] at hinj
  rw [← hinj, Policy.sameName, beq_iff_eq, hn]

theorem WellFormed.positionOf {n : String} (hn : Text.lower n = Text.lower c.policies[k].name) :
    c.positionOf n = some k := by
  rw [PolicyChain.positionOf, List.findIdx?_eq_some_iff_getElem]
  refine ⟨hk, (h.sameName_iff hk hn hk).mpr rfl, fun j hjk => ?_⟩
  rw [h.sameName_iff hk hn (hjk.trans hk)]
  exact Nat.ne_of_lt hjk

theorem WellFormed.find? {n : String} (hn : Text.lower n = Text.lower c.policies[k].name) :
    c.policies.find? (fun p => Policy.sameName p.name n) = some c.policies[k] := by
  rw [List.find?_eq_some_iff_getElem]
  refine ⟨(h.sameName_iff hk hn hk).mpr rfl, k, hk, rfl, fun j hjk => ?_⟩
  rw [Bool.not_eq_true', Bool.eq_false_iff, Ne, h.sameName_iff hk hn (hjk.trans hk)]
  exact Nat.ne_of_lt hjk

/-- A name that is a chain policy's in any case is not the raw policy's. -/
theorem WellFormed.not_sameName_raw {n : String}
    (hn : Text.lower n = Text.lower c.policies[k].name) :
    Policy.sameName n Policy.rawName = false := by
  have hraw := (h.valid _ (List.getElem_mem hk)).not_raw
  simpa [Policy.sameName, hn] using hraw

theorem WellFormed.navigate : c.Finds k c.policies[k] where
  bySeries r hr := by
    have hraw : c.policies[k].isRaw = false :=
      h.not_sameName_raw hk (n := c.policies[k].name) rfl
    simp only [indexBySeries, Policy.seriesName, hraw, Bool.false_eq_true, if_false,
      SeriesName.policy?_ofPolicy hr, h.positionOf hk rfl, Option.map_some]
  next := by simp [nextPolicy, hk]
  previous := by simp [previousPolicy, hk]
  byName n hn := by
    simp only [byName, h.not_sameName_raw hk hn, Bool.false_eq_true, if_false, h.find? hk hn,
      Option.map_some]
  indexByName n hn := by
    simp only [indexByName, h.not_sameName_raw hk hn, Bool.false_eq_true, if_false,
      h.positionOf hk hn, Option.map_some]

end Navigate

/-- Validating a chain either fails with a configuration error or gives a well-formed chain,
strictly ascending in aggregation, on which every navigation helper finds each policy at its
place. -/
theorem validate_chain_navigable (c : PolicyChain) :
    (∃ m, c.validate = .error (.configuration m)) ∨
      ∃ c', c.validate = .ok c' ∧ c'.WellFormed ∧
        ∀ k (hk : k < c'.policies.length), c'.Finds k c'.policies[k] := by
  cases hv : c.validate with
  | error e =>
    obtain ⟨m, rfl⟩ := validate_error hv
    exact .inl ⟨m, rfl⟩
  | ok c' =>
    have hw := wellFormed_of_validate hv
    exact .inr ⟨c', rfl, hw, fun k hk => hw.navigate hk⟩

end PolicyChain

end SeriesStore
