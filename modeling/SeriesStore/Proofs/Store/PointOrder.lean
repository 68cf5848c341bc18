import Mathlib
import SeriesStore.Store.Points

/-!
# Prepared points and their merge

Points are `Ascending` when their timestamps strictly increase; an ascending list is known by
the point it has at each timestamp, `at? ps ms`. In those terms:

* `prepare` sorts a batch and keeps, of each timestamp, the last point given:

    at? (prepare ps) ms = (ps.filter (·.ms == ms)).getLast?

* a local `merge` lets the incoming points win, and keeps the stored ones elsewhere:

    at? (merge false xs ys) ms = (at? ys ms).or (at? xs ms)

From the second follow the laws that writes rely on: merging runs one after another is merging
them at once, a run that falls between two parts of the stored points only merges with the
middle, and stored points known only up to NaN padding (`Pads`) merge the same way.
-/

namespace SeriesStore

/-! ## Lists ascending by a key -/

section Ascending

variable {α : Type} {f : α → Int}

/-- Two lists strictly ascending by the same key, with the same members, are equal. -/
theorem eq_of_mem_iff_of_ascending {l₁ l₂ : List α} (h₁ : l₁.Pairwise (f · < f ·))
    (h₂ : l₂.Pairwise (f · < f ·)) (h : ∀ x, x ∈ l₁ ↔ x ∈ l₂) : l₁ = l₂ := by
  have hn₁ : l₁.Nodup := h₁.imp fun hab e => Int.ne_of_lt hab (congrArg f e)
  have hn₂ : l₂.Nodup := h₂.imp fun hab e => Int.ne_of_lt hab (congrArg f e)
  exact List.Perm.eq_of_pairwise (fun _ _ _ _ hab hba => absurd hab (Int.lt_asymm hba)) h₁ h₂
    ((List.perm_ext_iff_of_nodup hn₁ hn₂).mpr h)

/-- In a strictly ascending list a key names at most one member. -/
theorem eq_of_key_eq_of_ascending {l : List α} (h : l.Pairwise (f · < f ·)) {x y : α}
    (hx : x ∈ l) (hy : y ∈ l) (hk : f x = f y) : x = y := by
  induction l with
  | nil => cases hx
  | cons a as ih =>
    have hlt := (List.pairwise_cons.mp h).1
    rcases List.mem_cons.mp hx with hxa | hxs
    · rcases List.mem_cons.mp hy with hya | hys
      · rw [hxa, hya]
      · have := hlt y hys
        rw [← hxa] at this
        omega
    · rcases List.mem_cons.mp hy with hya | hys
      · have := hlt x hxs
        rw [← hya] at this
        omega
      · exact ih (List.pairwise_cons.mp h).2 hxs hys

end Ascending

namespace Point

/-- Points whose timestamps strictly increase. -/
def Ascending (ps : List Point) : Prop := ps.Pairwise fun a b => a.ms < b.ms

/-- The point at a timestamp. -/
def at? (ps : List Point) (ms : Int) : Option Point := ps.find? (·.ms == ms)

/-- Whether a point is live. -/
def isLive (p : Point) : Bool := p.status == .live

/-- Every point of `xs` comes before every point of `ys`. -/
def Before (xs ys : List Point) : Prop := ∀ x ∈ xs, ∀ y ∈ ys, x.ms < y.ms

section At

variable {ps xs ys : List Point}

theorem Ascending.tail {p : Point} (h : Ascending (p :: ps)) : Ascending ps :=
  (List.pairwise_cons.mp h).2

theorem Ascending.sublist (h : Ascending ps) (hs : List.Sublist xs ps) : Ascending xs :=
  List.Pairwise.sublist hs h

theorem Ascending.filter (h : Ascending ps) (g : Point → Bool) : Ascending (ps.filter g) :=
  List.Pairwise.filter g h

theorem ascending_append : Ascending (xs ++ ys) ↔ Ascending xs ∧ Ascending ys ∧ Before xs ys :=
  List.pairwise_append

theorem at?_append (ms : Int) : at? (xs ++ ys) ms = (at? xs ms).or (at? ys ms) :=
  List.find?_append

theorem at?_eq_none_iff {ms : Int} : at? ps ms = none ↔ ∀ p ∈ ps, p.ms ≠ ms := by
  simp [at?]

theorem ms_of_at? {ms : Int} {p : Point} (h : at? ps ms = some p) : p.ms = ms := by
  simpa using List.find?_some h

theorem mem_of_at? {ms : Int} {p : Point} (h : at? ps ms = some p) : p ∈ ps :=
  List.mem_of_find?_eq_some h

/-- In an ascending list every member is the point at its timestamp. -/
theorem Ascending.at?_of_mem (h : Ascending ps) {p : Point} (hp : p ∈ ps) :
    at? ps p.ms = some p := by
  cases hq : at? ps p.ms with
  | none => exact absurd rfl ((at?_eq_none_iff.mp hq) p hp)
  | some q =>
    rw [eq_of_key_eq_of_ascending h (mem_of_at? hq) hp (ms_of_at? hq)]

theorem Ascending.mem_iff (h : Ascending ps) {p : Point} : p ∈ ps ↔ at? ps p.ms = some p :=
  ⟨h.at?_of_mem, mem_of_at?⟩

/-- Ascending lists with the same point at every timestamp are equal. -/
theorem Ascending.ext (hx : Ascending xs) (hy : Ascending ys)
    (h : ∀ ms, at? xs ms = at? ys ms) : xs = ys :=
  eq_of_mem_iff_of_ascending hx hy fun p => by rw [hx.mem_iff, hy.mem_iff, h]

end At

/-! ## Preparing a batch -/

section Prepare

theorem at?_concat (l : List Point) (p : Point) (ms : Int) :
    at? (l ++ [p]) ms = (at? l ms).or (if p.ms = ms then some p else none) := by
  rw [at?_append]
  by_cases h : p.ms = ms <;> simp [at?, h]

theorem getLast?_filter_concat (seen : List Point) (p : Point) (ms : Int) :
    ((seen ++ [p]).filter (·.ms == ms)).getLast? =
      if p.ms = ms then some p else (seen.filter (·.ms == ms)).getLast? := by
  by_cases h : p.ms = ms <;> simp [List.filter_append, h]

/-- What the fold of `prepare` keeps of the points `seen` so far: greatest first, the last
point of each timestamp met, each one of the points seen. -/
def Kept (seen acc : List Point) : Prop :=
  Ascending acc.reverse ∧ (∀ ms, at? acc.reverse ms = (seen.filter (·.ms == ms)).getLast?) ∧
    ∀ q ∈ acc, q ∈ seen

theorem kept_nil : Kept [] [] := ⟨List.Pairwise.nil, fun _ => rfl, by simp⟩

theorem mem_keepLastStep {acc : List Point} {p q : Point} (h : q ∈ keepLastStep acc p) :
    q = p ∨ q ∈ acc := by
  unfold keepLastStep at h
  split at h
  · split at h
    · rcases List.mem_cons.mp h with h | h
      · exact .inl h
      · exact .inr (List.mem_cons_of_mem _ h)
    · rcases List.mem_cons.mp h with h | h
      · exact .inl h
      · exact .inr h
  · exact .inl (List.mem_singleton.mp h)

/-- The fold over points in order of their timestamps keeps `Kept`. -/
theorem Kept.step {seen acc : List Point} (h : Kept seen acc) (p : Point)
    (hp : ∀ q ∈ seen, q.ms ≤ p.ms) : Kept (seen ++ [p]) (keepLastStep acc p) := by
  obtain ⟨hasc, hat, hmem⟩ := h
  have hmem' : ∀ q ∈ keepLastStep acc p, q ∈ seen ++ [p] := by
    intro q hq
    rcases mem_keepLastStep hq with rfl | hq
    · exact List.mem_append_right _ (List.mem_singleton.mpr rfl)
    · exact List.mem_append_left _ (hmem q hq)
  cases acc with
  | nil =>
    refine ⟨List.pairwise_singleton _ _, fun ms => ?_, hmem'⟩
    rw [getLast?_filter_concat, ← hat ms]
    by_cases h : p.ms = ms <;> simp [keepLastStep, at?, h]
  | cons q rest =>
    rw [List.reverse_cons, ascending_append] at hasc
    obtain ⟨hascr, -, hbefore⟩ := hasc
    have hrest : ∀ r ∈ rest, r.ms < q.ms := fun r hr =>
      hbefore r (List.mem_reverse.mpr hr) q (List.mem_singleton.mpr rfl)
    have hqp : q.ms ≤ p.ms := hp q (hmem q List.mem_cons_self)
    have hat' : ∀ ms, at? (rest.reverse ++ [q]) ms = (seen.filter (·.ms == ms)).getLast? := by
      intro ms
      rw [← hat ms, List.reverse_cons]
    by_cases heq : q.ms = p.ms
    · -- the new point takes the place of the last one kept, which shares its timestamp
      have hstep : keepLastStep (q :: rest) p = p :: rest := by simp [keepLastStep, heq]
      rw [hstep] at hmem' ⊢
      refine ⟨?_, fun ms => ?_, hmem'⟩
      · rw [List.reverse_cons, ascending_append]
        exact ⟨hascr, List.pairwise_singleton _ _, fun r hr x hx => by
          rw [List.mem_singleton.mp hx, ← heq]
          exact hrest r (List.mem_reverse.mp hr)⟩
      · rw [List.reverse_cons, at?_concat, getLast?_filter_concat, ← hat' ms, at?_concat]
        by_cases hpm : p.ms = ms
        · have hnone : at? rest.reverse ms = none := at?_eq_none_iff.mpr fun r hr => by
            have := hrest r (List.mem_reverse.mp hr)
            omega
          simp [hpm, hnone]
        · simp [hpm, heq]
    · -- a later timestamp: the new point is kept after the last one
      have hlt : q.ms < p.ms := by omega
      have hstep : keepLastStep (q :: rest) p = p :: q :: rest := by simp [keepLastStep, heq]
      rw [hstep] at hmem' ⊢
      have hall : ∀ r ∈ rest.reverse ++ [q], r.ms < p.ms := by
        intro r hr
        rcases List.mem_append.mp hr with hr | hr
        · have := hrest r (List.mem_reverse.mp hr)
          omega
        · rw [List.mem_singleton.mp hr]
          exact hlt
      refine ⟨?_, fun ms => ?_, hmem'⟩
      · rw [List.reverse_cons, List.reverse_cons, ascending_append]
        refine ⟨?_, List.pairwise_singleton _ _, fun r hr x hx => by
          rw [List.mem_singleton.mp hx]
          exact hall r hr⟩
        rw [ascending_append]
        exact ⟨hascr, List.pairwise_singleton _ _, hbefore⟩
      · rw [List.reverse_cons, List.reverse_cons, at?_concat, getLast?_filter_concat, ← hat' ms]
        by_cases hpm : p.ms = ms
        · have hnone : at? (rest.reverse ++ [q]) ms = none := at?_eq_none_iff.mpr fun r hr => by
            have := hall r hr
            omega
          simp [hpm, hnone]
        · simp [hpm]

/-- The fold over a batch sorted by timestamp keeps, of each timestamp, its last point. -/
theorem kept_foldl {seen acc : List Point} (h : Kept seen acc) (l : List Point)
    (hl : l.Pairwise fun a b => a.ms ≤ b.ms) (hseen : ∀ a ∈ seen, ∀ b ∈ l, a.ms ≤ b.ms) :
    Kept (seen ++ l) (l.foldl keepLastStep acc) := by
  induction l generalizing seen acc with
  | nil => simpa using h
  | cons p l ih =>
    rw [List.foldl_cons, ← List.singleton_append, ← List.append_assoc]
    refine ih (h.step p fun q hq => hseen q hq p List.mem_cons_self)
      (List.pairwise_cons.mp hl).2 fun a ha b hb => ?_
    rcases List.mem_append.mp ha with ha | ha
    · exact hseen a ha b (List.mem_cons_of_mem p hb)
    · rw [List.mem_singleton.mp ha]
      exact (List.pairwise_cons.mp hl).1 b hb

/-- The order `prepare` sorts by. -/
def msLe (a b : Point) : Bool := decide (a.ms ≤ b.ms)

theorem msLe_trans (a b c : Point) (h₁ : msLe a b) (h₂ : msLe b c) : msLe a c := by
  simp only [msLe, decide_eq_true_eq] at *
  omega

theorem msLe_total (a b : Point) : (msLe a b || msLe b a) = true := by
  simp only [msLe, Bool.or_eq_true, decide_eq_true_eq]
  omega

/-- Sorting is stable: the points of one timestamp keep their order. -/
theorem filter_mergeSort (ps : List Point) (ms : Int) :
    (ps.mergeSort msLe).filter (·.ms == ms) = ps.filter (·.ms == ms) := by
  have hc : (ps.filter (·.ms == ms)).Pairwise fun a b => msLe a b = true := by
    refine List.pairwise_of_forall_mem_list fun a ha b hb => ?_
    simp only [List.mem_filter, beq_iff_eq] at ha hb
    simp [msLe, ha.2, hb.2]
  have hsub := List.sublist_mergeSort msLe_trans msLe_total hc List.filter_sublist
  have hsub' : List.Sublist (ps.filter (·.ms == ms)) ((ps.mergeSort msLe).filter (·.ms == ms)) := by
    have := hsub.filter (·.ms == ms)
    rwa [List.filter_filter, List.filter_congr (fun x _ => by rw [Bool.and_self])] at this
  have hlen : ((ps.mergeSort msLe).filter (·.ms == ms)).length =
      (ps.filter (·.ms == ms)).length :=
    ((List.mergeSort_perm ps msLe).filter _).length_eq
  exact (hsub'.eq_of_length hlen.symm).symm

theorem kept_prepare (ps : List Point) :
    Kept (ps.mergeSort msLe) ((ps.mergeSort msLe).foldl keepLastStep []) := by
  have h := kept_foldl kept_nil (ps.mergeSort msLe)
    ((List.pairwise_mergeSort msLe_trans msLe_total ps).imp fun h => by
      simpa [msLe] using h) (by simp)
  simpa using h

theorem prepare_eq (ps : List Point) :
    prepare ps = ((ps.mergeSort msLe).foldl keepLastStep []).reverse := rfl

/-- A prepared batch is ascending. -/
theorem ascending_prepare (ps : List Point) : Ascending (prepare ps) := by
  rw [prepare_eq]
  exact (kept_prepare ps).1

/-- A prepared batch keeps, of each timestamp, the last point given. -/
theorem at?_prepare (ps : List Point) (ms : Int) :
    at? (prepare ps) ms = (ps.filter (·.ms == ms)).getLast? := by
  rw [prepare_eq, (kept_prepare ps).2.1 ms, filter_mergeSort]

theorem mem_of_mem_prepare {ps : List Point} {p : Point} (h : p ∈ prepare ps) : p ∈ ps := by
  rw [prepare_eq, List.mem_reverse] at h
  exact List.mem_mergeSort.mp ((kept_prepare ps).2.2 p h)

end Prepare

/-! ## Merging stored and incoming points -/

section Merge

variable {xs ys zs : List Point}

@[simp] theorem merge_nil_left (r : Bool) (ys : List Point) : merge r [] ys = ys := by
  rw [merge]

@[simp] theorem merge_nil_right (r : Bool) (xs : List Point) : merge r xs [] = xs := by
  cases xs <;> simp [merge]

theorem merge_cons_of_lt (r : Bool) {x y : Point} (xs ys : List Point) (h : x.ms < y.ms) :
    merge r (x :: xs) (y :: ys) = x :: merge r xs (y :: ys) := by
  rw [merge, if_pos h]

theorem merge_cons_of_gt (r : Bool) {x y : Point} (xs ys : List Point) (h : y.ms < x.ms) :
    merge r (x :: xs) (y :: ys) = y :: merge r (x :: xs) ys := by
  rw [merge, if_neg (by omega), if_pos h]

theorem merge_cons_of_eq (r : Bool) {x y : Point} (xs ys : List Point) (h : x.ms = y.ms) :
    merge r (x :: xs) (y :: ys) = (if keepLocal x y r then x else y) :: merge r xs ys := by
  rw [merge, if_neg (by omega), if_neg (by omega)]

/-- A local write wins every tie. -/
@[simp] theorem keepLocal_local (x y : Point) : keepLocal x y false = false := rfl

theorem mem_merge {r : Bool} {p : Point} (h : p ∈ merge r xs ys) : p ∈ xs ∨ p ∈ ys := by
  fun_induction merge r xs ys with
  | case1 ys => exact .inr h
  | case2 xs hxs => exact .inl h
  | case3 x xs y ys _ ih =>
    rcases List.mem_cons.mp h with rfl | h
    · exact .inl List.mem_cons_self
    · rcases ih h with h | h
      · exact .inl (List.mem_cons_of_mem _ h)
      · exact .inr h
  | case4 x xs y ys _ _ ih =>
    rcases List.mem_cons.mp h with rfl | h
    · exact .inr List.mem_cons_self
    · rcases ih h with h | h
      · exact .inl h
      · exact .inr (List.mem_cons_of_mem _ h)
  | case5 x xs y ys _ _ ih =>
    rcases List.mem_cons.mp h with rfl | h
    · split
      · exact .inl List.mem_cons_self
      · exact .inr List.mem_cons_self
    · rcases ih h with h | h
      · exact .inl (List.mem_cons_of_mem _ h)
      · exact .inr (List.mem_cons_of_mem _ h)

/-- A point of a merge has the timestamp of a point of one side. -/
theorem ms_mem_merge {r : Bool} {p : Point} (h : p ∈ merge r xs ys) :
    (∃ x ∈ xs, x.ms = p.ms) ∨ ∃ y ∈ ys, y.ms = p.ms := by
  rcases mem_merge h with h | h
  · exact .inl ⟨p, h, rfl⟩
  · exact .inr ⟨p, h, rfl⟩

/-- A merge starts at the first stored point when no incoming point comes before it. -/
theorem ms_head?_merge (r : Bool) {x : Point} (xs : List Point) (hy : ∀ y ∈ ys, x.ms ≤ y.ms) :
    (merge r (x :: xs) ys).head?.map (·.ms) = some x.ms := by
  cases ys with
  | nil => simp
  | cons y ys =>
    rcases Int.lt_or_eq_of_le (hy y List.mem_cons_self) with hlt | heq
    · rw [merge_cons_of_lt r xs ys hlt]
      rfl
    · rw [merge_cons_of_eq r xs ys heq]
      split <;> simp [heq]

theorem Ascending.merge (r : Bool) (hx : Ascending xs) (hy : Ascending ys) :
    Ascending (Point.merge r xs ys) := by
  fun_induction Point.merge r xs ys with
  | case1 ys => exact hy
  | case2 xs _ => exact hx
  | case3 x xs y ys hlt ih =>
    refine List.Pairwise.cons (fun z hz => ?_) (ih hx.tail hy)
    rcases mem_merge hz with hz | hz
    · exact (List.pairwise_cons.mp hx).1 z hz
    · rcases List.mem_cons.mp hz with rfl | hz
      · exact hlt
      · exact Int.lt_trans hlt ((List.pairwise_cons.mp hy).1 z hz)
  | case4 x xs y ys _ hlt ih =>
    refine List.Pairwise.cons (fun z hz => ?_) (ih hx hy.tail)
    rcases mem_merge hz with hz | hz
    · rcases List.mem_cons.mp hz with rfl | hz
      · exact hlt
      · exact Int.lt_trans hlt ((List.pairwise_cons.mp hx).1 z hz)
    · exact (List.pairwise_cons.mp hy).1 z hz
  | case5 x xs y ys h₁ h₂ ih =>
    have heq : x.ms = y.ms := by omega
    refine List.Pairwise.cons (fun z hz => ?_) (ih hx.tail hy.tail)
    have hxz : ∀ z ∈ xs, x.ms < z.ms := (List.pairwise_cons.mp hx).1
    have hyz : ∀ z ∈ ys, y.ms < z.ms := (List.pairwise_cons.mp hy).1
    split
    · rcases mem_merge hz with hz | hz
      · exact hxz z hz
      · rw [heq]
        exact hyz z hz
    · rcases mem_merge hz with hz | hz
      · rw [← heq]
        exact hxz z hz
      · exact hyz z hz

theorem at?_cons (p : Point) (ps : List Point) (ms : Int) :
    at? (p :: ps) ms = if p.ms = ms then some p else at? ps ms := by
  by_cases h : p.ms = ms <;> simp [at?, h]

/-- Nothing of an ascending list lies below its first point. -/
theorem at?_cons_of_lt {p : Point} {ps : List Point} (h : Ascending (p :: ps)) {ms : Int}
    (hms : ms < p.ms) : at? (p :: ps) ms = none := by
  refine at?_eq_none_iff.mpr fun q hq => ?_
  rcases List.mem_cons.mp hq with rfl | hq
  · omega
  · have := (List.pairwise_cons.mp h).1 q hq
    omega

/-- A local merge lets the incoming point win at its timestamp and keeps the stored ones
elsewhere. -/
theorem at?_merge (hx : Ascending xs) (hy : Ascending ys) (ms : Int) :
    at? (merge false xs ys) ms = (at? ys ms).or (at? xs ms) := by
  fun_induction merge false xs ys with
  | case1 ys => simp [at?]
  | case2 xs _ => simp [at?]
  | case3 x xs y ys hlt ih =>
    rw [at?_cons, ih hx.tail hy, at?_cons x xs]
    by_cases hxm : x.ms = ms
    · rw [if_pos hxm, if_pos hxm, at?_cons_of_lt hy (by omega)]
      rfl
    · rw [if_neg hxm, if_neg hxm]
  | case4 x xs y ys _ hlt ih =>
    rw [at?_cons, ih hx hy.tail, at?_cons y ys]
    by_cases hym : y.ms = ms
    · rw [if_pos hym, if_pos hym]
      rfl
    · rw [if_neg hym, if_neg hym]
  | case5 x xs y ys h₁ h₂ ih =>
    simp only [keepLocal_local, Bool.false_eq_true, ↓reduceIte]
    rw [at?_cons, ih hx.tail hy.tail, at?_cons y ys, at?_cons x xs]
    by_cases hym : y.ms = ms
    · rw [if_pos hym, if_pos hym]
      rfl
    · rw [if_neg hym, if_neg hym, if_neg (by omega)]

/-- Merging two runs one after the other is merging them at once. -/
theorem merge_append (hx : Ascending xs) (hy : Ascending ys) (hz : Ascending zs)
    (hyz : Before ys zs) : merge false xs (ys ++ zs) = merge false (merge false xs ys) zs := by
  have hyzs : Ascending (ys ++ zs) := ascending_append.mpr ⟨hy, hz, hyz⟩
  refine (hx.merge false hyzs).ext ((hx.merge false hy).merge false hz) fun ms => ?_
  rw [at?_merge hx hyzs, at?_merge (hx.merge false hy) hz, at?_merge hx hy, at?_append]
  cases hys : at? ys ms with
  | none => simp
  | some y =>
    have hzs : at? zs ms = none := at?_eq_none_iff.mpr fun z hz => by
      have := hyz y (mem_of_at? hys) z hz
      rw [ms_of_at? hys] at this
      omega
    simp [hzs]

/-! ## Points known up to padding -/

/-- A stored point stands for a given one: same timestamp, tag and status, and the values
given followed by NaN padding. -/
def Pads (stored given : Point) : Prop :=
  stored.ms = given.ms ∧ stored.tag = given.tag ∧ stored.status = given.status ∧
    ∃ n, stored.values = given.values ++ List.replicate n Double.nan

theorem Pads.refl (p : Point) : Pads p p := ⟨rfl, rfl, rfl, 0, by simp⟩

theorem Pads.trans {p q r : Point} (h₁ : Pads p q) (h₂ : Pads q r) : Pads p r := by
  obtain ⟨h₁m, h₁t, h₁s, n, hn⟩ := h₁
  obtain ⟨h₂m, h₂t, h₂s, m, hm⟩ := h₂
  exact ⟨h₁m.trans h₂m, h₁t.trans h₂t, h₁s.trans h₂s, m + n, by
    rw [hn, hm, List.append_assoc, List.replicate_append_replicate, Nat.add_comm]⟩

/-- Stored points merge with a run as the points they stand for do: ties and order only read
timestamps, which padding keeps. -/
theorem Pads.merge {xs xs' : List Point} (h : List.Forall₂ Pads xs xs') (ys : List Point) :
    List.Forall₂ Pads (Point.merge false xs ys) (Point.merge false xs' ys) := by
  fun_induction Point.merge false xs ys generalizing xs' with
  | case1 ys =>
    cases h
    simpa using List.forall₂_same.mpr fun y _ => Pads.refl y
  | case2 xs _ => simpa using h
  | case3 x xs y ys hlt ih =>
    obtain ⟨x', xs', hx, hrest, rfl⟩ := List.forall₂_cons_left_iff.mp h
    rw [merge_cons_of_lt false xs' ys (hx.1 ▸ hlt)]
    exact List.Forall₂.cons hx (ih hrest)
  | case4 x xs y ys _ hlt ih =>
    obtain ⟨x', xs', hx, hrest, rfl⟩ := List.forall₂_cons_left_iff.mp h
    rw [merge_cons_of_gt false xs' ys (hx.1 ▸ hlt)]
    exact List.Forall₂.cons (Pads.refl y) (ih h)
  | case5 x xs y ys h₁ h₂ ih =>
    obtain ⟨x', xs', hx, hrest, rfl⟩ := List.forall₂_cons_left_iff.mp h
    rw [merge_cons_of_eq false xs' ys (by rw [← hx.1]; omega)]
    simp only [keepLocal_local, Bool.false_eq_true, ↓reduceIte]
    exact List.Forall₂.cons (Pads.refl y) (ih hrest)

end Merge

end Point

end SeriesStore
