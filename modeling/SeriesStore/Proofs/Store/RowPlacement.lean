import Mathlib
import SeriesStore.Proofs.Store.SeriesLayout

/-!
# Placing a row among the rows of a series

Writes keep the rows of a series lying well (`SeriesWell`): each holds a built segment at the
baseline of its key, starts with a point at that baseline, keeps its points in the range of
instants, and lies below the baselines of the rows after it. A write finds room for a row
through a *gap* `[lo, hi)` that no other row reaches into, every one lying wholly below `lo` or
starting at or past `hi` (`Gap`). A row whose points fall in the gap can be put there, and the
gap then starts past its last point (`SeriesWell.putRow`, `Gap.putRow`):

    SeriesWell pre rows → Gap (rows without k) lo hi → lo ≤ b → points of (k, v) < hi →
      SeriesWell pre (putRow k v rows)

A write finds its gap around a key: the span of a row it rewrites (`SeriesWell.gap_span`), or
the room between the last row at or below a key and the first row above it
(`SeriesWell.gap_below`, `Gap.of_above`).
-/

namespace SeriesStore

open StoredRow

namespace Table

/-- In rows ordered by key, a relation that holds pairwise holds of every pair in key order. -/
theorem Ordered.rel_of_lt {α : Type} {rows : List (Key × Row α)}
    {R : Key × Row α → Key × Row α → Prop} (h : Ordered rows) (hR : rows.Pairwise R)
    {x y : Key × Row α} (hx : x ∈ rows) (hy : y ∈ rows) (hlt : Key.lt x.1 y.1 = true) : R x y := by
  induction rows with
  | nil => cases hx
  | cons a as ih =>
    rcases List.mem_cons.mp hx with rfl | hxs
    · rcases List.mem_cons.mp hy with rfl | hys
      · exact absurd rfl (Key.ne_of_lt hlt)
      · exact (List.pairwise_cons.mp hR).1 y hys
    · rcases List.mem_cons.mp hy with rfl | hys
      · -- `y` heads the list, so it lies below `x`
        have := Key.lt_asymm (h.lt_of_mem hxs)
        rw [hlt] at this
        cases this
      · exact ih h.tail (List.pairwise_cons.mp hR).2 hxs hys

/-- In rows ordered by key, a row before the last one has a smaller key. -/
theorem Ordered.lt_of_getLast? {α : Type} {rows : List (Key × Row α)} (h : Ordered rows)
    {x last : Key × Row α} (hlast : rows.getLast? = some last) (hx : x ∈ rows) (hne : x.1 ≠ last.1) :
    Key.lt x.1 last.1 = true := by
  obtain ⟨init, rfl⟩ := List.getLast?_eq_some_iff.mp hlast
  rcases List.mem_append.mp hx with hx | hx
  · exact (List.pairwise_append.mp h).2.2 x hx last (List.mem_singleton.mpr rfl)
  · exact absurd (by rw [List.mem_singleton.mp hx]) hne

end Table

theorem Key.lt_or_gt_of_ne {a b : Key} (h : a ≠ b) : Key.lt a b = true ∨ Key.lt b a = true := by
  cases hab : Key.lt a b with
  | true => exact .inl rfl
  | false => exact .inr (Key.lt_of_le_of_ne (Key.lt_eq_false_iff.mp hab) (Ne.symm h))

namespace StoredRow

/-- A row starts with a point at its baseline and keeps its points in the range of instants. -/
structure Starts (r : Key × Row SegmentRow) : Prop where
  at_baseline : ∃ p ∈ points r, p.ms = baseline r
  in_range : ∀ p ∈ points r, Instant.minMillis ≤ p.ms ∧ p.ms ≤ Instant.maxMillis

/-- The last timestamp a row holds. -/
def lastMs (r : Key × Row SegmentRow) : Int := r.2.value.segment.lastTimestamp (baseline r)

variable {pre : Key} {b b' : Int} {es es' : List Entry} {r u : Key × Row SegmentRow}

/-- Within one series, keys compare as baselines. -/
theorem Holds.key_lt_iff (hr : Holds pre b es r) (hu : Holds pre b' es' u) :
    Key.lt r.1 u.1 = true ↔ b < b' := by
  rw [hr.key_eq, hu.key_eq, Key.lt_segmentOfPrefix_iff pre hr.fits hu.fits]

/-- A row holds a point, at or past its baseline. -/
theorem Holds.exists_point (h : Holds pre b es r) : ∃ p ∈ points r, b ≤ p.ms := by
  obtain ⟨p, hp, -⟩ := h.exists_lastTimestamp
  exact ⟨p, hp, h.baseline_le hp⟩

end StoredRow

/-- No row reaches into `[lo, hi)`: each lies wholly below `lo` or starts at or past `hi`. -/
def Gap (rows : List (Key × Row SegmentRow)) (lo hi : Int) : Prop :=
  ∀ r ∈ rows, (∀ p ∈ points r, p.ms < lo) ∨ hi ≤ baseline r

/-- The rows of a series as writes keep them: lying well, each starting with a point at its
baseline, every point in the range of instants. -/
structure SeriesWell (pre : Key) (rows : List (Key × Row SegmentRow)) : Prop where
  layout : SeriesLayout pre rows
  starts : ∀ r ∈ rows, Starts r

section Placing

variable {pre : Key} {rows rows' : List (Key × Row SegmentRow)} {k : Key} {v : Row SegmentRow}
  {b : Int} {es : List Entry} {lo hi : Int}

theorem Gap.sublist (h : Gap rows lo hi) (hs : rows'.Sublist rows) : Gap rows' lo hi :=
  fun r hr => h r (hs.subset hr)

theorem Gap.mono (h : Gap rows lo hi) {lo' : Int} (hlo : lo ≤ lo') : Gap rows lo' hi :=
  fun r hr => (h r hr).imp_left fun hlow p hp => lt_of_lt_of_le (hlow p hp) hlo

theorem SeriesWell.nil (pre : Key) : SeriesWell pre [] :=
  ⟨SeriesLayout.nil pre, fun _ h => absurd h List.not_mem_nil⟩

theorem SeriesWell.sublist (h : SeriesWell pre rows) (hs : rows'.Sublist rows) : SeriesWell pre rows' :=
  ⟨h.layout.sublist hs, fun r hr => h.starts r (hs.subset hr)⟩

theorem mem_filter_ne {x : Key × Row SegmentRow} (hx : x ∈ rows) (hxk : x.1 ≠ k) :
    x ∈ rows.filter (·.1 != k) :=
  List.mem_filter.mpr ⟨hx, by simpa using hxk⟩

/-- The other rows leaving a gap, and the rows under a key lying below it, the rows all do. -/
theorem Gap.of_filter_ne (hgap : Gap (rows.filter (·.1 != k)) lo hi) {lo' : Int} (hlo : lo ≤ lo')
    (hk : ∀ x ∈ rows, x.1 = k → ∀ p ∈ points x, p.ms < lo') : Gap rows lo' hi := by
  intro x hx
  by_cases hxk : x.1 = k
  · exact .inl (hk x hx hxk)
  · exact hgap.mono hlo x (mem_filter_ne hx hxk)

/-- A row whose points fall in a gap of the other rows can be put in it. -/
theorem SeriesWell.putRow (hord : Table.Ordered rows) (h : SeriesWell pre rows)
    (hn : Holds pre b es (k, v)) (hs : Starts (k, v)) (hgap : Gap (rows.filter (·.1 != k)) lo hi)
    (hlo : lo ≤ b) (hhi : ∀ p ∈ points (k, v), p.ms < hi) :
    SeriesWell pre (Table.putRow k v rows) := by
  -- the new row holds a point at its baseline, below `hi`
  obtain ⟨q, hq, hqb⟩ := hs.at_baseline
  rw [hn.baseline_eq] at hqb
  have hbhi : b < hi := hqb ▸ hhi q hq
  refine ⟨⟨fun x hx => ?_, ?_⟩, fun x hx => ?_⟩
  · rcases (Table.mem_putRow hord).mp hx with rfl | ⟨hx, -⟩
    · exact ⟨b, es, hn⟩
    · exact h.layout.holds x hx
  · refine (hord.putRow k v).imp_of_mem fun {x y} hx hy hlt => ?_
    rcases (Table.mem_putRow hord).mp hx with rfl | ⟨hx, hxk⟩ <;>
      rcases (Table.mem_putRow hord).mp hy with rfl | ⟨hy, hyk⟩
    · exact absurd rfl (Key.ne_of_lt hlt)
    · -- the new row, then a later one: the later one starts at or past `hi`
      obtain ⟨b', es', hy'⟩ := h.layout.holds y hy
      have hbb' := (hn.key_lt_iff hy').mp hlt
      rw [hy'.baseline_eq]
      rcases hgap y (mem_filter_ne hy hyk) with hlow | hhigh
      · -- a row wholly below `lo` cannot start past `b`
        obtain ⟨p, hp, hpb⟩ := hy'.exists_point
        have := hlow p hp
        omega
      · rw [hy'.baseline_eq] at hhigh
        intro p hp
        have := hhi p hp
        omega
    · -- an earlier row, then the new one: the earlier one lies below `lo`
      obtain ⟨b', es', hx'⟩ := h.layout.holds x hx
      have hb'b := (hx'.key_lt_iff hn).mp hlt
      rw [hn.baseline_eq]
      rcases hgap x (mem_filter_ne hx hxk) with hlow | hhigh
      · intro p hp
        have := hlow p hp
        omega
      · rw [hx'.baseline_eq] at hhigh
        omega
    · exact Table.Ordered.rel_of_lt hord h.layout.chain hx hy hlt
  · rcases (Table.mem_putRow hord).mp hx with rfl | ⟨hx, -⟩
    · exact hs
    · exact h.starts x hx

/-- Once a row is put in a gap, the gap starts past its points. -/
theorem Gap.putRow (hord : Table.Ordered rows) (hgap : Gap (rows.filter (·.1 != k)) lo hi)
    {lo' : Int} (hlo : lo ≤ lo') (hpts : ∀ p ∈ points (k, v), p.ms < lo') :
    Gap (Table.putRow k v rows) lo' hi := by
  intro x hx
  rcases (Table.mem_putRow hord).mp hx with rfl | ⟨hx, hxk⟩
  · exact .inl hpts
  · rcases hgap x (mem_filter_ne hx hxk) with hlow | hhigh
    · exact .inl fun p hp => lt_of_lt_of_le (hlow p hp) hlo
    · exact .inr hhigh

/-- Around a row, the other rows leave room from its baseline past its last point. -/
theorem SeriesWell.gap_span (hord : Table.Ordered rows) (h : SeriesWell pre rows)
    {r : Key × Row SegmentRow} (hr : r ∈ rows) :
    Gap (rows.filter (·.1 != r.1)) (baseline r) (lastMs r + 1) := by
  intro x hx
  obtain ⟨hx, hxr⟩ := List.mem_filter.mp hx
  rcases Key.lt_or_gt_of_ne (by simpa using hxr) with hlt | hgt
  · exact .inl (Table.Ordered.rel_of_lt hord h.layout.chain hx hr hlt)
  · -- a later row starts past every point of `r`, its last one included
    right
    obtain ⟨b, es, hb⟩ := h.layout.holds r hr
    obtain ⟨p, hp, hpl⟩ := hb.exists_lastTimestamp
    have := Table.Ordered.rel_of_lt hord h.layout.chain hr hx hgt p hp
    rw [lastMs, hb.baseline_eq]
    omega

/-- Past the last row at or below a key, the other rows leave room up to any bound that the
rows above the key start at or past. -/
theorem SeriesWell.gap_below (hord : Table.Ordered rows) (h : SeriesWell pre rows) {c : Key}
    {hd : Key × Row SegmentRow} (hhd : (rows.filter fun x => Key.le x.1 c).getLast? = some hd)
    (habove : ∀ x ∈ rows, Key.lt c x.1 = true → hi ≤ baseline x) :
    Gap (rows.filter (·.1 != hd.1)) (baseline hd) hi := by
  have hhd' : hd ∈ rows := (List.mem_filter.mp (List.mem_of_getLast? hhd)).1
  intro x hx
  obtain ⟨hx, hxd⟩ := List.mem_filter.mp hx
  cases hle : Key.le x.1 c with
  | true =>
    -- below the key, `x` comes before the last row there
    have hlt := (hord.filter _).lt_of_getLast? hhd (List.mem_filter.mpr ⟨hx, hle⟩)
      (by simpa using hxd)
    exact .inl (Table.Ordered.rel_of_lt hord h.layout.chain hx hhd' hlt)
  | false => exact .inr (habove x hx (Key.le_eq_false_iff.mp hle))

/-- When no row lies at or below a key, the rows leave room up to any bound that the rows above
the key start at or past. -/
theorem Gap.of_above {c : Key} (hnone : (rows.filter fun x => Key.le x.1 c) = [])
    (habove : ∀ x ∈ rows, Key.lt c x.1 = true → hi ≤ baseline x) : Gap rows lo hi := by
  intro x hx
  right
  refine habove x hx (Key.le_eq_false_iff.mp ?_)
  cases hle : Key.le x.1 c with
  | false => rfl
  | true =>
    have : x ∈ rows.filter fun x => Key.le x.1 c := List.mem_filter.mpr ⟨hx, hle⟩
    rw [hnone] at this
    cases this

/-- The first row above a key starts no later than every row above it. -/
theorem SeriesWell.baseline_head_le (h : SeriesWell pre rows) {c : Key} {n : Key × Row SegmentRow}
    (hn : (rows.filter fun x => Key.lt c x.1).head? = some n) :
    ∀ x ∈ rows, Key.lt c x.1 = true → baseline n ≤ baseline x := by
  intro x hx hcx
  obtain ⟨rest, hrest⟩ := List.head?_eq_some_iff.mp hn
  have hsub : SeriesLayout pre (rows.filter fun x => Key.lt c x.1) :=
    h.layout.sublist List.filter_sublist
  have hbase := hsub.baseline_lt
  rw [hrest] at hbase
  have hx' : x ∈ n :: rest := by
    rw [← hrest]
    exact List.mem_filter.mpr ⟨hx, hcx⟩
  rcases List.mem_cons.mp hx' with rfl | hx'
  · exact le_refl _
  · exact le_of_lt ((List.pairwise_cons.mp hbase).1 x hx')

end Placing

end SeriesStore
