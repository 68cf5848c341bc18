import Mathlib
import SeriesStore.Proofs.Store.RangeDeletion
import SeriesStore.Proofs.Store.EtagBudget
import SeriesStore.Proofs.Store.TableIndex

/-!
# A batch of retention

A retention pass (`RetentionPass`: a collection, a policy and a cutoff) trims, batch after batch,
the series of its policy whose first live sample lies before the cutoff and whose rollup is not
due by it: the rows it still has to trim (`RetentionPass.dueKeys`). The pass is done
(`RetentionPass.Done`) when every series of its policy has a rollup due by the cutoff or no live
point before it.

The run keeps an invariant (`RetentionState`), relative to the tables and versions it started
from: segments well kept, statistics exact, only local stamps on the change vector, every row of
statistics one that was there at the start under the same key and policy, and every clean series
either untouched or trimmed once, by a pass that listed it, exactly up to that pass's cutoff.

Deleting the expired samples of one series picked from the statistics keeps the invariant
(`RetentionState.delete`) when the series is untouched, since its rows then carry the change
vectors they had at the start, none of which covers a fresh local one. A batch of distinct
untouched series keeps it too (`RetentionState.retain`), and when its first series had a live
point before the cutoff, the batch counts it and that series is due no more.
-/

namespace SeriesStore

open StoredRow Tables Versions

/-! ## The live points of a series whose rows lie well -/

namespace Tables

variable {t : Tables} {s : SeriesRef}

theorem live_ascending (h : t.segments.SegmentsWell) (hs : s.Clean) : Point.Ascending (t.live s) :=
  List.Pairwise.filter _ (h.series s hs).layout.ascending

theorem live_in_range (h : t.segments.SegmentsWell) (hs : s.Clean) {q : Point}
    (hq : q ∈ t.live s) : Instant.minMillis ≤ q.ms ∧ q.ms ≤ Instant.maxMillis := by
  obtain ⟨u, hu, hq⟩ := List.mem_flatMap.mp (List.mem_filter.mp hq).1
  exact ((h.series s hs).starts u hu).in_range q hq

/-- Deleting every sample from the first instant up to `T` leaves the live points past `T`. -/
theorem live_filter_within (h : t.segments.SegmentsWell) (hs : s.Clean) (T : Int) :
    (t.live s).filter (fun q => !q.within Instant.minMillis T) =
      (t.live s).filter fun q => T < q.ms := by
  refine List.filter_congr fun q hq => ?_
  have := (live_in_range h hs hq).1
  by_cases hT : T < q.ms
  · simp [Point.within, hT]
  · simp [Point.within, hT]
    omega

variable {name : String} {x : Key × Row StatsRow}

/-- An exact row starts at one of the live points of its series. -/
theorem ExactRow.startMs_mem (h : t.ExactRow name x) :
    ∃ q ∈ t.live x.2.value.series, q.ms = x.2.value.startMs := by
  have hb := h.bounds_eq
  cases hl : t.live x.2.value.series with
  | nil => rw [hl] at hb; cases hb
  | cons a rest =>
    rw [hl] at hb
    simp only [boundsOf, List.head?_cons, Option.bind_some, Option.map_eq_some_iff,
      Prod.mk.injEq] at hb
    obtain ⟨-, -, ha, -⟩ := hb
    exact ⟨a, List.mem_cons_self, ha⟩

/-- An exact row starts at the first live point of its series, when its rows lie well. -/
theorem ExactRow.startMs_le (h : t.ExactRow name x) (hwell : t.segments.SegmentsWell) :
    ∀ q ∈ t.live x.2.value.series, x.2.value.startMs ≤ q.ms := by
  have hb := h.bounds_eq
  have hasc := live_ascending hwell h.clean
  intro q hq
  cases hl : t.live x.2.value.series with
  | nil => rw [hl] at hq; cases hq
  | cons a rest =>
    rw [hl] at hb hasc hq
    simp only [boundsOf, List.head?_cons, Option.bind_some, Option.map_eq_some_iff,
      Prod.mk.injEq] at hb
    obtain ⟨-, -, ha, -⟩ := hb
    rcases List.mem_cons.mp hq with rfl | hq
    · omega
    · have := List.rel_of_pairwise_cons hasc hq
      omega

/-- A row of the statistics of a collection is a row of the table under its lowered name. -/
theorem mem_stats_of_mem_statsOf {c : String} (hx : x ∈ (t.statsOf c).rows) :
    ∃ c' ∈ t.stats, c'.1 = Text.lower c ∧ x ∈ c'.2.rows := by
  unfold statsOf ofCollection at hx
  cases hl : t.stats.lookup (Text.lower c) with
  | none => rw [hl] at hx; cases hx
  | some tbl =>
    rw [hl] at hx
    exact ⟨_, mem_of_lookup hl, rfl, hx⟩

theorem mem_statsOf_of_mem (hnames : (t.stats.map Prod.fst).Nodup) {c : String}
    {c' : String × Table StatsRow} (hc' : c' ∈ t.stats) (hname : c'.1 = Text.lower c)
    (hx : x ∈ c'.2.rows) : x ∈ (t.statsOf c).rows := by
  unfold statsOf ofCollection
  rw [← hname, lookup_of_mem hnames hc']
  exact hx

/-- The rows of one collection are among all rows of statistics that fix the fuel of a pass. -/
theorem length_statsOf_le (c : String) :
    (t.statsOf c).rows.length ≤ (t.stats.map fun x => x.2.size).sum := by
  unfold statsOf ofCollection
  cases hl : t.stats.lookup (Text.lower c) with
  | none => simp
  | some tbl =>
    exact List.le_sum_of_mem (List.mem_map.mpr ⟨_, mem_of_lookup hl, rfl⟩)

end Tables

/-! ## The series a batch picks -/

/-- Picking from a list, where each pick is the item's own value, gives a part of the values. -/
theorem List.filterMap_sublist_map {α β : Type} {f : α → Option β} {g : α → β} :
    ∀ {l : List α}, (∀ a ∈ l, ∀ b, f a = some b → b = g a) → (l.filterMap f).Sublist (l.map g)
  | [], _ => List.Sublist.slnil
  | a :: l, h => by
    have hl := List.filterMap_sublist_map fun a' ha' => h a' (List.mem_cons_of_mem a ha')
    rw [List.filterMap_cons, List.map_cons]
    cases hf : f a with
    | none => exact hl.cons _
    | some b =>
      rw [h a List.mem_cons_self b hf]
      exact hl.cons_cons _

namespace Tables

variable {t : Tables} {collection policy : String} {cutoff : Int}

/-- A series the index lists as starting before the cutoff has its row in the statistics of the
collection, of the policy and indexed before the cutoff. -/
theorem mem_seriesStartingBefore (hidx : (t.statsOf collection).IndexExact) {r : StatsRow}
    (h : r ∈ t.seriesStartingBefore collection policy cutoff) :
    ∃ x ∈ (t.statsOf collection).rows, x.2.value = r ∧ r.policy = Text.lower policy ∧
      ∃ i, x.2.index = some i ∧ i < cutoff := by
  unfold seriesStartingBefore at h
  obtain ⟨⟨i, k, row⟩, he, hrow⟩ := List.mem_filterMap.mp h
  have hval : row.value = r ∧ r.policy = Text.lower policy := by
    simp only at hrow
    split at hrow
    · next hp =>
      cases hrow
      exact ⟨rfl, by simpa using hp⟩
    · cases hrow
  have hlt : i < cutoff := by simpa using List.mem_takeWhile_imp he
  obtain ⟨hget, hi, -⟩ := hidx.mem_indexFrom.mp (List.takeWhile_subset _ he)
  exact ⟨(k, row), Table.mem_of_get? hget, hval.1, hval.2, i, hi, hlt⟩

/-- Each row of the policy indexed before the cutoff is listed: the index runs in order, so taking
while before the cutoff keeps every such row. -/
theorem mem_seriesStartingBefore_of (hsorted : (t.statsOf collection).Sorted)
    (hidx : (t.statsOf collection).IndexExact) {x : Key × Row StatsRow}
    (hx : x ∈ (t.statsOf collection).rows) {i : Int} (hi : x.2.index = some i) (hmin : I64.min ≤ i)
    (hlt : i < cutoff) (hp : x.2.value.policy = Text.lower policy) :
    x.2.value ∈ t.seriesStartingBefore collection policy cutoff := by
  unfold seriesStartingBefore
  rw [Table.takeWhile_eq_filter ((hidx.pairwise_index_le _).imp fun hab hb => by
    simp only [decide_eq_true_eq] at hb ⊢
    omega)]
  refine List.mem_filterMap.mpr ⟨(i, x.1, x.2), ?_, by simp [hp]⟩
  rw [List.mem_filter, hidx.mem_indexFrom]
  exact ⟨⟨hsorted.get?_of_mem hx, hi, hmin⟩, by simpa using hlt⟩

/-- The series listed are distinct when the table is keyed by series. -/
theorem nodup_seriesStartingBefore (hidx : (t.statsOf collection).IndexExact)
    (hkey : ∀ x ∈ (t.statsOf collection).rows, x.1 = x.2.value.series.key) :
    ((t.seriesStartingBefore collection policy cutoff).map fun r => r.series.key).Nodup := by
  unfold seriesStartingBefore
  rw [List.map_filterMap]
  refine ((List.filterMap_sublist_map fun e he b hb => ?_).trans
    ((List.takeWhile_sublist _).map _)).nodup (hidx.nodup_indexFrom_keys _)
  obtain ⟨i, k, row⟩ := e
  have hrow := (Table.mem_rows_of_mem_indexFrom (List.takeWhile_subset _ he)).1
  simp only at hb
  split at hb
  · cases hb
    exact (hkey _ hrow).symm
  · cases hb

/-- A series a batch picks is listed as starting before the cutoff, with no rollup due by it. -/
theorem listed_of_mem_seriesToRetain {take : Nat} {r : StatsRow}
    (h : r ∈ t.seriesToRetain collection policy cutoff take) :
    r ∈ t.seriesStartingBefore collection policy cutoff ∧
      t.hasPendingRollup r.series.key cutoff = false := by
  obtain ⟨hr, hdue⟩ := List.mem_filter.mp (List.mem_of_mem_take h)
  exact ⟨hr, by simpa using hdue⟩

theorem nodup_seriesToRetain (hidx : (t.statsOf collection).IndexExact)
    (hkey : ∀ x ∈ (t.statsOf collection).rows, x.1 = x.2.value.series.key) (take : Nat) :
    ((t.seriesToRetain collection policy cutoff take).map fun r => r.series.key).Nodup :=
  (((List.take_sublist _ _).trans List.filter_sublist).map _).nodup
    (nodup_seriesStartingBefore hidx hkey)

/-- A batch of some size comes out empty only when every series listed has a rollup due by the
cutoff. -/
theorem pending_of_seriesToRetain_eq_nil {take : Nat} (htake : 0 < take)
    (h : t.seriesToRetain collection policy cutoff take = []) :
    ∀ r ∈ t.seriesStartingBefore collection policy cutoff,
      t.hasPendingRollup r.series.key cutoff = true := by
  unfold seriesToRetain at h
  rw [List.take_eq_nil_iff] at h
  rcases h with h | h
  · omega
  · intro r hr
    simpa using List.filter_eq_nil_iff.mp h r hr

end Tables

/-! ## Retention passes -/

/-- A pass of retention: the collection and the policy whose series it trims, up to a cutoff. -/
structure RetentionPass where
  collection : String
  policy : String
  cutoff : Int

namespace RetentionPass

variable (P : RetentionPass) (t : Tables)

/-- What tells passes apart: the names of the table and of the policy that the pass reads. -/
def key : String × String := (Text.lower P.collection, Text.lower P.policy)

/-- Whether the pass still has to trim a row: of its policy, starting before the cutoff, with no
rollup due by the cutoff. -/
def due (x : Key × Row StatsRow) : Bool :=
  x.2.value.policy == Text.lower P.policy && decide (x.2.value.startMs < P.cutoff) &&
    !t.hasPendingRollup x.2.value.series.key P.cutoff

/-- The keys of the rows the pass still has to trim. -/
def dueKeys : Finset Key := (((t.statsOf P.collection).rows.filter (P.due t)).map Prod.fst).toFinset

/-- The pass is done: every series of its policy has a rollup due by the cutoff or no live point
before it. -/
def Done : Prop :=
  ∀ x ∈ (t.statsOf P.collection).rows, x.2.value.policy = Text.lower P.policy →
    t.hasPendingRollup x.2.value.series.key P.cutoff = true ∨
      ∀ q ∈ t.live x.2.value.series, P.cutoff ≤ q.ms

/-- The pass reads a row of statistics under the key of `s`. -/
def Lists (s : SeriesRef) : Prop :=
  ∃ x ∈ (t.statsOf P.collection).rows, x.1 = s.key ∧ x.2.value.policy = Text.lower P.policy

variable {P t}

theorem mem_dueKeys {k : Key} :
    k ∈ P.dueKeys t ↔ ∃ x ∈ (t.statsOf P.collection).rows, P.due t x = true ∧ x.1 = k := by
  simp [dueKeys, and_assoc]

theorem card_dueKeys_le : (P.dueKeys t).card ≤ (t.stats.map fun x => x.2.size).sum :=
  calc (P.dueKeys t).card
      ≤ (((t.statsOf P.collection).rows.filter (P.due t)).map Prod.fst).length :=
        List.toFinset_card_le _
    _ ≤ (t.statsOf P.collection).rows.length := by
        rw [List.length_map]
        exact List.length_filter_le _ _
    _ ≤ _ := length_statsOf_le _

theorem I64_min_le_minMillis : I64.min ≤ Instant.minMillis := by
  norm_num [I64.min, Instant.minMillis]

/-- A batch of some size that comes out empty leaves the pass done. -/
theorem done_of_seriesToRetain_eq_nil (hwell : t.segments.SegmentsWell) (hexact : t.StatsExact)
    {take : Nat} (htake : 0 < take) (h : t.seriesToRetain P.collection P.policy P.cutoff take = []) :
    P.Done t := by
  intro x hx hp
  obtain ⟨c, hc, -, hxc⟩ := mem_stats_of_mem_statsOf hx
  have hxe := hexact.rows c hc x hxc
  by_cases hlt : x.2.value.startMs < P.cutoff
  · -- the series is listed, so its rollup is due
    left
    obtain ⟨q, hq, hqms⟩ := hxe.startMs_mem
    have hmin := (live_in_range hwell hxe.clean hq).1
    exact pending_of_seriesToRetain_eq_nil htake h _ (mem_seriesStartingBefore_of
      (sorted_lookup hexact.sorted _) (indexed_lookup hexact.indexed _) hx hxe.index_eq
      (by have := I64_min_le_minMillis; omega) hlt hp)
  · exact .inr fun q hq => by have := hxe.startMs_le hwell q hq; omega

/-- The first series of a batch is due: it starts past the first instant and before the
cutoff. -/
theorem due_of_mem_seriesToRetain (hwell : t.segments.SegmentsWell) (hexact : t.StatsExact)
    {take : Nat} {r : StatsRow} (hr : r ∈ t.seriesToRetain P.collection P.policy P.cutoff take) :
    ∃ c ∈ t.stats, c.1 = Text.lower P.collection ∧ ∃ x ∈ c.2.rows, x.2.value = r ∧
      r.policy = Text.lower P.policy ∧ x.1 ∈ P.dueKeys t ∧
      Instant.minMillis ≤ r.startMs ∧ r.startMs < P.cutoff := by
  obtain ⟨hlisted, hfree⟩ := listed_of_mem_seriesToRetain hr
  obtain ⟨x, hx, rfl, hp, i, hi, hlt⟩ :=
    mem_seriesStartingBefore (indexed_lookup hexact.indexed _) hlisted
  obtain ⟨c, hc, hname, hxc⟩ := mem_stats_of_mem_statsOf hx
  have hxe := hexact.rows c hc x hxc
  rw [hxe.index_eq, Option.some.injEq] at hi
  obtain ⟨q, hq, hqms⟩ := hxe.startMs_mem
  have hmin := (live_in_range hwell hxe.clean hq).1
  refine ⟨c, hc, hname, x, hxc, rfl, hp, mem_dueKeys.mpr ⟨x, hx, ?_, rfl⟩, by omega, by omega⟩
  simp [due, hp, hfree]
  omega

/-- Series a batch of the pass has yet to trim: of distinct keys and untouched since the start
of the run `t₀`, each with its row in the table of the pass and of its policy. -/
def Batch (P : RetentionPass) (t₀ t : Tables) (rs : List StatsRow) : Prop :=
  (rs.map fun r => r.series.key).Nodup ∧ ∀ r ∈ rs,
    t.segments.under r.series.pre = t₀.segments.under r.series.pre ∧
      ∃ c ∈ t.stats, c.1 = Text.lower P.collection ∧ ∃ x ∈ c.2.rows, x.2.value = r ∧
        r.policy = Text.lower P.policy

end RetentionPass

/-! ## What a trim leaves -/

namespace Txn.RangeTrimmed

variable {s : SeriesRef} {T : Int} {t t' : Tables} {res : Option String}

/-- A trim keeps, of every clean series, only live points it had. -/
theorem live_subset {fromMs : Int} (htr : RangeTrimmed s fromMs T t t' res)
    (hsp : ∀ r : SeriesRef, r.Clean ∧ r.key ≠ s.key → Spares r t t') {r : SeriesRef}
    (hr : r.Clean) : ∀ q ∈ t'.live r, q ∈ t.live r := by
  intro q hq
  by_cases hk : r.key = s.key
  · rw [live_eq_of_key_eq t' hk, htr.live] at hq
    rw [live_eq_of_key_eq t hk]
    exact (List.mem_filter.mp hq).1
  · rwa [live_congr (hsp r ⟨hr, hk⟩).segments] at hq

/-- After trimming a series up to the cutoff of a pass, its rows start past the cutoff: the
pass has no more to trim of it, and nothing new. -/
theorem dueKeys_subset (htr : RangeTrimmed s Instant.minMillis T t t' res)
    (hwell : t.segments.SegmentsWell) (hexact : t.StatsExact) (hs : s.Clean)
    {P : RetentionPass} (hT : P.cutoff = T) : P.dueKeys t' ⊆ (P.dueKeys t).erase s.key := by
  intro k hk
  obtain ⟨y, hy, hdue, rfl⟩ := RetentionPass.mem_dueKeys.mp hk
  obtain ⟨c', hc', hname, hy'⟩ := mem_stats_of_mem_statsOf hy
  have hye := htr.exact.rows c' hc' y hy'
  simp only [RetentionPass.due, Bool.and_eq_true, beq_iff_eq, decide_eq_true_eq,
    Bool.not_eq_true'] at hdue
  obtain ⟨⟨hp, hlt⟩, hfree⟩ := hdue
  -- the rows of the series trimmed start past the cutoff
  have hkey : y.1 ≠ s.key := by
    intro hk
    obtain ⟨q, hq, hqms⟩ := hye.startMs_mem
    rw [live_eq_of_key_eq t' (hye.key_eq ▸ hk), htr.live, live_filter_within hwell hs] at hq
    have := (List.mem_filter.mp hq).2
    simp only [decide_eq_true_eq] at this
    omega
  refine Finset.mem_erase.mpr ⟨hkey, RetentionPass.mem_dueKeys.mpr ⟨y, ?_, ?_, rfl⟩⟩
  · rcases htr.stats c' hc' y hy' with ⟨c, hc, hcname, hyc⟩ | ⟨-, hk, -⟩
    · exact mem_statsOf_of_mem hexact.names hc (hcname.trans hname) hyc
    · exact absurd hk hkey
  · -- a rollup due by the cutoff before stays due
    have hfree' : t.hasPendingRollup y.2.value.series.key P.cutoff = false := by
      cases hpend : t.hasPendingRollup y.2.value.series.key P.cutoff
      · rfl
      · rw [htr.sooner _ _ hpend] at hfree
        cases hfree
    simp [RetentionPass.due, hp, hlt, hfree']

end Txn.RangeTrimmed

/-! ## The state of a retention run -/

/-- A fresh local change vector is ahead of the one every segment row of `t` carries: stamping
the vector of `v` with the entry of node `n` of database `d` at a 64-bit etag not yet given out
gives a vector whose comparison with the row's is known and is not "already merged". -/
def Versions.AheadOf (v : Versions) (n d : String) (t : Tables) : Prop :=
  ∀ r ∈ t.segments.rows, ∀ e, v.lastEtag < e → e ≤ I64.max → ∃ st,
    conflictStatus (v.changeVector.observe ⟨n, e, d⟩).render r.2.value.changeVector = .ok st ∧
      st ≠ .alreadyMerged

/-- The etags a deletion of one series from `t`, or from tables holding its rows, may give out:
two more than the segment rows (`Txn.deleteRange_takes`). -/
def Tables.deletionEtags (t : Tables) : Nat := t.segments.size + 2

/-- The state of a retention run started from the tables `t₀` and the versions `v₀` on node `n`
of database `d`, with the passes `H` begun and the passes `D` done. -/
structure RetentionState (n d : String) (t₀ : Tables) (v₀ : Versions) (H D : List RetentionPass)
    (t : Tables) (v : Versions) : Prop where
  well : t.segments.SegmentsWell
  exact : t.StatsExact
  stamped : Stamped n d v₀ v
  listed : ∀ c ∈ t.stats, ∀ x ∈ c.2.rows, ∃ c₀ ∈ t₀.stats, c₀.1 = c.1 ∧
    ∃ x₀ ∈ c₀.2.rows, x₀.1 = x.1 ∧ x₀.2.value.policy = x.2.value.policy
  history : ∀ s : SeriesRef, s.Clean → t.segments.under s.pre = t₀.segments.under s.pre ∨
    ∃ P ∈ H, P.Lists t₀ s ∧ t.live s = (t₀.live s).filter fun q => P.cutoff < q.ms
  done : ∀ P ∈ D, P.Done t

namespace RetentionState

variable {n d : String} {t₀ t : Tables} {v₀ v : Versions} {H D : List RetentionPass}
  {P : RetentionPass}

/-- A run starts from tables whose segments are well kept and statistics exact. -/
theorem start (hwell : t₀.segments.SegmentsWell) (hexact : t₀.StatsExact) :
    RetentionState n d t₀ v₀ [] [] t₀ v₀ :=
  ⟨hwell, hexact, Stamped.refl v₀, fun c hc x hx => ⟨c, hc, rfl, x, hx, rfl, rfl⟩,
    fun _ _ => .inl rfl, fun _ h => nomatch h⟩

theorem enter (h : RetentionState n d t₀ v₀ H D t v) (P : RetentionPass) :
    RetentionState n d t₀ v₀ (P :: H) D t v :=
  { h with
    history := fun s hs => (h.history s hs).imp_right fun ⟨P', hP', hl⟩ =>
      ⟨P', List.mem_cons_of_mem P hP', hl⟩ }

theorem leave (h : RetentionState n d t₀ v₀ H D t v) (hP : P.Done t) :
    RetentionState n d t₀ v₀ H (P :: D) t v :=
  { h with done := fun P' hP' => (List.mem_cons.mp hP').elim (fun h => h ▸ hP) (h.done P') }

/-- The series a pass still has to trim are among the rows of statistics at the start of the
run: rows are trimmed or dropped, never added. -/
theorem card_dueKeys_le_start (h : RetentionState n d t₀ v₀ H D t v) (P' : RetentionPass) :
    (P'.dueKeys t).card ≤ (t₀.stats.map fun x => x.2.size).sum := by
  have hsub : P'.dueKeys t ⊆ (t₀.stats.flatMap fun c => c.2.rows.map Prod.fst).toFinset := by
    intro k hk
    obtain ⟨x, hx, -, rfl⟩ := RetentionPass.mem_dueKeys.mp hk
    obtain ⟨c, hc, -, hxc⟩ := mem_stats_of_mem_statsOf hx
    obtain ⟨c₀, hc₀, -, x₀, hx₀, hk₀, -⟩ := h.listed c hc x hxc
    rw [List.mem_toFinset, List.mem_flatMap]
    exact ⟨c₀, hc₀, List.mem_map.mpr ⟨x₀, hx₀, hk₀⟩⟩
  calc (P'.dueKeys t).card
      ≤ (t₀.stats.flatMap fun c => c.2.rows.map Prod.fst).toFinset.card := Finset.card_le_card hsub
    _ ≤ (t₀.stats.flatMap fun c => c.2.rows.map Prod.fst).length := List.toFinset_card_le _
    _ = (t₀.stats.map fun x => x.2.size).sum := by simp [List.length_flatMap, Table.size]

variable {t' : Tables} {v' : Versions}

/-- One trim of an untouched series of the pass, picked from its row in the statistics, keeps
the state of the run. -/
theorem trim (h : RetentionState n d t₀ v₀ (P :: D) D t v) (h₀ : t₀.StatsExact)
    {c : String × Table StatsRow} (hc : c ∈ t.stats) (hname : c.1 = Text.lower P.collection)
    {x : Key × Row StatsRow} (hx : x ∈ c.2.rows) (hp : x.2.value.policy = Text.lower P.policy)
    (huntouched : t.segments.under x.2.value.series.pre = t₀.segments.under x.2.value.series.pre)
    {res : Option String} (htr : Txn.RangeTrimmed x.2.value.series Instant.minMillis P.cutoff t t' res)
    (hsp : ∀ r : SeriesRef, r.Clean ∧ r.key ≠ x.2.value.series.key → Spares r t t')
    (hv : Stamped n d v v') : RetentionState n d t₀ v₀ (P :: D) D t' v' := by
  have hxe := h.exact.rows c hc x hx
  refine ⟨htr.well, htr.exact, h.stamped.trans hv, fun c' hc' y hy => ?_, fun r hr => ?_,
    fun P' hP' => ?_⟩
  · -- an old row is listed as before; the new row of the series as its old row was
    rcases htr.stats c' hc' y hy with ⟨c₁, hc₁, hname₁, hy₁⟩ | ⟨hname', hk, hser⟩
    · obtain ⟨c₀, hc₀, h₀', rest⟩ := h.listed c₁ hc₁ y hy₁
      exact ⟨c₀, hc₀, h₀'.trans hname₁, rest⟩
    · obtain ⟨c₀, hc₀, h₀', x₀, hx₀, hk₀, hp₀⟩ := h.listed c hc x hx
      refine ⟨c₀, hc₀, by rw [h₀', hname', hxe.collection_eq], x₀, hx₀,
        by rw [hk₀, hk, hxe.key_eq], ?_⟩
      rw [hp₀, hxe.policy_eq, (htr.exact.rows c' hc' y hy).policy_eq, hser]
  · -- the series and those of its key are trimmed now, by this pass; the others are spared
    by_cases hk : r.key = x.2.value.series.key
    · obtain ⟨c₀, hc₀, h₀', x₀, hx₀, hk₀, hp₀⟩ := h.listed c hc x hx
      refine .inr ⟨P, List.mem_cons_self, ⟨x₀, mem_statsOf_of_mem h₀.names hc₀ (h₀'.trans hname) hx₀,
        by rw [hk₀, hxe.key_eq, hk], by rw [hp₀, hp]⟩, ?_⟩
      rw [live_eq_of_key_eq t' hk, htr.live, live_filter_within h.well hxe.clean,
        live_congr huntouched, live_eq_of_key_eq t₀ hk]
    · rcases h.history r hr with hu | ⟨P', hP', hl, hlive⟩
      · exact .inl ((hsp r ⟨hr, hk⟩).segments.trans hu)
      · exact .inr ⟨P', hP', hl, (live_congr (hsp r ⟨hr, hk⟩).segments).trans hlive⟩
  · -- a done pass stays done: its rows are old ones, or the new row of the series, which has
    -- the table and the policy of its old row
    intro y hy hyp
    obtain ⟨c', hc', hname', hy'⟩ := mem_stats_of_mem_statsOf hy
    have hye := htr.exact.rows c' hc' y hy'
    have hsub := htr.live_subset hsp hye.clean
    rcases htr.stats c' hc' y hy' with ⟨c₁, hc₁, hname₁, hy₁⟩ | ⟨hname'', -, hser⟩
    · rcases h.done P' hP' y (mem_statsOf_of_mem h.exact.names hc₁ (hname₁.trans hname') hy₁)
        hyp with hpend | hall
      · exact .inl (htr.sooner _ _ hpend)
      · exact .inr fun q hq => hall q (hsub q hq)
    · have hxin : x ∈ (t.statsOf P'.collection).rows :=
        mem_statsOf_of_mem h.exact.names hc (by rw [← hxe.collection_eq, ← hname'', hname']) hx
      have hxp : x.2.value.policy = Text.lower P'.policy := by
        rw [hxe.policy_eq, ← hser, ← hye.policy_eq, hyp]
      rw [hser] at hsub ⊢
      rcases h.done P' hP' x hxin hxp with hpend | hall
      · exact .inl (htr.sooner _ _ hpend)
      · exact .inr fun q hq => hall q (hsub q hq)

/-- A series of the pass whose row starts before the cutoff is untouched: no pass done lists it,
their keys being distinct from this one's, and this pass trimmed none of its points before the
cutoff. -/
theorem untouched (h : RetentionState n d t₀ v₀ (P :: D) D t v) (h₀ : t₀.StatsExact)
    (hD : P.key ∉ D.map RetentionPass.key) {c : String × Table StatsRow} (hc : c ∈ t.stats)
    (hname : c.1 = Text.lower P.collection) {x : Key × Row StatsRow} (hx : x ∈ c.2.rows)
    (hp : x.2.value.policy = Text.lower P.policy) (hlt : x.2.value.startMs < P.cutoff) :
    t.segments.under x.2.value.series.pre = t₀.segments.under x.2.value.series.pre := by
  have hxe := h.exact.rows c hc x hx
  rcases h.history _ hxe.clean with hu | ⟨P', hP', ⟨y₀, hy₀, hky, hpy⟩, hlive⟩
  · exact hu
  rcases List.mem_cons.mp hP' with rfl | hP'
  · -- this pass left only points past the cutoff, where the row starts before it
    obtain ⟨q, hq, hqms⟩ := hxe.startMs_mem
    rw [hlive] at hq
    have := (List.mem_filter.mp hq).2
    simp only [decide_eq_true_eq] at this
    omega
  · -- a pass done listed the series: the row it read is the one this pass reads
    obtain ⟨c₀, hc₀, h₀', x₀, hx₀, hk₀, hp₀⟩ := h.listed c hc x hx
    obtain ⟨c₁, hc₁, hname₁, hy₁⟩ := mem_stats_of_mem_statsOf hy₀
    have hkey : y₀.1 = x₀.1 := by rw [hky, hk₀, hxe.key_eq]
    have hsame := h₀.single c₁ hc₁ c₀ hc₀ y₀ hy₁ x₀ hx₀ hkey
    have htbl : c₁.2 = c₀.2 := Option.some.inj
      ((lookup_of_mem h₀.names hc₁).symm.trans (hsame ▸ lookup_of_mem h₀.names hc₀))
    have hrow : y₀ = x₀ := Table.Ordered.eq_of_key_eq (h₀.sorted c₀ hc₀) (htbl ▸ hy₁) hx₀ hkey
    refine absurd (List.mem_map.mpr ⟨P', hP', ?_⟩) hD
    simp only [RetentionPass.key, Prod.mk.injEq]
    exact ⟨by rw [← hname₁, hsame, h₀', hname], by rw [← hpy, hrow, hp₀, hp]⟩

variable {ctx : Context}

/-- Deleting the expired samples of an untouched series of the pass, picked from its row in the
statistics, succeeds while the etag counter has room, keeps the state of the run, and gives out
at most `t₀.deletionEtags` etags. -/
theorem delete (h : RetentionState n d t₀ v₀ (P :: D) D t v) (h₀ : t₀.StatsExact)
    (hahead : v₀.AheadOf n d t₀) (hn : ctx.settings.nodeTag = n)
    (hd : ctx.settings.databaseId = d) (hgrid : Configuration.GridsOk ctx.configuration)
    (hroom : v.lastEtag + 1 ≤ I64.max)
    (hT : Instant.minMillis ≤ P.cutoff) {c : String × Table StatsRow} (hc : c ∈ t.stats)
    (hname : c.1 = Text.lower P.collection) {x : Key × Row StatsRow} (hx : x ∈ c.2.rows)
    (hp : x.2.value.policy = Text.lower P.policy)
    (huntouched : t.segments.under x.2.value.series.pre = t₀.segments.under x.2.value.series.pre) :
    Txn.Succeeds (Txn.deleteRange x.2.value.series Instant.minMillis P.cutoff none) ctx t v
      fun res t' v' => RetentionState n d t₀ v₀ (P :: D) D t' v' ∧
        Txn.RangeTrimmed x.2.value.series Instant.minMillis P.cutoff t t' res ∧
        (∀ r : SeriesRef, r.Clean ∧ r.key ≠ x.2.value.series.key → Spares r t t') ∧
        v.lastEtag ≤ v'.lastEtag ∧ v'.lastEtag ≤ v.lastEtag + t₀.deletionEtags := by
  subst hn hd
  have hxe := h.exact.rows c hc x hx
  -- every row of the key of the series is in the table of its collection
  have hhome : ∀ c' ∈ t.stats, ∀ y ∈ c'.2.rows, y.1 = x.2.value.series.key →
      c'.1 = Text.lower x.2.value.series.collection := fun c' hc' y hy hk => by
    rw [h.exact.single c' hc' c hc y hy x hx (hk.trans hxe.key_eq.symm), hxe.collection_eq]
  -- its rows are those of the start, behind a fresh local change vector
  have hfresh : ∀ r ∈ t.segments.under x.2.value.series.pre, ∃ st, conflictStatus
      (v.changeVector.observe ⟨ctx.settings.nodeTag, v.lastEtag + 1, ctx.settings.databaseId⟩).render
        r.2.value.changeVector = .ok st ∧ st ≠ .alreadyMerged := by
    intro r hr
    rw [huntouched] at hr
    rw [h.stamped.observe_eq (by omega)]
    exact hahead r (List.mem_filter.mp hr).1 _ (by have := h.stamped.1; omega) hroom
  refine ((Txn.deleteRange_trims hxe.clean hxe.valid hT (fits_of_inRange ⟨le_rfl, by decide⟩) hgrid
    h.well h.exact hhome hfresh).runs Txn.deleteRange_takes).mono ?_
  rintro res t' v' ⟨⟨⟨htr, hv'⟩, hsp⟩, hetags⟩
  -- the rows of the series are those of the start, at most all the rows there
  have hrows : (t.segments.under x.2.value.series.pre).length ≤ t₀.segments.size := by
    rw [huntouched]
    exact List.length_filter_le _ _
  refine ⟨h.trim h₀ hc hname hx hp huntouched htr hsp hv', htr, hsp, hv'.1, ?_⟩
  unfold Tables.deletionEtags
  omega

/-- The batch a pass picks: distinct untouched series of its policy, with their rows. -/
theorem batch (h : RetentionState n d t₀ v₀ (P :: D) D t v) (h₀ : t₀.StatsExact)
    (hD : P.key ∉ D.map RetentionPass.key) (take : Nat) :
    P.Batch t₀ t (t.seriesToRetain P.collection P.policy P.cutoff take) := by
  refine ⟨nodup_seriesToRetain (indexed_lookup h.exact.indexed _) (fun x hx => ?_) take,
    fun r hr => ?_⟩
  · obtain ⟨c, hc, -, hxc⟩ := mem_stats_of_mem_statsOf hx
    exact (h.exact.rows c hc x hxc).key_eq
  · obtain ⟨x, hx, rfl, hp, i, hi, hlt⟩ :=
      mem_seriesStartingBefore (indexed_lookup h.exact.indexed _) (listed_of_mem_seriesToRetain hr).1
    obtain ⟨c, hc, hname, hxc⟩ := mem_stats_of_mem_statsOf hx
    have hxe := h.exact.rows c hc x hxc
    rw [hxe.index_eq, Option.some.injEq] at hi
    exact ⟨h.untouched h₀ hD hc hname hxc hp (hi ▸ hlt), c, hc, hname, x, hxc, rfl, hp⟩

end RetentionState

/-- The rest of a batch after its first series is trimmed: still untouched, with their rows. -/
theorem RetentionPass.Batch.trim {P : RetentionPass} {t₀ t t' : Tables} {r : StatsRow}
    {rs : List StatsRow} (hb : P.Batch t₀ t (r :: rs)) (hexact : t.StatsExact) {res : Option String}
    (htr : Txn.RangeTrimmed r.series Instant.minMillis P.cutoff t t' res)
    (hsp : ∀ r' : SeriesRef, r'.Clean ∧ r'.key ≠ r.series.key → Spares r' t t') :
    P.Batch t₀ t' rs := by
  obtain ⟨hnodup, hrs⟩ := hb
  rw [List.map_cons, List.nodup_cons] at hnodup
  refine ⟨hnodup.2, fun r' hr' => ?_⟩
  obtain ⟨hu, c, hc, hname, x, hx, rfl, hp⟩ := hrs _ (List.mem_cons_of_mem r hr')
  have hxe := hexact.rows c hc x hx
  have hne : x.2.value.series.key ≠ r.series.key := fun he =>
    hnodup.1 (List.mem_map.mpr ⟨_, hr', he⟩)
  obtain ⟨c', hc', hname', hx'⟩ := htr.kept c hc x hx (by rw [hxe.key_eq]; exact hne)
  exact ⟨(hsp _ ⟨hxe.clean, hne⟩).segments.trans hu, c', hc', hname'.trans hname, x, hx', rfl, hp⟩

namespace RetentionState

variable {n d : String} {t₀ t : Tables} {v₀ v : Versions} {D : List RetentionPass}
  {P : RetentionPass} {ctx : Context}

/-- A batch whose first series has a live point up to the cutoff: trimming its series one after
another, while the etag counter has room for each deletion, keeps the state of the run, counts
at least the first, leaves that one due no more and nothing newly due, and gives out at most
`t₀.deletionEtags` etags a series. -/
theorem retain (h : RetentionState n d t₀ v₀ (P :: D) D t v) (h₀ : t₀.StatsExact)
    (hahead : v₀.AheadOf n d t₀) (hn : ctx.settings.nodeTag = n)
    (hd : ctx.settings.databaseId = d) (hgrid : Configuration.GridsOk ctx.configuration)
    (hT : Instant.minMillis ≤ P.cutoff) {r₀ : StatsRow} {rest : List StatsRow}
    (hroom : v.lastEtag + (r₀ :: rest).length * t₀.deletionEtags ≤ I64.max)
    (hb : P.Batch t₀ t (r₀ :: rest))
    (hfirst : ∃ q ∈ t.live r₀.series, q.within Instant.minMillis P.cutoff = true) :
    Txn.Succeeds (Txn.retain (r₀ :: rest) P.cutoff) ctx t v fun k t' v' =>
      RetentionState n d t₀ v₀ (P :: D) D t' v' ∧ 0 < k ∧
        P.dueKeys t' ⊆ (P.dueKeys t).erase r₀.series.key ∧
        v'.lastEtag ≤ v.lastEtag + (r₀ :: rest).length * t₀.deletionEtags := by
  unfold Txn.retain
  have hC : 2 ≤ t₀.deletionEtags := Nat.le_add_left 2 _
  -- over the series left: the state, the batch left, nothing newly due, room for the deletions
  -- left, and the first series either still to come with a live point in the range, or counted
  -- and due no more
  refine (Txn.Succeeds.foldlM (I := fun rs k t' v' =>
      RetentionState n d t₀ v₀ (P :: D) D t' v' ∧ P.Batch t₀ t' rs ∧ P.dueKeys t' ⊆ P.dueKeys t ∧
        v'.lastEtag + rs.length * t₀.deletionEtags ≤
          v.lastEtag + (r₀ :: rest).length * t₀.deletionEtags ∧
        (rs = r₀ :: rest ∧ (∃ q ∈ t'.live r₀.series, q.within Instant.minMillis P.cutoff = true) ∨
          0 < k ∧ r₀.series.key ∉ P.dueKeys t')) ?_ (r₀ :: rest) 0 t v
    ⟨h, hb, subset_rfl, le_refl _, .inl ⟨rfl, hfirst⟩⟩).mono ?_
  · rintro r rs k t₁ v₁ ⟨h₁, hb₁, hsub₁, hroom₁, hfirst₁⟩
    obtain ⟨hu, c, hc, hname, x, hx, hxr, hp⟩ := hb₁.2 r List.mem_cons_self
    subst hxr
    have hcons : (x.2.value :: rs).length * t₀.deletionEtags =
        rs.length * t₀.deletionEtags + t₀.deletionEtags := by
      rw [List.length_cons, Nat.succ_mul]
    refine Txn.Succeeds.bind (h₁.delete h₀ hahead hn hd hgrid (by omega) hT hc hname hx hp hu) ?_
    rintro res t₂ v₂ ⟨h₂, htr, hsp, -, hetags⟩
    have hroom₂ : v₂.lastEtag + rs.length * t₀.deletionEtags ≤
        v.lastEtag + (r₀ :: rest).length * t₀.deletionEtags := by omega
    have hdue := htr.dueKeys_subset h₁.well h₁.exact (h₁.exact.rows c hc x hx).clean rfl
    have hb₂ := hb₁.trim h₁.exact htr hsp
    have hsub₂ : P.dueKeys t₂ ⊆ P.dueKeys t := hdue.trans ((Finset.erase_subset _ _).trans hsub₁)
    -- the first series, trimmed now or before, is due no more
    have hnot : r₀.series.key ∉ P.dueKeys t₁ ∨ r₀ = x.2.value → r₀.series.key ∉ P.dueKeys t₂ := by
      rintro (hnot | rfl) hk
      · exact hnot ((Finset.erase_subset _ _) (hdue hk))
      · exact (Finset.mem_erase.mp (hdue hk)).1 rfl
    cases res with
    | some val =>
      refine Txn.Succeeds.pure _ ⟨h₂, hb₂, hsub₂, hroom₂, .inr ⟨by omega, hnot ?_⟩⟩
      rcases hfirst₁ with ⟨heq, -⟩ | ⟨-, hnot₁⟩
      · exact .inr (List.cons.inj heq).1.symm
      · exact .inl hnot₁
    | none =>
      rcases hfirst₁ with ⟨heq, hq⟩ | ⟨hk, hnot₁⟩
      · -- the first series had a live point in the range, so its deletion answers
        obtain ⟨rfl, -⟩ := List.cons.inj heq
        cases htr.answer hq
      · exact Txn.Succeeds.pure _ ⟨h₂, hb₂, hsub₂, hroom₂, .inr ⟨hk, hnot (.inl hnot₁)⟩⟩
  · rintro k t' v' ⟨h', -, hsub, hroom', hfirst'⟩
    simp only [List.length_nil, Nat.cast_zero, zero_mul, add_zero] at hroom'
    rcases hfirst' with ⟨heq, -⟩ | ⟨hk, hnot⟩
    · cases heq
    · exact ⟨h', hk, fun y hy => Finset.mem_erase.mpr ⟨fun he => hnot (he ▸ hy), hsub hy⟩, hroom'⟩

end RetentionState

end SeriesStore
