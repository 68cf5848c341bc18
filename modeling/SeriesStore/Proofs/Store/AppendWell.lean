import Mathlib
import SeriesStore.Proofs.Store.SegmentsWell
import SeriesStore.Proofs.Store.SideTables
import SeriesStore.Proofs.Store.WriteFaults

/-!
# Appending keeps the segment table well kept

A write of samples goes run by run. Each run starts at its first point and stops before the
next segment; it is written at the last segment at or before its first point (the *holder*):
appended to it when it comes after its last sample, else merged with its samples and packed
anew from its baseline, or opened as new segments when there is no holder. Every way stores
segments in the gap between the holder's baseline and the next segment, so each keeps the
table well kept (`writeRuns_well`), and so does a whole write of samples (`appendSamples_well`).
-/

namespace SeriesStore

open StoredRow

namespace StoredRow

/-- Where the rows above a key start: the baseline of the first of them, or past the range of
instants when there is none. -/
def nextStart (rows : List (Key × Row SegmentRow)) (c : Key) : Int :=
  (((rows.filter fun x => Key.lt c x.1).head?).map baseline).getD (Instant.maxMillis + 1)

end StoredRow

section Neighbours

variable {pre : Key} {rows : List (Key × Row SegmentRow)} {c : Key}

theorem SeriesWell.baselineOf_eq (h : SeriesWell pre rows) {r : Key × Row SegmentRow}
    (hr : r ∈ rows) : Key.baselineOf r.1 = some (baseline r) := by
  obtain ⟨b, es, hb⟩ := h.layout.holds r hr
  rw [hb.key_eq, Key.baselineOf_segmentOfPrefix pre hb.fits, hb.baseline_eq]

/-- Every row above a key starts at or past where the first of them starts. -/
theorem SeriesWell.nextStart_le (h : SeriesWell pre rows) {x : Key × Row SegmentRow}
    (hx : x ∈ rows) (hcx : Key.lt c x.1 = true) : nextStart rows c ≤ baseline x := by
  cases hn : (rows.filter fun x => Key.lt c x.1).head? with
  | none =>
    have hmem : x ∈ rows.filter fun x => Key.lt c x.1 := List.mem_filter.mpr ⟨hx, hcx⟩
    rw [List.head?_eq_none_iff.mp hn] at hmem
    cases hmem
  | some n =>
    rw [nextStart, hn]
    exact h.baseline_head_le hn x hx hcx

/-- Every point of a row at or below a key lies before the rows above it start. -/
theorem SeriesWell.lt_nextStart (hord : Table.Ordered rows) (h : SeriesWell pre rows)
    {r : Key × Row SegmentRow} (hr : r ∈ rows) (hle : Key.le r.1 c = true) {p : Point}
    (hp : p ∈ points r) : p.ms < nextStart rows c := by
  cases hn : (rows.filter fun x => Key.lt c x.1).head? with
  | none =>
    have := ((h.starts r hr).in_range p hp).2
    rw [nextStart, hn]
    simp only [Option.map_none, Option.getD_none]
    omega
  | some n =>
    rw [nextStart, hn]
    obtain ⟨hn', hcn⟩ := List.mem_filter.mp (List.mem_of_mem_head? hn)
    exact Table.Ordered.rel_of_lt hord h.layout.chain hr hn' (Key.lt_of_le_of_lt hle hcn) p hp

end Neighbours

namespace StoredRow

/-- The first stored point of a row that starts at its baseline is at the baseline. -/
theorem Holds.points_eq_cons {pre : Key} {b : Int} {es : List Entry} {r : Key × Row SegmentRow}
    (hb : Holds pre b es r) (hst : Starts r) : ∃ x xs, points r = x :: xs ∧ x.ms = b := by
  obtain ⟨p, hp, hpb⟩ := hst.at_baseline
  rw [hb.baseline_eq] at hpb
  obtain ⟨x, xs, hxs⟩ := List.exists_cons_of_ne_nil (List.ne_nil_of_mem hp)
  refine ⟨x, xs, hxs, le_antisymm ?_ (hb.baseline_le (hxs ▸ List.mem_cons_self))⟩
  have hasc := hb.ascending_points
  rw [hxs] at hasc hp
  rcases List.mem_cons.mp hp with rfl | hp
  · exact hpb.le
  · exact hpb ▸ le_of_lt ((List.pairwise_cons.mp hasc).1 p hp)

end StoredRow

namespace Tables

/-- Where a run of a write that starts at the instant `ms` stops: the baseline of the series'
first segment above that instant, or the last instant of the range when there is none. -/
def nextBaseline (t : Tables) (pre : Key) (ms : Int) : Int :=
  (((t.segments.seekAfter pre (Key.segmentOfPrefix pre ms)).head?).bind
    fun x => Key.baselineOf x.1).getD Instant.maxMillis

/-- In a well-kept table, the run from an instant of the range holds its first point exactly
when the instant is not the last one: a segment above the instant starts past it and no later
than the end of the range, and with none the run stops at the end of the range. -/
theorem lt_nextBaseline_iff {t : Tables} (ht : t.segments.SegmentsWell) {s : SeriesRef}
    (hs : s.Clean) {ms : Int} (hms : Instant.minMillis ≤ ms ∧ ms ≤ Instant.maxMillis) :
    ms < t.nextBaseline s.pre ms ↔ ms < Instant.maxMillis := by
  have hwell := ht.series s hs
  unfold nextBaseline
  rw [Table.seekAfter_eq ht.sorted (Key.startsWith_segmentOfPrefix s.pre ms)]
  cases hn : ((t.segments.under s.pre).filter
      fun x => Key.lt (Key.segmentOfPrefix s.pre ms) x.1).head? with
  | none => simp
  | some n =>
    obtain ⟨hmem, habove⟩ := List.mem_filter.mp (List.mem_of_mem_head? hn)
    rw [Option.bind_some, hwell.baselineOf_eq hmem, Option.getD_some]
    -- the next segment starts past the instant, at one of its own points
    have hpast : ms < baseline n := (hwell.layout.lt_key_iff hmem (fits_of_inRange hms)).mp habove
    obtain ⟨q, hq, hqb⟩ := (hwell.starts n hmem).at_baseline
    have hend := ((hwell.starts n hmem).in_range q hq).2
    constructor
    · intro _
      omega
    · intro _
      exact hpast

end Tables

namespace Txn

variable {ctx : Context} {t t' : Tables} {v v' : Versions} {w w' : SeriesWrite} {lo hi : Int}

/-- Opening new segments for ascending points in the range of instants, in a gap that takes
them all, keeps the table well kept. -/
theorem writeNewSegments_well (hs : w.series.Clean) {ps : List Point} (hasc : Point.Ascending ps)
    (hrange : ∀ q ∈ ps, Instant.minMillis ≤ q.ms ∧ q.ms ≤ Instant.maxMillis)
    (hlo : ∀ q ∈ ps, lo ≤ q.ms) (hhi : ∀ q ∈ ps, q.ms < hi) (ht : t.segments.SegmentsWell)
    (hgap : Gap (t.segments.under w.series.pre) lo hi)
    (h : exec (writeNewSegments w ps) ctx t v = (.ok (w', t'), v')) :
    t'.segments.SegmentsWell ∧ w'.series = w.series := by
  unfold writeNewSegments at h
  obtain ⟨segs, t₁, v₁, h₁, h₂⟩ := exec_bind_eq_ok.mp h
  cases hbuild : Point.build ps none with
  | error e =>
    rw [hbuild, exec_lift_error] at h₁
    cases h₁
  | ok segs' =>
    rw [hbuild, exec_lift_ok] at h₁
    simp only [Prod.mk.injEq, Except.ok.injEq] at h₁
    obtain ⟨⟨rfl, rfl⟩, rfl⟩ := h₁
    obtain ⟨chunks, rfl, hpk⟩ := Packing.build_eq_ok hbuild
    obtain ⟨ht', hser, -⟩ := putPacked_well hs hpk hasc hrange hlo hhi ht hgap h₂
    exact ⟨ht', hser⟩

/-- A run after the holder's last sample, below where the next segment starts: appending what
fits to the holder and opening new segments for the rest keeps the table well kept. -/
theorem appendInOrder_well (hs : w.series.Clean) (ht : t.segments.SegmentsWell)
    {hd : Key × Row SegmentRow} (hhd : hd ∈ t.segments.under w.series.pre)
    (hgap : Gap ((t.segments.under w.series.pre).filter (·.1 != hd.1)) (baseline hd) hi)
    (hpts : ∀ p ∈ points hd, p.ms < hi) {run : List Point} (hasc : Point.Ascending run)
    (hrange : ∀ q ∈ run, Instant.minMillis ≤ q.ms ∧ q.ms ≤ Instant.maxMillis)
    (hafter : ∀ q ∈ run, lastMs hd < q.ms) (hhi : ∀ q ∈ run, q.ms < hi)
    (h : exec (appendInOrder w hd.1 hd.2.value (baseline hd) run) ctx t v = (.ok (w', t'), v')) :
    t'.segments.SegmentsWell ∧ w'.series = w.series := by
  have hwell := ht.series _ hs
  obtain ⟨b, es, hb⟩ := hwell.layout.holds hd hhd
  have hp := Placed.of_holds hb (hwell.starts hd hhd)
  rw [hb.baseline_eq] at hgap h
  rw [lastMs, hb.baseline_eq] at hafter
  have hbefore : ∀ n, Point.Before (run.take n) (run.drop n) := fun n =>
    (Point.ascending_append.mp (by rw [List.take_append_drop]; exact hasc)).2.2
  unfold appendInOrder at h
  obtain ⟨⟨updated, n⟩, t₁, v₁, h₁, h₂⟩ := exec_bind_eq_ok.mp h
  cases hfit : appendWhileFits hd.2.value.segment b run with
  | error f =>
    rw [hfit, exec_liftFault_error] at h₁
    cases h₁
  | ok r =>
    rw [hfit, exec_liftFault_ok] at h₁
    simp only [Prod.mk.injEq, Except.ok.injEq] at h₁
    obtain ⟨⟨rfl, rfl⟩, rfl⟩ := h₁
    obtain ⟨-, -, hbuilt, -⟩ := appendWhileFits_eq_ok hb.built hfit
    dsimp -zeta only at h₂
    extract_lets rest at h₂
    -- `rest`: new segments for what did not fit, past the holder's last sample
    have hrest : ∀ {w₁ t₂ v₂} lo', t₂.segments.SegmentsWell → w₁.series = w.series →
        (∀ q ∈ run.drop n, lo' ≤ q.ms) → Gap (t₂.segments.under w.series.pre) lo' hi →
        exec (rest w₁) ctx t₂ v₂ = (.ok (w', t'), v') →
        t'.segments.SegmentsWell ∧ w'.series = w.series := by
      intro w₁ t₂ v₂ lo' ht₂ hser₁ hlo' hgap₂ h₄
      unfold rest at h₄
      split at h₄
      · rw [← hser₁] at hs hgap₂
        obtain ⟨ht', hser'⟩ := writeNewSegments_well hs (hasc.sublist (List.drop_sublist n run))
          (fun q hq => hrange q (List.mem_of_mem_drop hq)) hlo'
          (fun q hq => hhi q (List.mem_of_mem_drop hq)) ht₂ hgap₂ h₄
        exact ⟨ht', hser'.trans hser₁⟩
      · simp only [exec_pure, Prod.mk.injEq, Except.ok.injEq] at h₄
        obtain ⟨⟨rfl, rfl⟩, -⟩ := h₄
        exact ⟨ht₂, hser₁⟩
    split at h₂
    · -- the holder grows by what fits, and the rest goes past its new last sample
      generalize ((updated.live : Int) - hd.2.value.segment.live) = δ at h₂
      obtain ⟨w₁, t₂, v₂, h₃, h₄⟩ := exec_bind_eq_ok.mp h₂
      have hp' := hp.append hbuilt (hasc.sublist (List.take_sublist n run))
        (fun q hq => hafter q (List.mem_of_mem_take hq))
        (fun q hq => hrange q (List.mem_of_mem_take hq))
      have hhi' : ∀ e ∈ es ++ (run.take n).map (Point.entryAt hd.2.value.segment.width b),
          b + e.offset < hi := by
        intro e he
        rcases List.mem_append.mp he with he | he
        · exact hpts (Point.ofEntry b e) (hb.points_eq ▸ List.mem_map_of_mem he)
        · obtain ⟨q, hq, rfl⟩ := List.mem_map.mp he
          have := hhi q (List.mem_of_mem_take hq)
          simp only [Point.entryAt]
          omega
      have hs' : (w.gain δ).series.Clean := hs
      have hkey : hd.1 = Key.segmentOfPrefix (w.gain δ).series.pre b := hb.key_eq
      have hgap' : Gap ((t.segments.under (w.gain δ).series.pre).filter (·.1 != hd.1)) b hi := hgap
      obtain ⟨ht₂, hgap₂, hser⟩ := putSegment_well hs' hp' hkey ht hgap' le_rfl hhi' h₃
      simp only [SeriesWrite.series_gain] at hgap₂ hser
      refine hrest _ ht₂ hser (fun q hq => ?_) hgap₂ h₄
      -- the new last sample is an old one or one taken, before every point left
      obtain ⟨e, he, hlast⟩ := hp'.exists_lastTimestamp
      rcases List.mem_append.mp he with he | he
      · have := hp.offset_le_last e he
        have := hafter q (List.mem_of_mem_drop hq)
        omega
      · obtain ⟨q', hq', rfl⟩ := List.mem_map.mp he
        have := hbefore n q' hq' q hq
        simp only [Point.entryAt] at hlast
        omega
    · -- nothing fits: the holder stays, and the run goes past its last sample
      obtain ⟨w₁, t₂, v₂, h₃, h₄⟩ := exec_bind_eq_ok.mp h₂
      simp only [exec_pure, Prod.mk.injEq, Except.ok.injEq] at h₃
      obtain ⟨⟨rfl, rfl⟩, -⟩ := h₃
      refine hrest _ ht rfl (fun q hq => hafter q (List.mem_of_mem_drop hq)) ?_ h₄
      refine Gap.of_filter_ne hgap (by have := hp.le_lastTimestamp; omega) fun x hx hxk q hq => ?_
      rw [(ht.sorted.under _).eq_of_key_eq hx hhd hxk] at hq
      have := hb.le_lastTimestamp hq
      omega

/-- A run among the holder's samples, from its baseline to below where the next segment starts:
merging it with the holder and packing anew from the holder's baseline keeps the table well
kept. -/
theorem splitSegment_well (hs : w.series.Clean) (ht : t.segments.SegmentsWell)
    {hd : Key × Row SegmentRow} (hhd : hd ∈ t.segments.under w.series.pre)
    (hgap : Gap ((t.segments.under w.series.pre).filter (·.1 != hd.1)) (baseline hd) hi)
    (hpts : ∀ p ∈ points hd, p.ms < hi) {run : List Point} (hasc : Point.Ascending run)
    (hrange : ∀ q ∈ run, Instant.minMillis ≤ q.ms ∧ q.ms ≤ Instant.maxMillis)
    (hbase : ∀ q ∈ run, baseline hd ≤ q.ms) (hhi : ∀ q ∈ run, q.ms < hi)
    (h : exec (splitSegment w hd.1 hd.2.value (baseline hd) run) ctx t v = (.ok (w', t'), v')) :
    t'.segments.SegmentsWell ∧ w'.series = w.series := by
  have hwell := ht.series _ hs
  obtain ⟨b, es, hb⟩ := hwell.layout.holds hd hhd
  have hst := hwell.starts hd hhd
  rw [hb.baseline_eq] at hgap h hbase
  unfold splitSegment at h
  obtain ⟨stored, t₁, v₁, h₁, h₂⟩ := exec_bind_eq_ok.mp h
  rw [hb.built.sound.samples, exec_lift_ok] at h₁
  simp only [Prod.mk.injEq, Except.ok.injEq] at h₁
  obtain ⟨⟨rfl, rfl⟩, rfl⟩ := h₁
  extract_lets merged at h₂
  obtain ⟨packed, t₂, v₂, h₃, h₄⟩ := exec_bind_eq_ok.mp h₂
  cases hbuild : Point.build merged (some (b, hd.2.value.segment.width)) with
  | error e =>
    rw [hbuild, exec_lift_error] at h₃
    cases h₃
  | ok segs =>
    rw [hbuild, exec_lift_ok] at h₃
    simp only [Prod.mk.injEq, Except.ok.injEq] at h₃
    obtain ⟨⟨rfl, rfl⟩, rfl⟩ := h₃
    obtain ⟨chunks, hflat, hpk⟩ := Packing.build_eq_ok hbuild
    obtain ⟨u, t₃, v₃, h₅, h₆⟩ := exec_bind_eq_ok.mp h₄
    simp only [exec_change, Prod.mk.injEq, Except.ok.injEq] at h₅
    obtain ⟨⟨-, rfl⟩, rfl⟩ := h₅
    -- every merged point is a stored one or one of the run
    have hmem : ∀ q ∈ merged, q ∈ points hd ∨ q ∈ run := by
      intro q hq
      rw [hb.points_eq]
      exact Point.mem_merge hq
    have hasc' : Point.Ascending merged := hb.ascending.merge _ hasc
    have hrange' : ∀ q ∈ merged, Instant.minMillis ≤ q.ms ∧ q.ms ≤ Instant.maxMillis :=
      fun q hq => (hmem q hq).elim (hst.in_range q) (hrange q)
    have hlo' : ∀ q ∈ merged, b ≤ q.ms :=
      fun q hq => (hmem q hq).elim hb.baseline_le (hbase q)
    have hhi' : ∀ q ∈ merged, q.ms < hi := fun q hq => (hmem q hq).elim (hpts q) (hhi q)
    -- the merge starts at the baseline, where the pin puts the first segment anyway
    have hpk' : Packing.Packed none segs chunks := by
      refine hpk.unpin fun b₀ hb₀ q hq => ?_
      obtain ⟨x, xs, hxs, hxb⟩ := hb.points_eq_cons hst
      have hhead := Point.ms_head?_merge w.remote.isSome xs fun y hy => hxb ▸ hbase y hy
      rw [← hxs, hb.points_eq] at hhead
      have hfirst : merged.head?.map (·.ms) = some x.ms := hhead
      simp only [Option.map_some, Option.some.injEq] at hb₀
      rw [hflat, hq, Option.map_some, Option.some.injEq] at hfirst
      rw [hfirst, hxb, hb₀]
    have hgap' : Gap ((t.segments.remove hd.1).1.under w.series.pre) b hi := by
      rw [Table.under_remove]
      exact hgap
    generalize (-(hd.2.value.segment.live : Int)) = δ at h₆
    have hs' : (w.gain δ).series.Clean := hs
    obtain ⟨ht', hser, -⟩ := putPacked_well hs' hpk' (hflat ▸ hasc') (hflat ▸ hrange')
      (hflat ▸ hlo') (hflat ▸ hhi') (ht.remove hd.1) hgap' h₆
    exact ⟨ht', hser⟩

/-- Writing ascending points in the range of instants, run by run, from a well-kept table: a
write that succeeds leaves the table well kept, and a write that faults but by overflow, as it
does for an empty run, met a point at the last instant of the range. -/
theorem writeRuns_spec (hs : w.series.Clean) {ps : List Point} (hasc : Point.Ascending ps)
    (hrange : ∀ q ∈ ps, Instant.minMillis ≤ q.ms ∧ q.ms ≤ Instant.maxMillis)
    (ht : t.segments.SegmentsWell) {r : Except Error (SeriesWrite × Tables)}
    (h : exec (writeRuns w ps) ctx t v = (r, v')) :
    (∀ w' t', r = .ok (w', t') → t'.segments.SegmentsWell ∧ w'.series = w.series) ∧
      ∀ f, f ≠ .overflow → r = .error (.fault f) → ∃ q ∈ ps, q.ms = Instant.maxMillis := by
  induction w, ps using writeRuns.induct generalizing t v r with
  | case1 w =>
    rw [writeRuns.eq_1, exec_pure, Prod.mk.injEq] at h
    obtain ⟨rfl, -⟩ := h
    refine ⟨fun w' t' h' => ?_, fun _ _ h' => by cases h'⟩
    simp only [Except.ok.injEq, Prod.mk.injEq] at h'
    obtain ⟨rfl, rfl⟩ := h'
    exact ⟨ht, rfl⟩
  | case2 w p more ih =>
    rw [writeRuns.eq_2, exec_bind, exec_tables] at h
    dsimp -zeta only at h
    extract_lets holder nextBaseline run at h
    -- the rows of the series around the first point, and where the next segment starts
    have hwell := ht.series _ hs
    have hord := ht.sorted.under w.series.pre
    have hfits := fits_of_inRange (hrange p List.mem_cons_self)
    have hk := Key.startsWith_segmentOfPrefix w.series.pre p.ms
    have hholder : holder = ((t.segments.under w.series.pre).filter
        fun x => Key.le x.1 (Key.segmentOfPrefix w.series.pre p.ms)).getLast? :=
      Table.seekBackward_eq ht.sorted hk
    have hbound : nextBaseline = t.nextBaseline w.series.pre p.ms := rfl
    have hnext : nextBaseline ≤ nextStart (t.segments.under w.series.pre)
        (Key.segmentOfPrefix w.series.pre p.ms) := by
      show ((t.segments.seekAfter _ _).head?.bind _).getD _ ≤ _
      rw [Table.seekAfter_eq ht.sorted hk, nextStart]
      cases hn : ((t.segments.under w.series.pre).filter
          fun x => Key.lt (Key.segmentOfPrefix w.series.pre p.ms) x.1).head? with
      | none => simp
      | some n =>
        have hbase := hwell.baselineOf_eq (List.mem_filter.mp (List.mem_of_mem_head? hn)).1
        obtain ⟨k, r⟩ := n
        simp only [Option.bind_some, Option.map_some, Option.getD_some]
        rw [hbase]
        simp
    -- the run: points from the first one on, below the next segment
    have hsub : run.Sublist (p :: more) := (List.takeWhile_prefix _).sublist
    have hlt : ∀ q ∈ run, q.ms < nextBaseline := fun q hq => by
      simpa using List.mem_takeWhile_imp hq
    have hfrom : ∀ q ∈ p :: more, p.ms ≤ q.ms := by
      intro q hq
      rcases List.mem_cons.mp hq with rfl | hq
      · exact le_rfl
      · exact le_of_lt ((List.pairwise_cons.mp hasc).1 q hq)
    generalize hrun : run = l at h
    revert h
    cases l with
    | nil =>
      -- an empty run: its first point is not below the next segment, so it is the last instant
      intro h
      rw [exec_throw, Prod.mk.injEq] at h
      obtain ⟨rfl, -⟩ := h
      refine ⟨fun w' t' h' => (by cases h'), fun _ _ _ => ⟨p, List.mem_cons_self, ?_⟩⟩
      have hnot : ¬ p.ms < nextBaseline := by
        intro hp
        simp [run, hp] at hrun
      rw [hbound, Tables.lt_nextBaseline_iff ht hs (hrange p List.mem_cons_self)] at hnot
      have := (hrange p List.mem_cons_self).2
      omega
    | cons q qs =>
    intro h
    dsimp -zeta only at h
    extract_lets jp at h
    rw [hrun] at hsub hlt
    have hqp : q = p := by
      have := hrun
      simp only [run, List.takeWhile_cons] at this
      split at this
      · exact (List.cons.inj this).1.symm
      · cases this
    subst hqp
    -- the rest of the points, run by run from the next one
    have hjp : ∀ {w₁ t₂ v₂ r}, t₂.segments.SegmentsWell → w₁.series = w.series →
        exec (jp w₁) ctx t₂ v₂ = (r, v') →
        (∀ w' t', r = .ok (w', t') → t'.segments.SegmentsWell ∧ w'.series = w.series) ∧
          ∀ f, f ≠ .overflow → r = .error (.fault f) → ∃ x ∈ q :: more, x.ms = Instant.maxMillis := by
      intro w₁ t₂ v₂ r ht₂ hser₁ h₄
      have hdrop := List.drop_sublist (qs.length + 1) (q :: more)
      obtain ⟨hok, hbounds⟩ := ih qs w₁ (hser₁ ▸ hs) (hasc.sublist hdrop)
        (fun x hx => hrange x (hdrop.subset hx)) ht₂ h₄
      refine ⟨fun w' t' h' => ?_, fun f hf h' => ?_⟩
      · obtain ⟨ht', hser'⟩ := hok w' t' h'
        exact ⟨ht', hser'.trans hser₁⟩
      · obtain ⟨x, hx, hxm⟩ := hbounds f hf h'
        exact ⟨x, hdrop.subset hx, hxm⟩
    -- one write of the run, which never fails for an empty run, then the rest
    have hstep : ∀ {x : Txn SeriesWrite}, (∀ f : Fault, f ≠ .overflow → Avoids (.fault f) x) →
        (∀ {w₁ t₂ v₂}, exec x ctx t v = (.ok (w₁, t₂), v₂) →
          t₂.segments.SegmentsWell ∧ w₁.series = w.series) →
        exec (x >>= jp) ctx t v = (r, v') →
        (∀ w' t', r = .ok (w', t') → t'.segments.SegmentsWell ∧ w'.series = w.series) ∧
          ∀ f, f ≠ .overflow → r = .error (.fault f) → ∃ x ∈ q :: more, x.ms = Instant.maxMillis := by
      intro x hx hwrite h₂
      rw [exec_bind] at h₂
      rcases h₃ : exec x ctx t v with ⟨_ | ⟨w₁, t₂⟩, v₂⟩
      · next e =>
        rw [h₃, Prod.mk.injEq] at h₂
        obtain ⟨rfl, rfl⟩ := h₂
        refine ⟨fun w' t' h' => (by cases h'), fun f hf he => ?_⟩
        cases he
        exact absurd h₃ (hx f hf ctx t v v₂)
      · rw [h₃] at h₂
        obtain ⟨ht₂, hser₁⟩ := hwrite h₃
        exact hjp ht₂ hser₁ h₂
    have hasc' := hasc.sublist hsub
    have hrange' : ∀ x ∈ q :: qs, Instant.minMillis ≤ x.ms ∧ x.ms ≤ Instant.maxMillis :=
      fun x hx => hrange x (hsub.subset hx)
    have hhi : ∀ x ∈ q :: qs, x.ms < nextStart (t.segments.under w.series.pre)
        (Key.segmentOfPrefix w.series.pre q.ms) := fun x hx => lt_of_lt_of_le (hlt x hx) hnext
    have habove : ∀ x ∈ t.segments.under w.series.pre,
        Key.lt (Key.segmentOfPrefix w.series.pre q.ms) x.1 = true →
        nextStart (t.segments.under w.series.pre) (Key.segmentOfPrefix w.series.pre q.ms) ≤
          baseline x :=
      fun x hx hcx => hwell.nextStart_le hx hcx
    generalize hho : holder = o at h
    revert h
    cases o with
    | none =>
      -- no segment at or before the run: new segments, below the next one
      intro h
      have hnone := List.getLast?_eq_none_iff.mp (hholder ▸ hho)
      exact hstep (fun _ hf => writeNewSegments_avoids hf _ _) (fun h₃ => writeNewSegments_well hs hasc' hrange'
        (fun x hx => hfrom x (hsub.subset hx)) hhi ht (Gap.of_above hnone habove) h₃) h
    | some hd =>
      obtain ⟨key, row⟩ := hd
      intro h
      dsimp -zeta only at h
      extract_lets baseline at h
      have hlast := hholder ▸ hho
      obtain ⟨hhd, hle⟩ := List.mem_filter.mp (List.mem_of_getLast? hlast)
      have hgap := hwell.gap_below hord hlast habove
      have hpts := fun x hx => hwell.lt_nextStart hord hhd hle (p := x) hx
      obtain ⟨b, es, hb⟩ := hwell.layout.holds _ hhd
      split at h
      · -- after the holder's last sample: append to it
        next hafter =>
        have hnonempty : row.value.segment.isEmpty = false := by
          have hentries : row.value.segment.entries = es.length := hb.built.sound.entries_eq
          rw [Segment.isEmpty, hentries, beq_eq_false_iff_ne, ne_eq, List.length_eq_zero_iff]
          exact hb.ne_nil
        rw [hnonempty, Bool.false_or, decide_eq_true_eq] at hafter
        exact hstep (fun _ hf => appendInOrder_avoids hf _ _ _ _ _) (fun h₃ => appendInOrder_well hs ht hhd hgap
          hpts hasc' hrange' (fun x hx => lt_of_lt_of_le hafter (hfrom x (hsub.subset hx))) hhi
          h₃) h
      · -- among the holder's samples: merge and pack anew
        have hbase : baseline ≤ q.ms := (hwell.layout.le_key_iff hhd hfits).mp hle
        have hsamples : ∀ f, row.value.segment.samples ≠ .error (.fault f) := by
          rw [hb.built.sound.samples]
          simp
        exact hstep (fun _ hf => splitSegment_avoids hf _ _ _ _ _ (hsamples _)) (fun h₃ => splitSegment_well hs ht
          hhd hgap hpts hasc' hrange' (fun x hx => le_trans hbase (hfrom x (hsub.subset hx))) hhi
          h₃) h

/-- Writing ascending points in the range of instants, run by run, keeps the table well kept. -/
theorem writeRuns_well (hs : w.series.Clean) {ps : List Point} (hasc : Point.Ascending ps)
    (hrange : ∀ q ∈ ps, Instant.minMillis ≤ q.ms ∧ q.ms ≤ Instant.maxMillis)
    (ht : t.segments.SegmentsWell) (h : exec (writeRuns w ps) ctx t v = (.ok (w', t'), v')) :
    t'.segments.SegmentsWell ∧ w'.series = w.series :=
  (writeRuns_spec hs hasc hrange ht h).1 _ _ rfl

/-- A write moves on by at least one point each run until the last instant of the range. In a
well-kept table the run from a point of the range holds that point exactly when the point is
below the last instant; and a write of ascending points of the range meets an empty run, and
faults on it (out of bounds where a holder with samples reads the run's first point, stuck where
the write would take the empty run forever), only when one of them is at the last instant: no
fault but an overflow comes from a write of points below it. -/
theorem runs_hold_first_point {s : SeriesRef} (hs : s.Clean) (ht : t.segments.SegmentsWell) :
    (∀ (p : Point) (more : List Point), Instant.minMillis ≤ p.ms ∧ p.ms ≤ Instant.maxMillis →
      (((p :: more).takeWhile fun q => q.ms < t.nextBaseline s.pre p.ms) ≠ [] ↔
        p.ms < Instant.maxMillis)) ∧
    ∀ (w : SeriesWrite) (ps : List Point) ctx v v' (f : Fault), w.series = s →
      Point.Ascending ps → (∀ q ∈ ps, Instant.minMillis ≤ q.ms ∧ q.ms ≤ Instant.maxMillis) →
      f ≠ .overflow → exec (writeRuns w ps) ctx t v = (.error (.fault f), v') →
      ∃ q ∈ ps, q.ms = Instant.maxMillis := by
  refine ⟨fun p more hp => ?_, ?_⟩
  · rw [← Tables.lt_nextBaseline_iff ht hs hp]
    by_cases h : p.ms < t.nextBaseline s.pre p.ms <;> simp [h]
  · rintro w ps ctx v v' f rfl hasc hrange hf h
    exact (writeRuns_spec hs hasc hrange ht h).2 f hf rfl

/-- A store holding one segment of users/7's Temp, one sample of 20.5 at the start of 2024: a
point at the last instant finds that segment as its holder, and in this store a write faults on
an empty run only for such a point. -/
theorem runs_hold_first_point_holder :
    let s : SeriesRef := ⟨"users/7", "Temp", "Users"⟩
    let fresh : Segment := ⟨1, 0, 0, 0, 0, [{}], [{}], BitRun.empty⟩
    let seg : Segment := (fresh.append 0 [⟨0x4034800000000000⟩] none .live).toOption.join.getD fresh
    let t : Tables := { segments := (Table.empty.insert (Key.segmentOfPrefix s.pre 1704067200000)
      ⟨s, 1, "A:1-dbA", seg⟩ (some 1)).1 }
    (t.segments.seekBackward s.pre (Key.segmentOfPrefix s.pre Instant.maxMillis)).isSome = true ∧
    s.Clean ∧ t.segments.SegmentsWell ∧
    (∀ (p : Point) (more : List Point), Instant.minMillis ≤ p.ms ∧ p.ms ≤ Instant.maxMillis →
      (((p :: more).takeWhile fun q => q.ms < t.nextBaseline s.pre p.ms) ≠ [] ↔
        p.ms < Instant.maxMillis)) ∧
    ∀ (w : SeriesWrite) (ps : List Point) ctx v v' (f : Fault), w.series = s →
      Point.Ascending ps → (∀ q ∈ ps, Instant.minMillis ≤ q.ms ∧ q.ms ≤ Instant.maxMillis) →
      f ≠ .overflow → exec (writeRuns w ps) ctx t v = (.error (.fault f), v') →
      ∃ q ∈ ps, q.ms = Instant.maxMillis := by
  intro s fresh seg t
  have hs : s.Clean := by
    unfold SeriesRef.Clean
    decide +kernel
  have hplaced : Placed 1704067200000
      [⟨0, Segment.padded 1 [⟨0x4034800000000000⟩], none, .live⟩] seg :=
    ⟨Segment.Built.append (Segment.Built.fresh (w := 1) rfl) (by simp only [seg, fresh]; rfl),
      List.cons_ne_nil _ _,
      List.pairwise_singleton _ _, ⟨_, List.mem_singleton_self _, rfl⟩, by decide⟩
  -- the one segment goes into the empty table, with nothing around it
  have hgap : Gap ((Table.empty.under s.pre).filter
      (·.1 != Key.segmentOfPrefix s.pre 1704067200000)) 1704067200000 Instant.maxMillis :=
    fun r hr => by simp [Table.empty, Table.under] at hr
  have ht : t.segments.SegmentsWell :=
    Table.segmentsWell_empty.insert hs hplaced hgap le_rfl (by decide) (some 1)
  have hholder : (t.segments.seekBackward s.pre
      (Key.segmentOfPrefix s.pre Instant.maxMillis)).isSome = true := by
    decide +kernel
  exact ⟨hholder, hs, ht, runs_hold_first_point hs ht⟩

theorem Tables.SegmentsKept.of_same {t t' : Tables} (h : Tables.SameSegments t t') :
    Tables.SegmentsKept t t' := fun ht => h ▸ ht

/-- Samples in the range of instants, written to any series, keep the segment table well kept:
a write whose names fail their checks is refused, so the series written is clean. -/
theorem appendSamples_keeps {s : SeriesRef} {samples : List Sample}
    (hrange : ∀ x ∈ samples, Instant.minMillis ≤ x.time.millis ∧ x.time.millis ≤ Instant.maxMillis)
    (remote : Option String) (allowNan : Bool) :
    Moves Tables.SegmentsKept (appendSamples s samples remote allowNan) := by
  unfold appendSamples
  refine Moves.lift_bind fun _ hd => Moves.lift_bind fun _ hn => ?_
  have hs := SeriesRef.clean_of_validate hd hn
  refine Moves.bind (Moves.forIn (fun x _ _ => Moves.bind (Moves.lift _) fun _ => Moves.pure _) _)
    fun _ => Moves.bind Moves.tables fun t => ?_
  extract_lets ps write
  -- `write`: the samples, prepared into ascending points, written run by run
  have hwrite : ∀ u, Moves Tables.SegmentsKept (write u) := by
    intro u
    unfold write
    have hasc : Point.Ascending ps := Point.ascending_prepare _
    have hpsr : ∀ q ∈ ps, Instant.minMillis ≤ q.ms ∧ q.ms ≤ Instant.maxMillis := by
      intro q hq
      obtain ⟨x, hx, rfl⟩ := List.mem_map.mp (Point.mem_of_mem_prepare hq)
      exact hrange x hx
    generalize ps = qs at hasc hpsr ⊢
    cases qs with
    | nil => exact Moves.pure _
    | cons first tail =>
    dsimp -zeta only
    extract_lets finish
    -- `finish`: the runs, then statistics, names and rollups, which leave segments alone
    have hfinish : ∀ ps', Point.Ascending ps' →
        (∀ q ∈ ps', Instant.minMillis ≤ q.ms ∧ q.ms ≤ Instant.maxMillis) →
        Moves Tables.SegmentsKept (finish ps') := by
      intro ps' hasc' hpsr'
      unfold finish
      -- the record written names the series, so that `writeRuns_well` finds it by unification
      have hw : ({ series := s, remote := remote } : SeriesWrite).series.Clean := hs
      refine Moves.bind ⟨fun h ht => (writeRuns_well hw hasc' hpsr' ht h).1⟩ fun w => ?_
      refine Moves.bind ((updateStats_same s _).mono Tables.SegmentsKept.of_same) fun c => ?_
      refine Moves.bind ((syncSeriesName_same s c).mono Tables.SegmentsKept.of_same) fun _ => ?_
      exact Moves.bind ((markForPolicy_same s _ _).mono Tables.SegmentsKept.of_same) fun _ =>
        Moves.pure _
    split
    · refine Moves.bind (Moves.observeChangeVector _) fun _ => ⟨fun h ht => ?_⟩
      obtain ⟨ps', t₁, v₁, h₁, h₂⟩ := exec_bind_eq_ok.mp h
      obtain ⟨rfl, f, hf, rfl⟩ := suppressDeleted_eq_ok h₁
      refine (hfinish _ ?_ ?_).ok h₂ ht
      · exact List.Pairwise.map _ (fun x y hxy => by rw [hf, hf]; exact hxy) hasc
      · intro q hq
        obtain ⟨x, hx, rfl⟩ := List.mem_map.mp hq
        rw [hf]
        exact hpsr x hx
    · rw [pure_bind]
      exact hfinish _ hasc hpsr
  split
  · exact Moves.bind (Moves.throw _) hwrite
  · exact hwrite ()

end Txn

end SeriesStore
