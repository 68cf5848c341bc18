import Mathlib
import SeriesStore.Proofs.Store.RowPlacement
import SeriesStore.Proofs.Store.CleanNames
import SeriesStore.Proofs.Store.Frame

/-!
# The segment table as writes keep it

The segment table is *well kept* (`Table.SegmentsWell`) when it is sorted and, under the prefix
of every clean series, its rows lie well (`SeriesWell`). A write puts a segment into a gap of
its series: a segment *placed* at a baseline (`Placed`: built, with an entry at the baseline,
its points ascending and in the range of instants) whose points fall in the gap keeps the table
well kept, and the gap then starts past its last point (`SegmentsWell.insert`,
`SegmentsWell.gap_insert`). Removing a row keeps it so too. Keys of clean series are separate,
so a write to one series leaves every other's rows as they were.

The transactions that store segments are then proved to keep the table: storing one segment
(`putSegment_eq_ok` says what it writes) and storing packed segments one after another
(`putPacked_well`), each in the gap the one before leaves.
-/

namespace SeriesStore

open StoredRow

/-- A segment ready to be stored at baseline `b`, holding the entries `es`: built, with an entry
at the baseline, its points ascending and in the range of instants. -/
structure Placed (b : Int) (es : List Entry) (s : Segment) : Prop where
  built : s.Built es
  ne_nil : es ≠ []
  ascending : Point.Ascending (es.map (Point.ofEntry b))
  at_baseline : ∃ e ∈ es, e.offset = 0
  in_range : ∀ e ∈ es, Instant.minMillis ≤ b + e.offset ∧ b + e.offset ≤ Instant.maxMillis

/-- Milliseconds in the range of instants fit in 64 bits. -/
theorem fits_of_inRange {m : Int} (h : Instant.minMillis ≤ m ∧ m ≤ Instant.maxMillis) :
    I64.fits m = true := by
  rw [Key.fits_iff]
  simp only [Instant.minMillis, Instant.maxMillis] at h
  omega

namespace Placed

variable {b : Int} {es : List Entry} {s : Segment}

theorem fits (h : Placed b es s) : I64.fits b = true := by
  obtain ⟨e, he, h0⟩ := h.at_baseline
  have := h.in_range e he
  rw [h0, Int.add_zero] at this
  exact fits_of_inRange this

/-- A placed segment stored under its key holds its entries and starts at its baseline. -/
theorem row (h : Placed b es s) {pre : Key} {val : SegmentRow} (hval : val.segment = s)
    (i : Option Int) :
    Holds pre b es (Key.segmentOfPrefix pre b, ⟨val, i⟩) ∧
      Starts (Key.segmentOfPrefix pre b, ⟨val, i⟩) := by
  have hholds : Holds pre b es (Key.segmentOfPrefix pre b, ⟨val, i⟩) :=
    ⟨h.fits, rfl, hval ▸ h.built, h.ne_nil, h.ascending⟩
  refine ⟨hholds, ⟨?_, ?_⟩⟩
  · obtain ⟨e, he, h0⟩ := h.at_baseline
    refine ⟨Point.ofEntry b e, by rw [hholds.points_eq]; exact List.mem_map_of_mem he, ?_⟩
    simp [Point.ofEntry, h0, hholds.baseline_eq]
  · intro p hp
    rw [hholds.points_eq] at hp
    obtain ⟨e, he, rfl⟩ := List.mem_map.mp hp
    exact h.in_range e he

/-- The last timestamp of a placed segment is that of its last entry. -/
theorem offset_le_last (h : Placed b es s) : ∀ e ∈ es, b + e.offset ≤ s.lastTimestamp b := by
  intro e he
  have := h.built.sound.offset_le_last e he
  simp only [Segment.lastTimestamp]
  omega

theorem le_lastTimestamp (h : Placed b es s) : b ≤ s.lastTimestamp b := by
  obtain ⟨e, he, h0⟩ := h.at_baseline
  have := h.offset_le_last e he
  omega

/-- The last timestamp of a placed segment is the timestamp of one of its entries. -/
theorem exists_lastTimestamp (h : Placed b es s) : ∃ e ∈ es, b + e.offset = s.lastTimestamp b := by
  obtain ⟨init, last, heq⟩ := (List.eq_nil_or_concat es).resolve_left h.ne_nil
  rw [List.concat_eq_append] at heq
  refine ⟨last, by simp [heq], ?_⟩
  rw [Segment.lastTimestamp, h.built.sound.lastOffset_eq, heq]
  simp

/-- A row that holds its entries and starts at its baseline has its segment placed there. -/
theorem of_holds {pre : Key} {r : Key × Row SegmentRow} (hb : Holds pre b es r) (hst : Starts r) :
    Placed b es r.2.value.segment where
  built := hb.built
  ne_nil := hb.ne_nil
  ascending := hb.ascending
  at_baseline := by
    obtain ⟨p, hp, hpb⟩ := hst.at_baseline
    rw [hb.points_eq] at hp
    obtain ⟨e, he, rfl⟩ := List.mem_map.mp hp
    rw [hb.baseline_eq] at hpb
    exact ⟨e, he, by simpa [Point.ofEntry] using hpb⟩
  in_range := by
    intro e he
    have hp : Point.ofEntry b e ∈ points r := by
      rw [hb.points_eq]
      exact List.mem_map_of_mem he
    simpa [Point.ofEntry] using hst.in_range _ hp

/-- Padding the values of points keeps their timestamps, so ascending points stay ascending as
entries of a segment. -/
theorem ascending_entryAt {ps : List Point} (hasc : Point.Ascending ps) (w : Nat) :
    Point.Ascending ((ps.map (Point.entryAt w b)).map (Point.ofEntry b)) := by
  rw [List.map_map]
  exact List.Pairwise.map _ (fun x y hxy => by simpa [Point.ofEntry, Point.entryAt] using hxy) hasc

/-- Points past the last one of a placed segment, in the range of instants and appended to it,
leave it placed. -/
theorem append (h : Placed b es s) {s' : Segment} {ps : List Point} {w : Nat}
    (hb : s'.Built (es ++ ps.map (Point.entryAt w b))) (hasc : Point.Ascending ps)
    (hafter : ∀ q ∈ ps, s.lastTimestamp b < q.ms)
    (hrange : ∀ q ∈ ps, Instant.minMillis ≤ q.ms ∧ q.ms ≤ Instant.maxMillis) :
    Placed b (es ++ ps.map (Point.entryAt w b)) s' where
  built := hb
  ne_nil := by simp [h.ne_nil]
  ascending := by
    rw [List.map_append]
    refine Point.ascending_append.mpr ⟨h.ascending, ascending_entryAt hasc w, ?_⟩
    intro x hx y hy
    obtain ⟨e, he, rfl⟩ := List.mem_map.mp hx
    obtain ⟨q, hq, rfl⟩ := List.mem_map.mp (List.map_map ▸ hy)
    have := h.offset_le_last e he
    have := hafter q hq
    simp only [Point.ofEntry, Point.entryAt, Function.comp]
    omega
  at_baseline := by
    obtain ⟨e, he, h0⟩ := h.at_baseline
    exact ⟨e, List.mem_append_left _ he, h0⟩
  in_range := by
    intro e he
    rcases List.mem_append.mp he with he | he
    · exact h.in_range e he
    · obtain ⟨q, hq, rfl⟩ := List.mem_map.mp he
      simpa [Point.entryAt] using hrange q hq

/-- A chunk of ascending points in the range of instants, packed into a segment at its first
point, is placed there. -/
theorem of_chunk {p : Point} {c : List Point}
    (hb : s.Built ((p :: c).map (Point.entryAt s.width p.ms))) (hasc : Point.Ascending (p :: c))
    (hrange : ∀ q ∈ p :: c, Instant.minMillis ≤ q.ms ∧ q.ms ≤ Instant.maxMillis) :
    Placed p.ms ((p :: c).map (Point.entryAt s.width p.ms)) s where
  built := hb
  ne_nil := by simp
  ascending := ascending_entryAt hasc s.width
  at_baseline := ⟨Point.entryAt s.width p.ms p, by simp, by simp [Point.entryAt]⟩
  in_range := by
    intro e he
    obtain ⟨q, hq, rfl⟩ := List.mem_map.mp he
    simpa [Point.entryAt] using hrange q hq

end Placed

namespace Table

/-- The segment table as writes keep it: sorted, and under the prefix of every clean series its
rows lying well. -/
structure SegmentsWell (tbl : Table SegmentRow) : Prop where
  sorted : tbl.Sorted
  series : ∀ s : SeriesRef, s.Clean → SeriesWell s.pre (tbl.under s.pre)

theorem segmentsWell_empty : (empty : Table SegmentRow).SegmentsWell :=
  ⟨sorted_empty, fun _ _ => SeriesWell.nil _⟩

variable {tbl : Table SegmentRow} {s : SeriesRef} {b : Int} {es : List Entry} {val : SegmentRow}
  {lo hi : Int}

/-- The prefix of a series is its key, closed by the separator. -/
theorem pre_eq_key_append (s : SeriesRef) : s.pre = s.key ++ [Key.separator] := by
  rw [SeriesRef.pre_eq, SeriesRef.key_eq]
  simp

/-- Removing a row keeps the table well kept. -/
theorem SegmentsWell.remove (h : tbl.SegmentsWell) (k : Key) : (tbl.remove k).1.SegmentsWell :=
  ⟨h.sorted.remove k, fun p hp => by
    rw [under_remove]
    exact (h.series p hp).sublist List.filter_sublist⟩

/-- A segment placed in a gap of its clean series can be stored there. -/
theorem SegmentsWell.insert (h : tbl.SegmentsWell) (hs : s.Clean) (hp : Placed b es val.segment)
    (hgap : Gap ((tbl.under s.pre).filter (·.1 != Key.segmentOfPrefix s.pre b)) lo hi)
    (hlo : lo ≤ b) (hhi : ∀ e ∈ es, b + e.offset < hi) (i : Option Int) :
    (tbl.insert (Key.segmentOfPrefix s.pre b) val i).1.SegmentsWell := by
  refine ⟨h.sorted.insert _ _ _, fun p hpc => ?_⟩
  rw [under_insert h.sorted]
  split
  · next hkey =>
    -- a key under two clean prefixes belongs to one series
    have hpre : p.pre = s.pre := by
      rw [pre_eq_key_append, pre_eq_key_append,
        SeriesRef.key_eq_of_startsWith hpc hs hkey (Key.startsWith_segmentOfPrefix s.pre b)]
    rw [hpre]
    obtain ⟨hholds, hstarts⟩ := hp.row rfl i
    refine (h.series s hs).putRow (h.sorted.under _) hholds hstarts hgap hlo fun q hq => ?_
    rw [hholds.points_eq] at hq
    obtain ⟨e, he, rfl⟩ := List.mem_map.mp hq
    exact hhi e he
  · exact h.series p hpc

/-- After a segment is stored in a gap, the gap starts past its last point. -/
theorem SegmentsWell.gap_insert (h : tbl.SegmentsWell) (hp : Placed b es val.segment)
    (hgap : Gap ((tbl.under s.pre).filter (·.1 != Key.segmentOfPrefix s.pre b)) lo hi)
    (hlo : lo ≤ b) (i : Option Int) :
    Gap ((tbl.insert (Key.segmentOfPrefix s.pre b) val i).1.under s.pre)
      (val.segment.lastTimestamp b + 1) hi := by
  rw [under_insert h.sorted, if_pos (Key.startsWith_segmentOfPrefix s.pre b)]
  have hholds : Holds s.pre b es (Key.segmentOfPrefix s.pre b, ⟨val, i⟩) := (hp.row rfl i).1
  refine Gap.putRow (h.sorted.under _) hgap (by have := hp.le_lastTimestamp; omega) fun q hq => ?_
  have := hholds.le_lastTimestamp hq
  simp only at this
  omega

end Table

namespace Tables

/-- From `t` to `t'` a well kept segment table stays well kept. -/
def SegmentsKept (t t' : Tables) : Prop := t.segments.SegmentsWell → t'.segments.SegmentsWell

instance : Std.Refl SegmentsKept := ⟨fun _ => id⟩

instance : IsTrans Tables SegmentsKept := ⟨fun _ _ _ h₁ h₂ => h₂ ∘ h₁⟩

end Tables

namespace Packing

variable {pin : Option Int} {segs : List (Int × Segment)} {chunks : List (List Point)}

theorem Packed.chunks_eq_nil (h : Packed pin [] chunks) : chunks = [] := by
  generalize hs : ([] : List (Int × Segment)) = segs at h
  cases h with
  | nil => rfl
  | snoc => simp at hs

/-- Packing pinned at the first point packs as if unpinned: every segment sits at the first
point of its chunk. -/
theorem Packed.unpin (h : Packed pin segs chunks)
    (hpin : ∀ b₀, pin = some b₀ → ∀ q ∈ chunks.flatten.head?, q.ms = b₀) :
    Packed none segs chunks := by
  induction h with
  | nil => exact .nil
  | @snoc segs chunks b s p c hpk hb hlen hbase ih =>
    refine .snoc (ih fun b₀ hb₀ q hq => hpin b₀ hb₀ q ?_) hb hlen (.inl ?_)
    · rw [List.flatten_append, List.head?_append]
      rw [hq]
      rfl
    · rcases hbase with hbase | ⟨rfl, hpinb⟩
      · exact hbase
      · rw [hpk.chunks_eq_nil] at hpin
        exact (hpin b hpinb p (by simp)).symm

end Packing

@[simp] theorem SeriesWrite.series_gain (w : SeriesWrite) (n : Int) : (w.gain n).series = w.series :=
  rfl

namespace Txn

variable {ctx : Context} {t t' : Tables} {v v' : Versions} {w w' : SeriesWrite}

/-- What storing a segment does: it puts a row holding the segment under the key, for the series
written; the write keeps its series, its remote vector and its count. -/
theorem putSegment_eq_ok {key : Key} {s : Segment} {prev : Option String}
    (h : exec (putSegment w key s prev) ctx t v = (.ok (w', t'), v')) :
    w'.series = w.series ∧ w'.remote = w.remote ∧ w'.liveDelta = w.liveDelta ∧
      ∃ val i, val.segment = s ∧ val.series = w.series ∧
        t'.segments = (t.segments.insert key val i).1 := by
  unfold putSegment at h
  obtain ⟨etag, v₁, h⟩ := Moves.exec_bind_eq_ok Moves.nextEtag h
  extract_lets listing store at h
  -- `store`: the row goes in; a segment without live samples is also listed for purging
  have hstore : ∀ cv {t₀ v₀}, exec (store cv) ctx t₀ v₀ = (.ok (w', t'), v') →
      w'.series = w.series ∧ w'.remote = w.remote ∧ w'.liveDelta = w.liveDelta ∧
        ∃ val i, val.segment = s ∧ val.series = w.series ∧
          t'.segments = (t₀.segments.insert key val i).1 := by
    intro cv t₀ v₀ hs
    unfold store at hs
    extract_lets row put at hs
    have hput : ∀ u {t₁ v₁}, exec (put u) ctx t₁ v₁ = (.ok (w', t'), v') →
        w'.series = w.series ∧ w'.remote = w.remote ∧ w'.liveDelta = w.liveDelta ∧
          ∃ val i, val.segment = s ∧ val.series = w.series ∧
            t'.segments = (t₁.segments.insert key val i).1 := by
      intro u t₁ v₁ hp
      simp only [put, exec_bind, exec_change, exec_pure, Prod.mk.injEq, Except.ok.injEq] at hp
      obtain ⟨⟨rfl, rfl⟩, -⟩ := hp
      exact ⟨rfl, rfl, rfl, row, _, rfl, rfl, rfl⟩
    split at hs
    · obtain ⟨u, t₁, v₁, h₁, h₂⟩ := exec_bind_eq_ok.mp hs
      simp only [exec_change, Prod.mk.injEq, Except.ok.injEq] at h₁
      obtain ⟨⟨-, rfl⟩, -⟩ := h₁
      have := hput u h₂
      exact this
    · exact hput () hs
  split at h
  · obtain ⟨cv, v₂, h⟩ := Moves.exec_bind_eq_ok (Moves.newChangeVector _) h
    exact hstore cv h
  · obtain ⟨cv, v₂, h⟩ := Moves.exec_bind_eq_ok (Moves.lift _) h
    exact hstore cv h
  · obtain ⟨cv, v₂, h⟩ := Moves.exec_bind_eq_ok (Moves.pure _) h
    exact hstore cv h

variable {lo hi : Int}

/-- Storing a placed segment in a gap of its clean series keeps the table well kept, and the gap
starts past it. -/
theorem putSegment_well (hs : w.series.Clean) {b : Int} {es : List Entry} {seg : Segment}
    (hp : Placed b es seg) {key : Key} (hkey : key = Key.segmentOfPrefix w.series.pre b)
    {prev : Option String} (ht : t.segments.SegmentsWell)
    (hgap : Gap ((t.segments.under w.series.pre).filter (·.1 != key)) lo hi)
    (hlo : lo ≤ b) (hhi : ∀ e ∈ es, b + e.offset < hi)
    (h : exec (putSegment w key seg prev) ctx t v = (.ok (w', t'), v')) :
    t'.segments.SegmentsWell ∧ Gap (t'.segments.under w.series.pre) (seg.lastTimestamp b + 1) hi ∧
      w'.series = w.series := by
  subst hkey
  obtain ⟨hser, -, -, val, i, rfl, -, hseg⟩ := putSegment_eq_ok h
  rw [hseg]
  exact ⟨ht.insert hs hp hgap hlo hhi i, ht.gap_insert hp hgap hlo i, hser⟩

/-- Storing packed segments, each at the first point of its chunk, in a gap that takes all their
points keeps the table well kept; the gap then starts past every point stored. -/
theorem putPacked_well (hs : w.series.Clean) {segs : List (Int × Segment)}
    {chunks : List (List Point)} (hpk : Packing.Packed none segs chunks)
    (hasc : Point.Ascending chunks.flatten)
    (hrange : ∀ q ∈ chunks.flatten, Instant.minMillis ≤ q.ms ∧ q.ms ≤ Instant.maxMillis)
    (hlo : ∀ q ∈ chunks.flatten, lo ≤ q.ms) (hhi : ∀ q ∈ chunks.flatten, q.ms < hi)
    {prev : Option String} (ht : t.segments.SegmentsWell)
    (hgap : Gap (t.segments.under w.series.pre) lo hi)
    (h : exec (putPacked w segs prev) ctx t v = (.ok (w', t'), v')) :
    t'.segments.SegmentsWell ∧ w'.series = w.series ∧
      ∀ lo', lo ≤ lo' → (∀ q ∈ chunks.flatten, q.ms < lo') →
        Gap (t'.segments.under w.series.pre) lo' hi := by
  induction hpk generalizing w' t' v' with
  | nil =>
    simp only [putPacked, List.foldlM_nil, exec_pure, Prod.mk.injEq, Except.ok.injEq] at h
    obtain ⟨⟨rfl, rfl⟩, -⟩ := h
    exact ⟨ht, rfl, fun lo' hlo' _ => hgap.mono hlo'⟩
  | @snoc segs chunks b s p c hpk hb hlen hbase ih =>
    obtain rfl : b = p.ms := hbase.resolve_right (by simp)
    have hflat : (chunks ++ [p :: c]).flatten = chunks.flatten ++ p :: c := by simp
    rw [hflat] at hasc hrange hlo hhi ⊢
    obtain ⟨hasc₀, hchunk, hbefore⟩ := Point.ascending_append.mp hasc
    -- the segments of the earlier chunks first, then this one in the gap they leave
    unfold putPacked at h
    rw [List.foldlM_append] at h
    obtain ⟨w₁, t₁, v₁, h₁, h₂⟩ := exec_bind_eq_ok.mp h
    obtain ⟨ht₁, hser₁, hgap₁⟩ := ih hasc₀ (fun q hq => hrange q (List.mem_append_left _ hq))
      (fun q hq => hlo q (List.mem_append_left _ hq)) (fun q hq => hhi q (List.mem_append_left _ hq))
      h₁
    simp only [List.foldlM_cons, List.foldlM_nil, bind_pure] at h₂
    have hp := Placed.of_chunk hb hchunk fun q hq => hrange q (List.mem_append_right _ hq)
    have hgapp := hgap₁ p.ms (hlo p (by simp)) fun q hq => hbefore q hq p List.mem_cons_self
    rw [← hser₁, ← SeriesWrite.series_gain w₁ s.live] at hs hgapp
    rw [← SeriesWrite.series_gain w₁ s.live] at h₂
    have hhi' : ∀ e ∈ (p :: c).map (Point.entryAt s.width p.ms), p.ms + e.offset < hi := by
      intro e he
      obtain ⟨q, hq, rfl⟩ := List.mem_map.mp he
      have := hhi q (List.mem_append_right _ hq)
      simp only [Point.entryAt]
      omega
    obtain ⟨ht', hgap', hser'⟩ := putSegment_well hs hp rfl ht₁
      (hgapp.sublist List.filter_sublist) le_rfl hhi' h₂
    refine ⟨ht', hser'.trans hser₁, fun lo' hlo' hpts => ?_⟩
    -- the segment ends at one of its points, below any bound past all points
    obtain ⟨e, he, hlast⟩ := hp.exists_lastTimestamp
    obtain ⟨q, hq, rfl⟩ := List.mem_map.mp he
    have hq' := hpts q (List.mem_append_right _ hq)
    simp only [Point.entryAt] at hlast
    rw [← hser₁, ← SeriesWrite.series_gain w₁ s.live]
    exact hgap'.mono (by omega)

end Txn

end SeriesStore
