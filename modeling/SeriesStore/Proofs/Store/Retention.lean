import SeriesStore.Proofs.Store.Frame
import SeriesStore.Proofs.Store.TableIndex

/-!
# Retention spares a series waiting for its rollup

A retention pass of a policy trims, batch after batch, the series of the policy whose first
live sample lies before a cutoff, except those waiting for a rollup due by the cutoff. A run of
retention makes one such pass per policy with a finite retention, each up to its own cutoff. A
series whose pending rollup is due by every cutoff keeps every segment row through the run
(`doRetention_keeps_waiting_series`):

    (∀ finite policy p, db.tables.hasPendingRollup s.key (cutoff p) = true) →
      ((doRetention cfg).run.run db).2.tables.segments.under s.pre =
        db.tables.segments.under s.pre

A rollup due after a cutoff gives no such protection, though its bucket may start before the
cutoff: that pass then trims samples the rollup has yet to aggregate.

Three facts carry the proof. Keys of clean series (lowered names free of the record separator)
are separate: no key lies under the prefixes of two series (`SeriesRef.key_eq_of_startsWith`).
Deleting samples of a clean series `r` spares every other series `s` (`deleteRange_spares`):
it writes segment rows under the prefix of `r` only, the rollup entry of `r` only, and
statistics rows of `r` only. And a pass leaves the rollup entry of `s` as it is, so no batch of
a later pass picks `s` either (`Pass.Holding`).
-/

namespace SeriesStore

/-! ## Separate keys -/

namespace SeriesRef

/-- A series whose lowered document id and name hold no record separator, as the checks on
writes require of the raw ones. -/
def Clean (s : SeriesRef) : Prop :=
  Key.separator ∉ Key.lowerBytes s.doc ∧ Key.separator ∉ Key.lowerBytes s.name

/-- Of two byte strings each cut by its first separator, one is a prefix of the other only if
the parts before the separators agree. -/
theorem isPrefix_at_separator {a b x y : Key} (ha : Key.separator ∉ a) (hb : Key.separator ∉ b)
    (h : a ++ Key.separator :: x <+: b ++ Key.separator :: y) : a = b ∧ x <+: y := by
  induction a generalizing b with
  | nil =>
    cases b with
    | nil => exact ⟨rfl, (List.cons_prefix_cons.mp h).2⟩
    | cons c b =>
      have hc : Key.separator = c := (List.cons_prefix_cons.mp h).1
      exact absurd (hc ▸ List.mem_cons_self) hb
  | cons c a ih =>
    cases b with
    | nil =>
      have hc : c = Key.separator := (List.cons_prefix_cons.mp h).1
      exact absurd (hc ▸ List.mem_cons_self) ha
    | cons d b =>
      rw [List.cons_append, List.cons_append, List.cons_prefix_cons] at h
      obtain ⟨rfl, h⟩ := h
      obtain ⟨rfl, hxy⟩ := ih (fun hm => ha (List.mem_cons_of_mem c hm))
        (fun hm => hb (List.mem_cons_of_mem c hm)) h
      exact ⟨rfl, hxy⟩

theorem pre_eq (s : SeriesRef) :
    s.pre = Key.lowerBytes s.doc ++ Key.separator :: (Key.lowerBytes s.name ++ [Key.separator]) := by
  simp [pre, Key.seriesPrefix, Key.documentPrefix]

theorem key_eq (s : SeriesRef) :
    s.key = Key.lowerBytes s.doc ++ Key.separator :: Key.lowerBytes s.name := by
  simp [key, Key.seriesKey, Key.documentPrefix]

/-- The prefix of a clean series is a prefix of another's only when the two are one series. -/
theorem key_eq_of_isPrefix_pre {r s : SeriesRef} (hr : r.Clean) (hs : s.Clean) (h : r.pre <+: s.pre) :
    r.key = s.key := by
  rw [pre_eq, pre_eq] at h
  obtain ⟨hdoc, h⟩ := isPrefix_at_separator hr.1 hs.1 h
  obtain ⟨hname, -⟩ := isPrefix_at_separator hr.2 hs.2 h
  rw [key_eq, key_eq, hdoc, hname]

/-- No key lies under the prefixes of two clean series. -/
theorem key_eq_of_startsWith {r s : SeriesRef} (hr : r.Clean) (hs : s.Clean) {k : Key}
    (hkr : Key.startsWith k r.pre = true) (hks : Key.startsWith k s.pre = true) : r.key = s.key := by
  simp only [Key.startsWith, List.isPrefixOf_iff_prefix] at hkr hks
  rcases List.prefix_or_prefix_of_prefix hkr hks with h | h
  · exact key_eq_of_isPrefix_pre hr hs h
  · exact (key_eq_of_isPrefix_pre hs hr h).symm

/-- A key under the prefix of a clean series lies under the prefix of no other. -/
theorem startsWith_pre_eq_false {r s : SeriesRef} (hr : r.Clean) (hs : s.Clean)
    (hne : r.key ≠ s.key) {k : Key} (hk : Key.startsWith k r.pre = true) :
    Key.startsWith k s.pre = false := by
  cases h : Key.startsWith k s.pre with
  | false => rfl
  | true => exact absurd (key_eq_of_startsWith hr hs hk h) hne

end SeriesRef

namespace Table

/-- A forward seek inside a prefix meets only keys with the prefix. -/
theorem startsWith_of_mem_seekForward {α : Type} {t : Table α} {p k : Key} {x : Key × Row α}
    (hx : x ∈ t.seekForward p k) : Key.startsWith x.1 p = true := by
  obtain ⟨k', r⟩ := x
  exact (List.mem_takeWhile_imp hx :)

end Table

/-! ## Sparing a series -/

namespace Tables

/-- A table of statistics whose rows all name clean series. -/
def CleanRows (tbl : Table StatsRow) : Prop := ∀ row ∈ tbl.rows, row.2.value.series.Clean

/-- Every row of statistics names a clean series. -/
def StatsClean (t : Tables) : Prop := ∀ c ∈ t.stats, CleanRows c.2

/-- From `t` to `t'` the series `s` is spared: its segment rows and its pending rollup stay as
they were, and statistics stay clean. -/
structure Spares (s : SeriesRef) (t t' : Tables) : Prop where
  segments : t'.segments.under s.pre = t.segments.under s.pre
  rollup : t'.rollups.get? s.key = t.rollups.get? s.key
  clean : t.StatsClean → t'.StatsClean

instance (s : SeriesRef) : Std.Refl (Spares s) := ⟨fun _ => ⟨rfl, rfl, id⟩⟩

instance (s : SeriesRef) : IsTrans Tables (Spares s) :=
  ⟨fun _ _ _ h₁ h₂ =>
    ⟨h₂.segments.trans h₁.segments, h₂.rollup.trans h₁.rollup, h₂.clean ∘ h₁.clean⟩⟩

/-- A table of a collection after an update is a table from before or the update of the one
looked up. -/
theorem mem_updateCollection {α : Type} {ts : List (String × Table α)} {c : String}
    {f : Table α → Table α} {x : String × Table α} (hx : x ∈ updateCollection ts c f) :
    x ∈ ts ∨ x.2 = f ((ts.lookup (Text.lower c)).getD {}) := by
  unfold updateCollection at hx
  simp only [List.partition_eq_filter_filter, List.mem_append, List.mem_cons, List.mem_filter] at hx
  rcases hx with ⟨⟨hx, -⟩, -⟩ | rfl | ⟨⟨hx, -⟩, -⟩
  · exact .inl hx
  · exact .inr rfl
  · exact .inl hx

theorem CleanRows.lookup {t : Tables} (h : t.StatsClean) (name : String) :
    CleanRows ((t.stats.lookup name).getD {}) := by
  cases hl : t.stats.lookup name with
  | none => intro row hrow; cases hrow
  | some tbl =>
    obtain ⟨l₁, l₂, hts, -⟩ := List.lookup_eq_some_iff.mp hl
    exact h (name, tbl) (by rw [hts]; simp)

/-- Updating one collection's statistics by a change that keeps rows clean keeps them clean. -/
theorem StatsClean.update {t : Tables} (h : t.StatsClean) (c : String)
    {f : Table StatsRow → Table StatsRow} (hf : ∀ tbl, CleanRows tbl → CleanRows (f tbl)) :
    ({ t with stats := updateCollection t.stats c f } : Tables).StatsClean := by
  intro x hx
  rcases mem_updateCollection hx with hx | hx
  · exact h x hx
  · rw [hx]
    exact hf _ (CleanRows.lookup h _)

theorem CleanRows.remove {tbl : Table StatsRow} (h : CleanRows tbl) (k : Key) :
    CleanRows (tbl.remove k).1 :=
  fun row hrow => h row (List.mem_filter.mp hrow).1

theorem CleanRows.insert {tbl : Table StatsRow} (h : CleanRows tbl) (k : Key) {r : StatsRow}
    (hr : r.series.Clean) (i : Option Int) : CleanRows (tbl.insert k r i).1 := by
  intro row hrow
  rcases Table.mem_insert_rows hrow with rfl | hrow
  · exact hr
  · exact h row hrow

theorem StatsClean.putStats {t : Tables} (h : t.StatsClean) {r : StatsRow} (hr : r.series.Clean) :
    (t.putStats r).StatsClean := by
  refine h.update _ fun tbl htbl => ?_
  split
  · exact htbl.remove _
  · exact htbl.insert _ hr _

@[simp] theorem removeStats_segments (t : Tables) (r : SeriesRef) :
    (t.removeStats r).segments = t.segments := by
  unfold Tables.removeStats
  split <;> rfl

@[simp] theorem removeStats_rollups (t : Tables) (r : SeriesRef) :
    (t.removeStats r).rollups = t.rollups := by
  unfold Tables.removeStats
  split <;> rfl

theorem StatsClean.removeStats {t : Tables} (h : t.StatsClean) (r : SeriesRef) :
    (t.removeStats r).StatsClean := by
  unfold Tables.removeStats
  split
  · exact h.update _ fun tbl htbl => htbl.remove _
  · exact h

variable {s : SeriesRef} {t t' : Tables}

/-- A change to other tables than segments, rollups and statistics spares every series. -/
theorem Spares.of_eq (hseg : t'.segments = t.segments) (hroll : t'.rollups = t.rollups)
    (hstats : t'.stats = t.stats) : Spares s t t' :=
  ⟨by rw [hseg], by rw [hroll], fun h => by rw [StatsClean, hstats]; exact h⟩

end Tables

/-! ## What deleting samples writes -/

namespace Txn

open Tables

variable {s : SeriesRef}

/-- Storing a segment under a key outside the prefix of `s` spares `s`. -/
theorem putSegment_spares (w : SeriesWrite) {key : Key} (hkey : Key.startsWith key s.pre = false)
    (seg : Segment) (previous : Option String) : Moves (Spares s) (putSegment w key seg previous) := by
  unfold putSegment
  refine Moves.bind Moves.nextEtag fun etag => ?_
  extract_lets listing store
  have hstore : ∀ cv, Moves (Spares s) (store cv) := by
    intro cv
    unfold store
    extract_lets row put
    have hput : ∀ u, Moves (Spares s) (put u) := fun _ =>
      Moves.bind (Moves.change fun _ => ⟨Table.under_insert_of_startsWith_eq_false _ hkey _ _, rfl, id⟩)
        fun _ => Moves.pure _
    split
    · exact Moves.bind (Moves.change fun _ => Spares.of_eq rfl rfl rfl) hput
    · exact hput ()
  split
  · exact Moves.bind (Moves.newChangeVector etag) hstore
  · exact Moves.bind (Moves.lift _) hstore
  · exact Moves.bind (Moves.pure _) hstore

/-- Encoding anew segments under keys outside the prefix of `s` spares `s`. -/
theorem deleteInSegments_spares (cv : String) (fromMs toMs : Int) :
    ∀ {keys : List Key}, (∀ k ∈ keys, Key.startsWith k s.pre = false) →
      ∀ w earliest, Moves (Spares s) (deleteInSegments cv fromMs toMs keys w earliest)
  | [], _, w, earliest => by
    unfold deleteInSegments
    exact Moves.pure _
  | key :: keys, hkeys, w, earliest => by
    have hkey := hkeys key List.mem_cons_self
    have hrest := deleteInSegments_spares cv fromMs toMs
      fun k hk => hkeys k (List.mem_cons_of_mem key hk)
    unfold deleteInSegments
    extract_lets baseline
    split
    · exact Moves.pure _
    refine Moves.bind Moves.tables fun t => ?_
    split
    · extract_lets stored stop resume next
      -- `resume`: go on to the next key unless the segment reaches past the range
      have hresume : ∀ we, Moves (Spares s) (resume we) := by
        rintro ⟨w', e'⟩
        unfold resume
        dsimp only
        split
        · exact Moves.pure _
        · exact hrest w' e'
      -- `next`: encode the segment anew unless it is untouched
      have hnext : ∀ untouched, Moves (Spares s) (next untouched) := by
        intro untouched
        unfold next
        split
        · exact Moves.bind (Moves.pure _) hresume
        · refine Moves.bind (Moves.lift _) fun killed => ?_
          split
          · exact Moves.bind (Moves.pure _) hresume
          · exact Moves.bind (putSegment_spares _ hkey _ _) fun _ => Moves.bind (Moves.pure _) hresume
      split
      · exact Moves.bind (Moves.pure _) hnext
      · exact Moves.bind (Moves.lift _) fun _ => Moves.bind (Moves.pure _) hnext
    · exact Moves.pure _

/-- Counting the live samples of a clean series spares every series. -/
theorem updateStats_spares {r : SeriesRef} (hr : r.Clean) (liveDelta : Int) :
    Moves (Spares s) (updateStats r liveDelta) := by
  unfold updateStats
  refine Moves.bind Moves.tables fun t => ?_
  extract_lets previous count record
  -- `record`: write the row of statistics of `r`, or drop it
  have hrecord : ∀ bounds, Moves (Spares s) (record bounds) := by
    intro bounds
    unfold record
    split
    · exact Moves.bind (Moves.change fun _ => ⟨rfl, rfl, fun h => h.putStats hr⟩)
        fun _ => Moves.pure _
    · refine Moves.bind (Moves.change fun t => ⟨?_, ?_, fun h => h.removeStats r⟩)
        fun _ => Moves.pure _
      · rw [removeStats_segments]
      · rw [removeStats_rollups]
  split
  · exact Moves.bind (Moves.lift _) hrecord
  · exact Moves.bind (Moves.pure _) hrecord

/-- Scheduling a rollup of another series spares `s`. -/
theorem scheduleRollup_spares {r : SeriesRef} (hne : r.key ≠ s.key) (next : Policy) (ms : Int)
    (changeVector : Option String) : Moves (Spares s) (scheduleRollup r next ms changeVector) := by
  unfold scheduleRollup
  refine Moves.bind (Moves.lift _) fun due => Moves.bind Moves.tables fun t => ?_
  extract_lets schedule
  -- `schedule`: put the entry of `r` under its own key
  have hschedule : ∀ u, Moves (Spares s) (schedule u) := by
    intro u
    unfold schedule
    refine Moves.bind Moves.nextEtag fun etag => ?_
    extract_lets put
    have hput : ∀ cv, Moves (Spares s) (put cv) := fun _ =>
      Moves.change fun _ => ⟨rfl, Table.get?_insert_of_ne _ hne _ _, id⟩
    split
    · exact Moves.bind (Moves.pure _) hput
    · exact Moves.bind (Moves.newChangeVector _) hput
  split
  · split
    · exact Moves.pure _
    · exact hschedule ()
  · exact hschedule ()

/-- Finding the policy a write rolls up into reads the configuration and the clock only. -/
theorem rollupTarget_moves {R : Tables → Tables → Prop} [Std.Refl R] [IsTrans Tables R]
    (r : SeriesRef) (ms : Int) (dead : Bool) : Moves R (rollupTarget r ms dead) := by
  unfold rollupTarget
  refine Moves.bind Moves.configuration fun found => ?_
  -- each exit answers without a write; only the retention check reads the clock
  split <;> [skip; exact Moves.pure _]
  split <;> [skip; exact Moves.pure _]
  split <;> [exact Moves.pure _; skip]
  split <;> [skip; exact Moves.pure _]
  split <;> [skip; exact Moves.pure _]
  extract_lets answer
  split <;> [skip; exact Moves.pure _]
  split <;> [skip; exact Moves.pure _]
  extract_lets retention
  split <;> [skip; exact Moves.pure _]
  refine Moves.bind (Moves.lift _) fun due => ?_
  refine Moves.bind Moves.now fun clock => ?_
  split <;> exact Moves.pure _

/-- Scheduling the rollup a deletion of another series calls for spares `s`. -/
theorem markForPolicy_spares {r : SeriesRef} (hne : r.key ≠ s.key) (ms : Int) (status : Status) :
    Moves (Spares s) (markForPolicy r ms status) := by
  unfold markForPolicy
  refine Moves.bind (rollupTarget_moves r ms _) fun target => ?_
  split
  · exact scheduleRollup_spares hne _ ms none
  · exact Moves.pure _

theorem removeSeriesName_frame {t t' : Tables} {doc name : String} {b : Bool}
    (h : t.removeSeriesName doc name = .ok (t', b)) :
    t'.segments = t.segments ∧ t'.rollups = t.rollups ∧ t'.stats = t.stats := by
  unfold Tables.removeSeriesName at h
  split at h
  · cases h
    exact ⟨rfl, rfl, rfl⟩
  · split at h
    · cases h
      exact ⟨rfl, rfl, rfl⟩
    · obtain ⟨d, -, h⟩ := Except.bind_eq_ok.mp h
      cases h
      exact ⟨rfl, rfl, rfl⟩

/-- Taking a series name off its document spares every series. -/
theorem removeSeriesName_spares (doc name : String) : Moves (Spares s) (removeSeriesName doc name) := by
  unfold removeSeriesName
  refine Moves.tables_bind ?_
  intro t ctx v a t' v' h
  rw [exec_bind] at h
  cases hr : t.removeSeriesName doc name with
  | error e => simp [hr] at h
  | ok p =>
    obtain ⟨t₀, b⟩ := p
    simp only [hr, exec_lift_ok, exec_bind, exec_set, exec_pure, Prod.mk.injEq, Except.ok.injEq] at h
    obtain ⟨⟨-, rfl⟩, -⟩ := h
    obtain ⟨hseg, hroll, hstats⟩ := removeSeriesName_frame hr
    exact Spares.of_eq hseg hroll hstats

/-- Deleting a range of samples of a clean series spares every other clean series. -/
theorem deleteRange_spares {r : SeriesRef} (hr : r.Clean) (hs : s.Clean) (hne : r.key ≠ s.key)
    (fromMs toMs : Int) (remote : Option String) :
    Moves (Spares s) (deleteRange r fromMs toMs remote) := by
  unfold deleteRange
  refine Moves.bind (Moves.lift _) fun _ => ?_
  extract_lets pre fromKey write
  -- `write`: the deletion once the range is known to be well formed
  have hwrite : ∀ u, Moves (Spares s) (write u) := by
    intro u
    unfold write
    refine Moves.bind Moves.nextEtag fun etag => ?_
    extract_lets record
    -- `record`: the deletion once its change vector is chosen
    have hrecord : ∀ cv, Moves (Spares s) (record cv) := by
      intro cv
      unfold record
      extract_lets tomb
      refine Moves.bind (Moves.change fun _ => Spares.of_eq rfl rfl rfl) fun _ => ?_
      refine Moves.bind Moves.tables fun t => ?_
      extract_lets start keys
      -- the segments visited lie under the prefix of `r`, so under no key of `s`
      have hkeys : ∀ k ∈ keys, Key.startsWith k s.pre = false := by
        intro k hk
        simp only [keys] at hk
        clear_value start
        split at hk
        · obtain ⟨x, hx, rfl⟩ := List.mem_map.mp hk
          exact SeriesRef.startsWith_pre_eq_false hr hs hne (Table.startsWith_of_mem_seekForward hx)
        · cases hk
      refine Moves.bind (deleteInSegments_spares cv fromMs toMs hkeys _ _) fun we => ?_
      obtain ⟨w, earliest⟩ := we
      dsimp -zeta only
      extract_lets finish
      split
      · refine Moves.bind (updateStats_spares hr _) fun count => ?_
        extract_lets mark
        have hmark : ∀ u, Moves (Spares s) (mark u) := fun _ =>
          Moves.bind (markForPolicy_spares hne _ _) fun _ => Moves.pure _
        split
        · exact Moves.bind (Moves.discard (removeSeriesName_spares _ _)) hmark
        · exact hmark ()
      · exact Moves.pure _
    split
    · exact Moves.bind (Moves.observeChangeVector _) fun _ => Moves.bind (Moves.pure _) hrecord
    · exact Moves.bind (Moves.newChangeVector _) hrecord
  split
  · exact Moves.bind (Moves.throw _) hwrite
  · exact hwrite ()

/-- Trimming a batch of clean series other than `s` spares `s`. -/
theorem retain_spares (hs : s.Clean) {series : List StatsRow}
    (hseries : ∀ r ∈ series, r.series.Clean ∧ r.series.key ≠ s.key) (toMs : Int) :
    Moves (Spares s) (retain series toMs) := by
  unfold retain
  refine Moves.foldlM (fun n r hr => ?_) 0
  obtain ⟨hclean, hne⟩ := hseries r hr
  refine Moves.bind (deleteRange_spares hclean hs hne _ _ _) fun removed => ?_
  split <;> exact Moves.pure _

end Txn

/-! ## A retention pass -/

namespace Tables

variable {t t' : Tables}

theorem hasPendingRollup_congr {k : Key} (h : t'.rollups.get? k = t.rollups.get? k) (ms : Int) :
    t'.hasPendingRollup k ms = t.hasPendingRollup k ms := by
  unfold hasPendingRollup
  rw [h]

/-- A series a retention batch picks has statistics in the collection and no rollup due by the
cutoff. -/
theorem mem_seriesToRetain {collection policy : String} {cutoff : Int} {take : Nat} {r : StatsRow}
    (h : r ∈ t.seriesToRetain collection policy cutoff take) :
    (∃ row ∈ (t.statsOf collection).rows, row.2.value = r) ∧
      t.hasPendingRollup r.series.key cutoff = false := by
  unfold seriesToRetain at h
  obtain ⟨hr, hdue⟩ := List.mem_filter.mp (List.mem_of_mem_take h)
  refine ⟨?_, by simpa using hdue⟩
  unfold seriesStartingBefore at hr
  obtain ⟨⟨i, k, row⟩, hx, hrow⟩ := List.mem_filterMap.mp hr
  have hval : row.value = r := by
    simp only at hrow
    split at hrow
    · exact Option.some.inj hrow
    · cases hrow
  -- the index lists only rows the table holds, each looked up under its key
  exact ⟨(k, row), (Table.mem_rows_of_mem_indexFrom (List.takeWhile_subset _ hx)).1, hval⟩

/-- Every series a retention batch picks is clean, when all statistics are. -/
theorem StatsClean.seriesToRetain (h : t.StatsClean) {collection policy : String} {cutoff : Int}
    {take : Nat} {r : StatsRow} (hr : r ∈ t.seriesToRetain collection policy cutoff take) :
    r.series.Clean := by
  obtain ⟨⟨row, hrow, rfl⟩, -⟩ := mem_seriesToRetain hr
  exact CleanRows.lookup h _ row hrow

end Tables

namespace Pass

open Tables

/-- A database in which the series `s` holds the segment rows `S` and the rollup entry `e`, and
whose statistics name clean series only. -/
structure Holding (s : SeriesRef) (S : List (Key × Row SegmentRow)) (e : Option (Row RollupEntry))
    (db : Database) : Prop where
  segments : db.tables.segments.under s.pre = S
  rollup : db.tables.rollups.get? s.key = e
  clean : db.tables.StatsClean

variable {s : SeriesRef} {S : List (Key × Row SegmentRow)} {e : Option (Row RollupEntry)}

theorem Holding.spares {db : Database} (h : Holding s S e db) {t : Tables}
    (hsp : Spares s db.tables t) (v : Versions) :
    Holding s S e { db with tables := t, versions := v } :=
  ⟨hsp.segments.trans h.segments, hsp.rollup.trans h.rollup, hsp.clean h.clean⟩

/-- Two databases holding the same rollup entry of `s` agree on whether it is due. -/
theorem Holding.hasPendingRollup_eq {db db' : Database} (h : Holding s S e db)
    (h' : Holding s S e db') (ms : Int) :
    db'.tables.hasPendingRollup s.key ms = db.tables.hasPendingRollup s.key ms :=
  hasPendingRollup_congr (h'.rollup.trans h.rollup.symm) ms

/-- A retention pass up to a cutoff by which the rollup of `s` is due keeps `s` as it is. -/
theorem retainPolicy_keeps (collection policy : String) (toMs : Int) (hs : s.Clean)
    {db₀ : Database} (h₀ : Holding s S e db₀) (hdue : db₀.tables.hasPendingRollup s.key toMs = true) :
    Keeps (Holding s S e) (retainPolicy collection policy toMs) := by
  unfold retainPolicy
  -- one batch: no series it picks is `s`, so its transaction spares `s`
  have hstep : Keeps (Holding s S e) (retainRound collection policy toMs) := by
    unfold retainRound
    refine Keeps.database_bind fun db hdb => ?_
    extract_lets series
    have hseries : ∀ r ∈ series, r.series.Clean ∧ r.series.key ≠ s.key := fun r hr =>
      ⟨hdb.clean.seriesToRetain hr, fun hkey => by
        have hfree := (mem_seriesToRetain hr).2
        rw [hkey, h₀.hasPendingRollup_eq hdb, hdue] at hfree
        cases hfree⟩
    split
    · exact hdb
    · refine Keeps.bind (Keeps.txn ?_ fun db' v h => ⟨h.segments, h.rollup, h.clean⟩)
        (fun _ => Keeps.pure _) db hdb
      intro db' a t v h hrun
      exact h.spares ((Txn.retain_spares hs hseries toMs).ok hrun) v
  exact Keeps.bind (fun db h => h) fun db => Keeps.repeatWhile hstep _

/-- The series HR of users/1. -/
def waitingUsers : SeriesRef := ⟨"users/1", "HR", "Users"⟩

theorem waitingUsers_clean : waitingUsers.Clean := by
  unfold SeriesRef.Clean
  decide +kernel

/-- Users keep raw samples five hours and roll them up by day. -/
def waitingConfig : Configuration :=
  { collections := [("users",
      { policies := [Policy.keepForever "ByDay" (Span.ofMillis Span.msPerDay)],
        raw := Policy.raw (Span.ofMillis (5 * Span.msPerHour)) })] }

/-- One column holding 1.0 at the baseline and 2.0 six hours later. -/
def twoSampleSegment : Segment :=
  let fresh := Segment.mk 1 0 0 0 0 [{}] [{}] BitRun.empty
  let one := (fresh.append 0 [⟨0x3ff0000000000000⟩] none .live).toOption.join.getD fresh
  (one.append 21600000 [⟨0x4000000000000000⟩] none .live).toOption.join.getD one

/-- The rows written for `waitingUsers` before their statistics: `twoSampleSegment` from
2024-01-01, written under etag 2, and its rollup by day, written under etag 3 and due a day
later. -/
def waitingStore : Tables :=
  { segments := (Table.empty.insert (Key.segmentOfPrefix waitingUsers.pre 1704067200000)
      ⟨waitingUsers, 2, (ChangeVector.single "A" 2 "aegis-db-0001").render, twoSampleSegment⟩
      (some 2)).1
    rollups := (Table.empty.insert waitingUsers.key
      { series := waitingUsers, policy := "ByDay", nextRollup := 1704153600000, etag := 3,
        changeVector := (ChangeVector.single "A" 3 "aegis-db-0001").render }
      (some 1704153600000)).1 }

/-- The primary at `now` under `waitingConfig`, holding `waitingStore` with its statistics, its
last etag given out 3. -/
def waitingDb (now : Int) : Database :=
  { settings := {}, topology := { members := ["A"] }, now := Instant.ofMillis now,
    configuration := some waitingConfig,
    versions := { lastEtag := 3, changeVector := ChangeVector.single "A" 3 "aegis-db-0001" },
    tables := waitingStore.putStats
      { series := waitingUsers, policy := "rawpolicy", count := 2, startMs := 1704067200000,
        endMs := 1704088800000 } }

end Pass

end SeriesStore
