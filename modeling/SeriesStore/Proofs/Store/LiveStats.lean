import Mathlib
import SeriesStore.Proofs.Store.Succeeds
import SeriesStore.Proofs.Store.SegmentsWell
import SeriesStore.Proofs.Store.Retention
import SeriesStore.Proofs.Store.TableIndex

/-!
# Statistics that match the segments

The live points of a series are the live points its segment rows hold, row after row
(`Tables.live`). A row of statistics is *exact* (`Tables.ExactRow`) when it names a clean series
under its own key and in its own collection, carries the policy the series' name gives, is
indexed by its first timestamp, and counts the series' live points and gives the first and last
of them. The statistics are exact (`Tables.StatsExact`) when every row is, each table is sorted,
tables have distinct names, every series with a live point has a row, and no key has rows in
two tables: the statistics invariant.

Reading the first and last live timestamps off the segment rows (`Tables.liveBounds`) gives the
bounds of the live points of a series whose rows lie well (`liveBounds_eq`), and `updateStats`
then writes an exact row, or removes the row of a series left with no live point
(`updateStats_exact`).
-/

namespace SeriesStore

open StoredRow

/-! ## Live points -/

namespace Tables

/-- The live points of a series, in the order its segment rows hold them. -/
def live (t : Tables) (s : SeriesRef) : List Point :=
  (seriesPoints (t.segments.under s.pre)).filter Point.isLive

/-- Two series with one key share their segment rows. -/
theorem pre_eq_of_key_eq {r s : SeriesRef} (h : r.key = s.key) : r.pre = s.pre := by
  rw [Table.pre_eq_key_append, Table.pre_eq_key_append, h]

theorem live_eq_of_key_eq (t : Tables) {r s : SeriesRef} (h : r.key = s.key) :
    t.live r = t.live s := by
  rw [live, live, pre_eq_of_key_eq h]

theorem live_congr {t t' : Tables} {s : SeriesRef}
    (h : t'.segments.under s.pre = t.segments.under s.pre) : t'.live s = t.live s := by
  rw [live, live, h]

end Tables

/-- The first and last timestamps of a list of points, when it has one. -/
def boundsOf (ps : List Point) : Option (Int × Int) :=
  ps.head?.bind fun a => ps.getLast?.map fun b => (a.ms, b.ms)

theorem boundsOf_eq_none_iff {ps : List Point} : boundsOf ps = none ↔ ps = [] := by
  cases ps with
  | nil => simp [boundsOf]
  | cons p ps => simp [boundsOf, List.getLast?_cons]

/-! ## Reading the bounds off the rows -/

namespace StoredRow

variable {pre : Key} {b : Int} {es : List Entry} {r : Key × Row SegmentRow}

/-- The live points of a row are its live entries, placed at its baseline. -/
theorem Holds.filter_isLive (h : Holds pre b es r) :
    (points r).filter Point.isLive = (es.filter Entry.isLive).map (Point.ofEntry b) := by
  rw [h.points_eq, List.filter_map]
  rfl

/-- A row has live samples exactly when it holds a live point. -/
theorem Holds.live_ne_zero (h : Holds pre b es r) :
    r.2.value.segment.live ≠ 0 ↔ (points r).filter Point.isLive ≠ [] := by
  rw [h.built.sound.live_eq, h.filter_isLive, ne_eq, List.length_eq_zero_iff, ne_eq,
    List.map_eq_nil_iff]

end StoredRow

section Bounds

variable {pre : Key}

/-- Reading the rows of a series greatest first, the last live timestamp is the last of its live
points. -/
theorem lastLiveOf_eq {rows : List (Key × Row SegmentRow)}
    (h : ∀ r ∈ rows, ∃ b es, Holds pre b es r) :
    lastLiveOf rows = .ok (((seriesPoints rows.reverse).filter Point.isLive).getLast?.map (·.ms)) := by
  induction rows with
  | nil => rfl
  | cons r rows ih =>
    obtain ⟨b, es, hr⟩ := h r List.mem_cons_self
    have ih := ih fun x hx => h x (List.mem_cons_of_mem r hx)
    rw [List.reverse_cons, seriesPoints_append, List.filter_append, List.getLast?_append,
      seriesPoints_cons, seriesPoints_nil, List.append_nil, hr.filter_isLive]
    unfold lastLiveOf
    by_cases hlive : r.2.value.segment.live = 0
    · -- no live entry: the row adds nothing, the rows below decide
      have hnil : es.filter Entry.isLive = [] := by
        rw [← List.length_eq_zero_iff, ← hr.built.sound.live_eq, hlive]
      rw [if_pos hlive, ih, hnil]
      simp
    · rw [if_neg hlive, hr.built.sound.samples, Except.ok_bind]
      cases hlast : (es.filter Entry.isLive).getLast? with
      | none =>
        rw [List.getLast?_eq_none_iff.mp hlast]
        simpa using ih
      | some e =>
        have hb : (Key.baselineOf r.1).getD 0 = b := hr.baseline_eq
        rw [List.getLast?_map, hlast]
        simp only [Option.map_some, Option.some_or, hb]
        rfl

/-- A segment key comes before the prefix followed by nine bytes `0xFF`. -/
theorem lt_replicate_ff {bs : Key} {n : Nat} (h : bs.length < n) :
    Key.lt bs (List.replicate n 0xFF) = true := by
  induction bs generalizing n with
  | nil =>
    obtain ⟨m, rfl⟩ : ∃ m, n = m + 1 := ⟨n - 1, by simp at h; omega⟩
    rfl
  | cons c cs ih =>
    obtain ⟨m, rfl⟩ : ∃ m, n = m + 1 := ⟨n - 1, by simp at h; omega⟩
    have hcs := ih (n := m) (by simp at h; omega)
    rw [Key.lt_iff] at hcs ⊢
    rw [List.replicate_succ, Key.compare]
    by_cases hc : c = 0xFF
    · subst hc
      simpa [Ord.compare, compareOfLessAndEq] using hcs
    · have hlt : c < 0xFF := by
        have h₁ : c.toNat < 256 := c.toNat_lt
        have h₂ : c.toNat ≠ 255 := fun h' => hc (UInt8.toNat_inj.mp (by simpa using h'))
        rw [UInt8.lt_iff_toNat_lt]
        simp only [UInt8.reduceToNat]
        omega
      simp [Ord.compare, compareOfLessAndEq, hlt]

end Bounds

namespace Tables

variable {t : Tables} {s : SeriesRef}

/-- The first and last live timestamps read off the rows of a series that lie well are the
bounds of its live points. -/
theorem liveBounds_eq (ht : t.segments.SegmentsWell) (hs : s.Clean) :
    t.liveBounds s.pre = .ok (boundsOf (t.live s)) := by
  have hholds := (ht.series s hs).layout.holds
  -- every key of the series lies below the prefix followed by nine bytes `0xFF`
  have hupper : t.segments.seekBefore s.pre (s.pre ++ List.replicate 9 0xFF) =
      (t.segments.under s.pre).reverse := by
    rw [Table.seekBefore_eq ht.sorted (Key.startsWith_append _ _), List.filter_eq_self.mpr]
    intro x hx
    obtain ⟨b, es, hx⟩ := hholds x hx
    rw [hx.key_eq, Key.segmentOfPrefix, Key.lt_iff, Key.compare_append_left, ← Key.lt_iff]
    exact lt_replicate_ff (by simp)
  -- a row's live count is not zero exactly when it holds a live point
  have hcount : ∀ x ∈ t.segments.under s.pre,
      (x.2.value.segment.live != 0) = true ↔ (points x).filter Point.isLive ≠ [] := by
    intro x hx
    obtain ⟨b, es, hb⟩ := hholds x hx
    rw [bne_iff_ne, hb.live_ne_zero]
  unfold liveBounds
  dsimp only
  rw [Table.withPrefix_eq ht.sorted]
  split
  · next hfind =>
    -- no row has a live sample, so there is no live point
    have hnil : t.live s = [] := by
      rw [live, seriesPoints, List.filter_flatMap, List.flatMap_eq_nil_iff]
      intro x hx
      have := List.find?_eq_none.mp hfind x hx
      by_contra hne
      exact this ((hcount x hx).mpr hne)
    rw [hnil]
    rfl
  · next k row hfind =>
    obtain ⟨hxlive, A, B, hsplit, hA⟩ := List.find?_eq_some_iff_append.mp hfind
    have hx : (k, row) ∈ t.segments.under s.pre := by rw [hsplit]; simp
    obtain ⟨b, es, hb⟩ := hholds _ hx
    -- the rows before hold no live point, so the first live point is this row's first
    have hAnil : (seriesPoints A).filter Point.isLive = [] := by
      rw [seriesPoints, List.filter_flatMap, List.flatMap_eq_nil_iff]
      intro y hy
      have hy' : y ∈ t.segments.under s.pre := by rw [hsplit]; simp [hy]
      by_contra hne
      exact absurd ((hcount y hy').mpr hne) (by simpa using hA y hy)
    have hlive : t.live s = (es.filter Entry.isLive).map (Point.ofEntry b) ++
        (seriesPoints B).filter Point.isLive := by
      rw [live, hsplit, seriesPoints_append, seriesPoints_cons, List.filter_append,
        List.filter_append, hAnil, hb.filter_isLive, List.nil_append]
    have hne : es.filter Entry.isLive ≠ [] := by
      have := (hcount _ hx).mp hxlive
      rwa [hb.filter_isLive, ne_eq, List.map_eq_nil_iff] at this
    obtain ⟨e, he⟩ : ∃ e, es.find? Entry.isLive = some e := by
      rw [← List.head?_filter]
      exact Option.isSome_iff_exists.mp (List.isSome_head?.mpr hne)
    have hne' : t.live s ≠ [] := by
      rw [hlive]
      exact fun h => hne (List.map_eq_nil_iff.mp (List.append_eq_nil_iff.mp h).1)
    obtain ⟨q, hq⟩ : ∃ q, (t.live s).getLast? = some q := by
      cases h : (t.live s).getLast? with
      | none => exact absurd (List.getLast?_eq_none_iff.mp h) hne'
      | some q => exact ⟨q, rfl⟩
    have hhead : (t.live s).head? = some (Point.ofEntry b e) := by
      rw [hlive, List.head?_append, List.head?_map, List.head?_filter, he]
      rfl
    rw [hb.built.sound.decode]
    simp only [firstLive, he, Except.ok_bind]
    rw [hupper, lastLiveOf_eq fun y hy => hholds y (List.mem_reverse.mp hy), List.reverse_reverse]
    -- the last live point bounds them
    have hq' : ((seriesPoints (t.segments.under s.pre)).filter Point.isLive).getLast? = some q := hq
    have hbk : (Key.baselineOf k).getD 0 = b := hb.baseline_eq
    simp only [hq', Option.map_some, Except.ok_bind, boundsOf, hhead, Option.bind_some, hq, hbk]
    rfl

/-! ## Tables by collection -/

section Collections

variable {α : Type} {ts ts' : List (String × Table α)} {c n : String} {f : Table α → Table α}

/-- Among tables with distinct names, a table is the one under its name. -/
theorem lookup_of_mem (hts : (ts.map Prod.fst).Nodup) {x : String × Table α} (hx : x ∈ ts) :
    ts.lookup x.1 = some x.2 := by
  induction ts with
  | nil => cases hx
  | cons y ys ih =>
    obtain ⟨k, tbl⟩ := y
    rw [List.map_cons, List.nodup_cons] at hts
    rcases List.mem_cons.mp hx with rfl | hx
    · simp
    · have hne : (x.1 == k) = false := by
        rw [beq_eq_false_iff_ne]
        rintro h
        exact hts.1 (List.mem_map.mpr ⟨x, hx, h⟩)
      simp [List.lookup_cons, hne, ih hts.2 hx]

theorem mem_of_lookup {x : Table α} (h : ts.lookup n = some x) : (n, x) ∈ ts := by
  obtain ⟨l₁, l₂, rfl, -⟩ := List.lookup_eq_some_iff.mp h
  simp

/-- Lists of tables with distinct names that hold the same tables under a name look it up
alike. -/
theorem lookup_eq_of_mem_iff (h : (ts.map Prod.fst).Nodup) (h' : (ts'.map Prod.fst).Nodup)
    (hmem : ∀ x, (n, x) ∈ ts ↔ (n, x) ∈ ts') : ts.lookup n = ts'.lookup n := by
  cases hl : ts'.lookup n with
  | some x => exact lookup_of_mem h ((hmem x).mpr (mem_of_lookup hl))
  | none =>
    cases hl' : ts.lookup n with
    | none => rfl
    | some x =>
      have := lookup_of_mem h' ((hmem x).mp (mem_of_lookup hl'))
      rw [hl] at this
      cases this

theorem mem_updateCollection_iff {x : String × Table α} :
    x ∈ updateCollection ts c f ↔
      (x ∈ ts ∧ x.1 ≠ Text.lower c) ∨ x = (Text.lower c, f ((ts.lookup (Text.lower c)).getD {})) := by
  unfold updateCollection
  simp only [List.partition_eq_filter_filter, List.mem_append, List.mem_cons, List.mem_filter,
    bne_iff_ne, ne_eq]
  constructor
  · rintro (⟨⟨hx, hne⟩, -⟩ | rfl | ⟨⟨hx, hne⟩, -⟩)
    · exact .inl ⟨hx, hne⟩
    · exact .inr rfl
    · exact .inl ⟨hx, hne⟩
  · rintro (⟨hx, hne⟩ | rfl)
    · by_cases hlt : x.1 < Text.lower c
      · exact .inl ⟨⟨hx, hne⟩, by simpa using hlt⟩
      · exact .inr (.inr ⟨⟨hx, hne⟩, by simpa using hlt⟩)
    · exact .inr (.inl rfl)

/-- Updating one table keeps the names distinct. -/
theorem nodup_updateCollection (hts : (ts.map Prod.fst).Nodup) :
    ((updateCollection ts c f).map Prod.fst).Nodup := by
  unfold updateCollection
  simp only [List.partition_eq_filter_filter]
  set rest := ts.filter (·.1 != Text.lower c)
  -- the other tables, cut in two and put around the updated one, are a permutation of them
  have hperm : List.Perm
      (((rest.filter fun x => decide (x.1 < Text.lower c)) ++
        (Text.lower c, f ((ts.lookup (Text.lower c)).getD {})) ::
          rest.filter fun x => !decide (x.1 < Text.lower c)).map Prod.fst)
      (Text.lower c :: rest.map Prod.fst) := by
    rw [List.map_append, List.map_cons]
    refine List.perm_middle.trans (List.Perm.cons _ ?_)
    rw [← List.map_append]
    exact (List.filter_append_perm _ _).map _
  refine hperm.nodup_iff.mpr (List.nodup_cons.mpr ⟨?_, ?_⟩)
  · intro hmem
    obtain ⟨x, hx, hxn⟩ := List.mem_map.mp hmem
    simp [rest, hxn] at hx
  · exact hts.sublist (List.filter_sublist.map _)

theorem lookup_updateCollection_self (hts : (ts.map Prod.fst).Nodup) :
    (updateCollection ts c f).lookup (Text.lower c) = some (f ((ts.lookup (Text.lower c)).getD {})) :=
  lookup_of_mem (nodup_updateCollection hts) (mem_updateCollection_iff.mpr (.inr rfl))

theorem lookup_updateCollection_of_ne (hts : (ts.map Prod.fst).Nodup) (hn : n ≠ Text.lower c) :
    (updateCollection ts c f).lookup n = ts.lookup n := by
  refine lookup_eq_of_mem_iff (nodup_updateCollection hts) hts fun x => ?_
  rw [mem_updateCollection_iff]
  constructor
  · rintro (⟨hx, -⟩ | hx)
    · exact hx
    · exact absurd (congrArg Prod.fst hx) hn
  · exact fun hx => .inl ⟨hx, hn⟩

end Collections

/-! ## Exact statistics -/

/-- A row of statistics, in the table named `name`, that describes its series exactly. -/
structure ExactRow (t : Tables) (name : String) (x : Key × Row StatsRow) : Prop where
  clean : x.2.value.series.Clean
  valid : Key.validateDocumentId x.2.value.series.doc = .ok ()
  key_eq : x.1 = x.2.value.series.key
  collection_eq : Text.lower x.2.value.series.collection = name
  policy_eq : x.2.value.policy = policyOfSeries x.2.value.series.name
  index_eq : x.2.index = some x.2.value.startMs
  count_eq : x.2.value.count = (t.live x.2.value.series).length
  bounds_eq : boundsOf (t.live x.2.value.series) = some (x.2.value.startMs, x.2.value.endMs)

/-- The statistics invariant: every row is exact, each table sorted, the tables have distinct
names, every series with a live point has a row, and no key has rows in two tables. -/
structure StatsExact (t : Tables) : Prop where
  rows : ∀ c ∈ t.stats, ∀ x ∈ c.2.rows, t.ExactRow c.1 x
  sorted : ∀ c ∈ t.stats, c.2.Sorted
  indexed : ∀ c ∈ t.stats, c.2.IndexExact
  names : (t.stats.map Prod.fst).Nodup
  complete : ∀ s : SeriesRef, s.Clean → t.live s ≠ [] → ∃ c ∈ t.stats, ∃ x ∈ c.2.rows, x.1 = s.key
  single : ∀ c ∈ t.stats, ∀ c' ∈ t.stats, ∀ x ∈ c.2.rows, ∀ x' ∈ c'.2.rows, x.1 = x'.1 → c.1 = c'.1

/-- The statistics of a series written anew from its live points: a row with their count and
bounds, or none when it has no live point. -/
def restat (t : Tables) (s : SeriesRef) : Tables :=
  match boundsOf (t.live s) with
  | some (a, b) => t.putStats ⟨s, policyOfSeries s.name, (t.live s).length, a, b⟩
  | none => t.removeStats s

@[simp] theorem restat_segments (t : Tables) (s : SeriesRef) : (t.restat s).segments = t.segments := by
  unfold restat
  split
  · rfl
  · exact removeStats_segments t s

@[simp] theorem restat_rollups (t : Tables) (s : SeriesRef) : (t.restat s).rollups = t.rollups := by
  unfold restat
  split
  · rfl
  · exact removeStats_rollups t s

@[simp] theorem live_restat (t : Tables) (s r : SeriesRef) : (t.restat s).live r = t.live r :=
  live_congr (by rw [restat_segments])

theorem ExactRow.congr {t t' : Tables} {name : String} {x : Key × Row StatsRow}
    (h : t.ExactRow name x) (hl : t'.live x.2.value.series = t.live x.2.value.series) :
    t'.ExactRow name x :=
  ⟨h.clean, h.valid, h.key_eq, h.collection_eq, h.policy_eq, h.index_eq, hl ▸ h.count_eq,
    hl ▸ h.bounds_eq⟩

/-! ## Writing the statistics of a series anew -/

section Restat

variable {t : Tables} {s : SeriesRef}

theorem sorted_lookup (hsorted : ∀ c ∈ t.stats, c.2.Sorted) (n : String) :
    ((t.stats.lookup n).getD {}).Sorted := by
  cases hl : t.stats.lookup n with
  | none => exact Table.sorted_empty
  | some tbl => exact hsorted _ (mem_of_lookup hl)

/-- The row of statistics written for a series with live points bounded by `a` and `b`. -/
abbrev restatRow (t : Tables) (s : SeriesRef) (a b : Int) : Key × Row StatsRow :=
  (s.key, ⟨⟨s, policyOfSeries s.name, (t.live s).length, a, b⟩, some a⟩)

theorem live_ne_nil_of_boundsOf {ps : List Point} {a b : Int} (h : boundsOf ps = some (a, b)) :
    ps ≠ [] := fun hnil => by
  rw [← boundsOf_eq_none_iff] at hnil
  rw [hnil] at h
  cases h

/-- Writing a series anew either leaves the statistics alone, when its collection has no table
and it has no live point, or rewrites the table of its collection: there the row under its key
gives way to the new row, if any. -/
theorem restat_stats_eq (t : Tables) (s : SeriesRef) :
    ((t.restat s).stats = t.stats ∧ (t.stats.lookup (Text.lower s.collection)).isSome = false ∧
      boundsOf (t.live s) = none) ∨
    ∃ f : Table StatsRow → Table StatsRow,
      (t.restat s).stats = updateCollection t.stats s.collection f ∧
      (∀ tbl : Table StatsRow, tbl.IndexExact → (f tbl).IndexExact) ∧
      ∀ tbl : Table StatsRow, tbl.Sorted → (f tbl).Sorted ∧ ∀ x, x ∈ (f tbl).rows ↔
        (x ∈ tbl.rows ∧ x.1 ≠ s.key) ∨
          ∃ a b, boundsOf (t.live s) = some (a, b) ∧ x = t.restatRow s a b := by
  unfold restat
  split
  · next a b hab =>
    have hcount : (t.live s).length ≠ 0 := by
      rw [ne_eq, List.length_eq_zero_iff]
      exact live_ne_nil_of_boundsOf hab
    unfold putStats
    dsimp only
    simp only [hcount, if_false]
    refine .inr ⟨_, rfl, fun tbl hidx => hidx.insert _ _ _, fun tbl htbl => ?_⟩
    refine ⟨htbl.insert _ _ _, fun x => ?_⟩
    rw [Table.rows_insert, Table.mem_putRow htbl]
    constructor
    · rintro (rfl | h)
      · exact .inr ⟨a, b, hab, rfl⟩
      · exact .inl h
    · rintro (h | ⟨a', b', hab', rfl⟩)
      · exact .inr h
      · rw [hab] at hab'
        cases hab'
        exact .inl rfl
  · next hnone =>
    unfold removeStats
    split
    · refine .inr ⟨_, rfl, fun tbl hidx => hidx.remove _, fun tbl htbl => ⟨htbl.remove _, fun x => ?_⟩⟩
      simp [hnone]
    · next hno => exact .inl ⟨rfl, Bool.eq_false_iff.mpr hno, hnone⟩

/-- A row of the statistics written anew is an old row, not under the series' key in the table
of its collection, or the new row of the series. -/
theorem mem_restat_stats (hsorted : ∀ c ∈ t.stats, c.2.Sorted) {c' : String × Table StatsRow}
    (hc' : c' ∈ (t.restat s).stats) {x : Key × Row StatsRow} (hx : x ∈ c'.2.rows) :
    (∃ c ∈ t.stats, c.1 = c'.1 ∧ x ∈ c.2.rows ∧ (c.1 = Text.lower s.collection → x.1 ≠ s.key)) ∨
      c'.1 = Text.lower s.collection ∧
        ∃ a b, boundsOf (t.live s) = some (a, b) ∧ x = t.restatRow s a b := by
  rcases restat_stats_eq t s with ⟨heq, hno, -⟩ | ⟨f, heq, hf⟩
  · -- no table for the collection: the rows are the old ones, none in such a table
    rw [heq] at hc'
    refine .inl ⟨c', hc', rfl, hx, fun hname => absurd ?_ (Bool.not_eq_true _ ▸ hno)⟩
    exact List.lookup_isSome_iff.mpr ⟨c', hc', by simp [hname]⟩
  rw [heq] at hc'
  rcases mem_updateCollection_iff.mp hc' with ⟨hc, hne⟩ | rfl
  · exact .inl ⟨c', hc, rfl, hx, fun h => absurd h hne⟩
  rcases ((hf.2 _ (sorted_lookup hsorted _)).2 x).mp hx with ⟨hx, hxk⟩ | hnew
  · -- an old row of the collection's table, which then is in the statistics
    cases hl : t.stats.lookup (Text.lower s.collection) with
    | none => rw [hl] at hx; cases hx
    | some tbl =>
      rw [hl] at hx
      exact .inl ⟨_, mem_of_lookup hl, rfl, hx, fun _ => hxk⟩
  · exact .inr ⟨rfl, hnew⟩

/-- A row of another key stays where it was. -/
theorem mem_restat_stats_of_ne (hsorted : ∀ c ∈ t.stats, c.2.Sorted) (hnames : (t.stats.map Prod.fst).Nodup)
    {c : String × Table StatsRow} (hc : c ∈ t.stats) {x : Key × Row StatsRow} (hx : x ∈ c.2.rows)
    (hxk : x.1 ≠ s.key) : ∃ c' ∈ (t.restat s).stats, c'.1 = c.1 ∧ x ∈ c'.2.rows := by
  rcases restat_stats_eq t s with ⟨heq, -⟩ | ⟨f, heq, hf⟩
  · exact ⟨c, heq ▸ hc, rfl, hx⟩
  rw [heq]
  by_cases hname : c.1 = Text.lower s.collection
  · -- the table of the collection keeps the rows of other keys
    refine ⟨_, mem_updateCollection_iff.mpr (.inr rfl), hname.symm, ?_⟩
    refine ((hf.2 _ (sorted_lookup hsorted _)).2 x).mpr (.inl ⟨?_, hxk⟩)
    rw [← hname, lookup_of_mem hnames hc]
    exact hx
  · exact ⟨c, mem_updateCollection_iff.mpr (.inl ⟨hc, hname⟩), rfl, hx⟩

/-- A series with live points has its new row in the table of its collection. -/
theorem mem_restat_stats_self (hsorted : ∀ c ∈ t.stats, c.2.Sorted) {a b : Int}
    (hab : boundsOf (t.live s) = some (a, b)) :
    ∃ c' ∈ (t.restat s).stats, c'.1 = Text.lower s.collection ∧ t.restatRow s a b ∈ c'.2.rows := by
  rcases restat_stats_eq t s with ⟨-, -, hnone⟩ | ⟨f, heq, hf⟩
  · rw [hab] at hnone
    cases hnone
  rw [heq]
  exact ⟨_, mem_updateCollection_iff.mpr (.inr rfl), rfl,
    ((hf.2 _ (sorted_lookup hsorted _)).2 _).mpr (.inr ⟨a, b, hab, rfl⟩)⟩

theorem sorted_restat_stats (hsorted : ∀ c ∈ t.stats, c.2.Sorted) :
    ∀ c ∈ (t.restat s).stats, c.2.Sorted := by
  rcases restat_stats_eq t s with ⟨heq, -⟩ | ⟨f, heq, hf⟩
  · exact heq ▸ hsorted
  rw [heq]
  intro c hc
  rcases mem_updateCollection_iff.mp hc with ⟨hc, -⟩ | rfl
  · exact hsorted c hc
  · exact (hf.2 _ (sorted_lookup hsorted _)).1

theorem indexed_lookup (hidx : ∀ c ∈ t.stats, c.2.IndexExact) (n : String) :
    ((t.stats.lookup n).getD {}).IndexExact := by
  cases hl : t.stats.lookup n with
  | none => exact Table.indexExact_empty
  | some tbl => exact hidx _ (mem_of_lookup hl)

theorem indexed_restat_stats (hidx : ∀ c ∈ t.stats, c.2.IndexExact) :
    ∀ c ∈ (t.restat s).stats, c.2.IndexExact := by
  rcases restat_stats_eq t s with ⟨heq, -⟩ | ⟨f, heq, hf, -⟩
  · exact heq ▸ hidx
  rw [heq]
  intro c hc
  rcases mem_updateCollection_iff.mp hc with ⟨hc, -⟩ | rfl
  · exact hidx c hc
  · exact hf _ (indexed_lookup hidx _)

theorem names_restat_stats (hnames : (t.stats.map Prod.fst).Nodup) :
    ((t.restat s).stats.map Prod.fst).Nodup := by
  rcases restat_stats_eq t s with ⟨heq, -⟩ | ⟨f, heq, -⟩
  · exact heq ▸ hnames
  · exact heq ▸ nodup_updateCollection hnames

/-- The statistics stay exact when one series' segment rows change and its statistics are
written anew, provided its rows live in the table of its collection only. -/
theorem StatsExact.restat {t₀ : Tables} (h : t₀.StatsExact) (hstats : t.stats = t₀.stats)
    (hlive : ∀ r : SeriesRef, r.Clean → r.key ≠ s.key → t.live r = t₀.live r) (hs : s.Clean)
    (hvalid : Key.validateDocumentId s.doc = .ok ())
    (hhome : ∀ c ∈ t₀.stats, ∀ x ∈ c.2.rows, x.1 = s.key → c.1 = Text.lower s.collection) :
    (t.restat s).StatsExact := by
  rw [← hstats] at hhome
  have hsorted : ∀ c ∈ t.stats, c.2.Sorted := hstats ▸ h.sorted
  have hnames : (t.stats.map Prod.fst).Nodup := hstats ▸ h.names
  have hexact : ∀ c ∈ t.stats, ∀ x ∈ c.2.rows, t₀.ExactRow c.1 x := hstats ▸ h.rows
  -- an old row of another key describes its series as before
  have hold : ∀ c ∈ t.stats, ∀ x ∈ c.2.rows, x.1 ≠ s.key → (t.restat s).ExactRow c.1 x := by
    intro c hc x hx hxk
    refine (hexact c hc x hx).congr ?_
    rw [live_restat, hlive _ (hexact c hc x hx).clean]
    rwa [← (hexact c hc x hx).key_eq]
  -- an old row that stays has another key than the series
  have hkey : ∀ c ∈ t.stats, ∀ x ∈ c.2.rows, (c.1 = Text.lower s.collection → x.1 ≠ s.key) →
      x.1 ≠ s.key := fun c hc x hx hne hxk => hne (hhome c hc x hx hxk) hxk
  refine ⟨fun c' hc' x hx => ?_, sorted_restat_stats hsorted,
    indexed_restat_stats (hstats ▸ h.indexed), names_restat_stats hnames,
    fun r hr hne => ?_, fun c₁ hc₁ c₂ hc₂ x₁ hx₁ x₂ hx₂ hk => ?_⟩
  · rcases mem_restat_stats hsorted hc' hx with ⟨c, hc, hname, hx, hne⟩ | ⟨hname, a, b, hab, rfl⟩
    · exact hname ▸ hold c hc x hx (hkey c hc x hx hne)
    · rw [hname]
      exact ⟨hs, hvalid, rfl, rfl, rfl, rfl, by simp, by simpa using hab⟩
  · rw [live_restat] at hne
    by_cases hrk : r.key = s.key
    · -- the series itself has live points, so its new row is there
      rw [live_eq_of_key_eq t hrk] at hne
      obtain ⟨a, b, hab⟩ : ∃ a b, boundsOf (t.live s) = some (a, b) := by
        cases hb : boundsOf (t.live s) with
        | none => exact absurd (boundsOf_eq_none_iff.mp hb) hne
        | some ab => exact ⟨ab.1, ab.2, rfl⟩
      obtain ⟨c', hc', -, hx⟩ := mem_restat_stats_self hsorted hab
      exact ⟨c', hc', _, hx, hrk.symm⟩
    · rw [hlive r hr hrk] at hne
      obtain ⟨c, hc, x, hx, hxr⟩ := h.complete r hr hne
      rw [← hstats] at hc
      obtain ⟨c', hc', -, hx'⟩ := mem_restat_stats_of_ne hsorted hnames hc hx (hxr ▸ hrk)
      exact ⟨c', hc', x, hx', hxr⟩
  · -- two rows of one key: both old, or both the new row of the series
    rcases mem_restat_stats hsorted hc₁ hx₁ with ⟨c, hc, hn₁, hx₁, hne₁⟩ | ⟨hn₁, a, b, -, rfl⟩ <;>
      rcases mem_restat_stats hsorted hc₂ hx₂ with ⟨d, hd, hn₂, hx₂, hne₂⟩ | ⟨hn₂, a', b', -, rfl⟩
    · rw [← hn₁, ← hn₂]
      exact h.single c (hstats ▸ hc) d (hstats ▸ hd) x₁ hx₁ x₂ hx₂ hk
    · exact absurd hk (hkey c hc x₁ hx₁ hne₁)
    · exact absurd hk.symm (hkey d hd x₂ hx₂ hne₂)
    · rw [hn₁, hn₂]

/-- Exact statistics stay exact over a change that keeps the statistics and the live points of
every clean series. -/
theorem StatsExact.of_live {t₀ : Tables} (h : t₀.StatsExact) (hstats : t.stats = t₀.stats)
    (hlive : ∀ r : SeriesRef, r.Clean → t.live r = t₀.live r) : t.StatsExact := by
  refine ⟨fun c hc x hx => ?_, by rw [hstats]; exact h.sorted, by rw [hstats]; exact h.indexed,
    by rw [hstats]; exact h.names,
    fun r hr hne => ?_, by rw [hstats]; exact h.single⟩
  · rw [hstats] at hc
    exact (h.rows c hc x hx).congr (hlive _ (h.rows c hc x hx).clean)
  · rw [hstats]
    exact h.complete r hr (hlive r hr ▸ hne)

/-- A row found in the statistics of a collection is a row of the table under its lowered
name. -/
theorem mem_of_statsOf_get? {c : String} {k : Key} {row : Row StatsRow}
    (h : (t.statsOf c).get? k = some row) :
    ∃ c' ∈ t.stats, c'.1 = Text.lower c ∧ (k, row) ∈ c'.2.rows := by
  unfold statsOf ofCollection at h
  cases hl : t.stats.lookup (Text.lower c) with
  | none => rw [hl] at h; cases h
  | some tbl =>
    rw [hl] at h
    exact ⟨_, mem_of_lookup hl, rfl, Table.mem_of_get? h⟩

/-- The count on record for a series whose rows live in the table of its collection is the
number of its live points. -/
theorem StatsExact.count_on_record (h : t.StatsExact) (hs : s.Clean)
    (hhome : ∀ c ∈ t.stats, ∀ x ∈ c.2.rows, x.1 = s.key → c.1 = Text.lower s.collection) :
    ((t.stats? s.collection s.doc s.name).map fun x => (x.count : Int)).getD 0 =
      (t.live s).length := by
  by_cases hne : t.live s = []
  · -- an exact row has live points, so none is on record
    have hnone : t.stats? s.collection s.doc s.name = none := by
      cases hg : (t.statsOf s.collection).get? s.key with
      | none => simp only [stats?, Option.map_eq_none_iff]; exact hg
      | some row =>
        obtain ⟨c, hc, -, hx⟩ := mem_of_statsOf_get? hg
        have hrow := h.rows c hc _ hx
        have := live_ne_nil_of_boundsOf hrow.bounds_eq
        rw [live_eq_of_key_eq t hrow.key_eq.symm] at this
        exact absurd hne this
    rw [hnone, hne]
    rfl
  · -- the series' row sits in the table of its collection and counts its live points
    obtain ⟨c, hc, x, hx, hxs⟩ := h.complete s hs hne
    have hname := hhome c hc x hx hxs
    have hget : (t.statsOf s.collection).get? s.key = some x.2 := by
      unfold statsOf ofCollection
      rw [← hname, lookup_of_mem h.names hc, Option.getD_some, ← hxs]
      exact (h.sorted c hc).get?_of_mem hx
    have hrow := h.rows c hc x hx
    simp only [stats?]
    rw [show Key.seriesKey s.doc s.name = s.key from rfl, hget]
    simp only [Option.map_some, Option.getD_some, hrow.count_eq]
    rw [live_eq_of_key_eq t (hrow.key_eq.symm.trans hxs)]

end Restat

end Tables

namespace Txn

open SeriesStore.Tables

variable {ctx : Context} {t : Tables} {v : Versions} {s : SeriesRef}

/-- Counting the live samples of a clean series whose rows lie well, from the count on record
and the change in live samples, writes its statistics anew from its live points. -/
theorem updateStats_restat (ht : t.segments.SegmentsWell) (hs : s.Clean) {delta : Int}
    (hdelta : ((t.stats? s.collection s.doc s.name).map fun x => (x.count : Int)).getD 0 + delta =
      (t.live s).length) :
    Succeeds (updateStats s delta) ctx t v fun n t' v' =>
      n = (t.live s).length ∧ t' = t.restat s ∧ v' = v := by
  unfold updateStats
  refine Succeeds.bind (Succeeds.tables (Q := fun a t' v' => t = a ∧ t = t' ∧ v = v')
    ⟨rfl, rfl, rfl⟩) ?_
  rintro _ _ _ ⟨rfl, rfl, rfl⟩
  extract_lets previous count record
  have hcount : count = (t.live s).length := by
    simp only [count, previous]
    omega
  -- `record`: write the row of the bounds read, or drop the row
  have hrecord : ∀ bounds t' v', bounds = boundsOf (t.live s) ∧ t = t' ∧ v = v' →
      Succeeds (record bounds) ctx t' v' fun n t' v' =>
        n = (t.live s).length ∧ t' = t.restat s ∧ v' = v := by
    rintro bounds _ _ ⟨hb, rfl, rfl⟩
    unfold record
    split
    · refine Succeeds.bind (Succeeds.change (Q := fun _ t' v' => t' = t.restat s ∧ v' = v) ?_)
        fun _ _ _ h => Succeeds.pure _ ⟨hcount, h⟩
      rw [restat, ← hb, hcount]
      exact ⟨rfl, rfl⟩
    · have hnil : t.live s = [] := boundsOf_eq_none_iff.mp hb.symm
      refine Succeeds.bind (Succeeds.change (Q := fun _ t' v' => t' = t.restat s ∧ v' = v) ?_)
        fun _ _ _ h => Succeeds.pure _ ⟨by rw [hnil]; rfl, h⟩
      rw [restat, ← hb]
      exact ⟨rfl, rfl⟩
  split
  · exact Succeeds.bind (Succeeds.lift (liveBounds_eq ht hs) ⟨rfl, rfl, rfl⟩) hrecord
  · next hzero =>
    -- no live sample is left, so there are no bounds to read
    have hnil : t.live s = [] := by
      rw [← List.length_eq_zero_iff, ← hcount]
      omega
    exact Succeeds.bind (Succeeds.pure none ⟨by rw [hnil]; rfl, rfl, rfl⟩) hrecord

end Txn

end SeriesStore
