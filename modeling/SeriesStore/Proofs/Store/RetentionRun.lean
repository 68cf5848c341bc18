import Mathlib
import SeriesStore.Proofs.Store.RetentionBatch
import SeriesStore.Proofs.Store.Rounds
import SeriesStore.Proofs.Store.Retention
import SeriesStore.Proofs.Replication.VectorOrder

/-!
# Retention trims exactly the expired samples

On the primary, a retention run makes one pass per policy with a finite retention of every
collection not disabled, each up to its own cutoff. This module proves what the run leaves, for
statistics that match the segments and a database whose change vector is ahead of every stored
one (`Pass.doRetention_trims_expired`): the statistics stay exact; every series of such a policy
has a rollup due by the cutoff or no live sample before it; and each series either keeps its live
samples or loses exactly those up to the cutoff of a pass that lists it.

A pass ends, well before its fuel runs out, on an empty batch. Each batch that is not empty
trims its first series, which is then due no more, while no other series becomes due: the keys
still due (`RetentionPass.dueKeys`) lose one, and there are fewer of them than rows of
statistics, which the fuel exceeds. An empty batch leaves the pass done. Distinct passes read
distinct tables or policies, so a series is trimmed by one pass only, from the rows it had at
the start.
-/

namespace SeriesStore

open Tables Versions

/-- The count of policies of some collections, their raw policies included. -/
def countPolicies (cs : List (String × PolicyChain)) : Nat :=
  (cs.map fun c => c.2.allPolicies.length).sum

theorem countPolicies_cons (c : String × PolicyChain) (cs : List (String × PolicyChain)) :
    countPolicies (c :: cs) = c.2.allPolicies.length + countPolicies cs := by
  simp [countPolicies]

/-- The etags a retention pass of one policy may give out in a run from `db`: a batch for each
row of statistics at most, each series of a batch deleted with at most `deletionEtags`. -/
def Database.passEtags (db : Database) : Nat :=
  db.settings.retentionBatch * db.tables.deletionEtags * (db.tables.stats.map fun c => c.2.size).sum

/-- The etags a retention run over `cfg` from `db` may give out: a pass for every policy. -/
def Database.retentionEtags (db : Database) (cfg : Configuration) : Nat :=
  countPolicies cfg.collections * db.passEtags

open ChangeVector in
/-- A vector of well-formed entries, one per database, is ahead of stored texts that each list
an entry and list the database `d` at an etag already given out: stamping `d` at a newer etag
that fits in 64 bits puts the vector above every one of them. -/
theorem Versions.aheadOf_of_listed {v : Versions} {n d : String} {t : Tables}
    (hnd : CvEntry.WellFormed ⟨n, 0, d⟩) (hv : ∀ e ∈ v.changeVector.entries, e.WellFormed)
    (hdistinct : DistinctDbs v.changeVector.entries) (hlast : 0 ≤ v.lastEtag)
    (hrows : ∀ r ∈ t.segments.rows, ∃ es, written r.2.value.changeVector = .ok es ∧ es ≠ [] ∧
      listedEtag es d ≤ v.lastEtag) :
    v.AheadOf n d t := by
  intro r hr e hlt hmax
  obtain ⟨es, hes, hne, hlisted⟩ := hrows r hr
  -- the stamped vector lists well-formed entries, so its text reads back to them
  have hwf : ∀ x ∈ (v.changeVector.observe ⟨n, e, d⟩).entries, x.WellFormed := by
    intro x hx
    rcases mem_observe hx with hx | rfl
    · exact hv x hx
    · have hfits : I64.fits e = true := by
        rw [Key.fits_iff]
        simp only [I64.max] at hmax
        omega
      exact ⟨hnd.node_ne_nil, hnd.colon_not_mem_node, hnd.comma_not_mem_node, hnd.head_node,
        hnd.db_ne_nil, hnd.comma_not_mem_db, hnd.last_db, show 0 ≤ e by omega, hfits⟩
  have hw := written_render hwf
  obtain ⟨st, hst⟩ : ∃ st, conflictStatus (v.changeVector.observe ⟨n, e, d⟩).render
      r.2.value.changeVector = .ok st := by
    rw [conflictStatus_eq hw hes]
    split_ifs <;> exact ⟨_, rfl⟩
  refine ⟨st, hst, fun hmerged => ?_⟩
  -- already merged would list `d` in the stored text at an etag no older than the stamped one
  have hbelow := (conflictStatus_answers hw hes hne).1.mp (hmerged ▸ hst) d
  have hstamped : e ≤ listedEtag (v.changeVector.observe ⟨n, e, d⟩).entries d := by
    rw [(hdistinct.observe _).listedEtag_eq]
    change e ≤ (seen (v.changeVector.observe ⟨n, e, d⟩) d).getD 0
    rw [seen_observe hdistinct, if_pos rfl]
    cases seen v.changeVector d <;> simp [Option.merge]
  omega

/-- Entries of the default node and database are well formed at every etag a counter gives. -/
theorem CvEntry.wellFormed_default {etag : Int} (h₀ : 0 ≤ etag) (h₁ : etag ≤ I64.max) :
    CvEntry.WellFormed ⟨({} : Settings).nodeTag, etag, ({} : Settings).databaseId⟩ := by
  have hnode : "A".toList.head? = some 'A' := by decide +kernel
  have hdb : "aegis-db-0001".toList.getLast? = some '1' := by decide +kernel
  refine ⟨?_, ?_, ?_, ?_, ?_, ?_, ?_, h₀, ?_⟩ <;> dsimp only
  · decide
  · decide
  · decide
  · rw [hnode]
    simp [Text.isBlank]
  · decide
  · decide
  · rw [hdb]
    simp [Text.isBlank]
  · rw [Key.fits_iff]
    simp only [I64.max] at h₁
    omega

namespace Pass

/-- The state of a retention run from `db₀`, with the passes `H` begun and `D` done, as a
database: `db₀` with other tables and versions. -/
def RetentionAt (db₀ : Database) (H D : List RetentionPass) (db : Database) : Prop :=
  ∃ t v, db = { db₀ with tables := t, versions := v } ∧
    RetentionState db₀.settings.nodeTag db₀.settings.databaseId db₀.tables db₀.versions H D t v

variable {db₀ : Database} {D : List RetentionPass} {P : RetentionPass}

/-- A retention pass of an untouched policy ends, done, and gives out at most
`db₀.passEtags` etags when the counter has room for them: each batch it makes trims its first
series, so the keys still due lose one each time, and the fuel exceeds their number. -/
theorem retainPolicy_done (h₀ : db₀.tables.StatsExact)
    (hahead : db₀.versions.AheadOf db₀.settings.nodeTag db₀.settings.databaseId db₀.tables)
    (hgrid : Configuration.GridsOk db₀.configuration) (htake : 0 < db₀.settings.retentionBatch)
    (hD : P.key ∉ D.map RetentionPass.key) {db : Database} (h : RetentionAt db₀ (P :: D) D db)
    (hroom : db.versions.lastEtag + db₀.passEtags ≤ I64.max) :
    Succeeds (retainPolicy P.collection P.policy P.cutoff) db fun _ db' =>
      RetentionAt db₀ (P :: D) (P :: D) db' ∧
        db'.versions.lastEtag ≤ db.versions.lastEtag + db₀.passEtags := by
  unfold retainPolicy
  refine Succeeds.database_bind ?_
  -- a batch gives out at most `M` etags; the room left covers a batch for each key still due
  obtain ⟨M, hM⟩ : ∃ M, M = db₀.settings.retentionBatch * db₀.tables.deletionEtags := ⟨_, rfl⟩
  have hpass : db₀.passEtags = M * (db₀.tables.stats.map fun x => x.2.size).sum := by
    rw [hM]
    rfl
  refine Succeeds.repeatWhile (I := fun db₁ => RetentionAt db₀ (P :: D) D db₁ ∧
      db₁.versions.lastEtag + ((M * (P.dueKeys db₁.tables).card : Nat) : Int) ≤
        db.versions.lastEtag + db₀.passEtags)
    (fun db => (P.dueKeys db.tables).card) (fun db₁ hdb => ?_) db.passFuel db ⟨h, ?_⟩ ?_
  · obtain ⟨⟨t, v, rfl, hst⟩, hroom₁⟩ := hdb
    unfold retainRound
    refine Succeeds.database_bind ?_
    extract_lets series
    have hseries : series = t.seriesToRetain P.collection P.policy P.cutoff
      db₀.settings.retentionBatch := rfl
    clear_value series
    split
    · -- an empty batch: the pass is done
      next hempty =>
      refine Succeeds.pure false ⟨fun h => absurd h (by simp),
        fun _ => ⟨⟨t, v, rfl, hst.leave ?_⟩, by simp only at hroom₁ ⊢; omega⟩⟩
      rw [hseries, List.isEmpty_iff] at hempty
      exact RetentionPass.done_of_seriesToRetain_eq_nil hst.well hst.exact htake hempty
    · -- a batch with a first series: trimming it lowers the keys still due
      next hne =>
      obtain ⟨r₀, rest, rfl⟩ : ∃ r₀ rest, series = r₀ :: rest := by
        cases series with
        | nil => simp at hne
        | cons r₀ rest => exact ⟨r₀, rest, rfl⟩
      obtain ⟨c, hc, hname, x, hx, rfl, hp, hdue, hmin, hlt⟩ :=
        RetentionPass.due_of_mem_seriesToRetain hst.well hst.exact (hseries ▸ List.mem_cons_self)
      have hxe := hst.exact.rows c hc x hx
      obtain ⟨q, hq, hqms⟩ := hxe.startMs_mem
      have hfirst : ∃ q ∈ t.live x.2.value.series, q.within Instant.minMillis P.cutoff = true :=
        ⟨q, hq, Point.within_eq_true_iff.mpr (by omega)⟩
      -- the batch fits the room left: at most `M` etags, while a key is still due
      have hlen : (x.2.value :: rest).length ≤ db₀.settings.retentionBatch := by
        rw [hseries, Tables.seriesToRetain]
        exact List.length_take_le _ _
      have hbatch : (x.2.value :: rest).length * db₀.tables.deletionEtags ≤ M :=
        hM ▸ Nat.mul_le_mul_right _ hlen
      have hdueM : M ≤ M * (P.dueKeys t).card :=
        Nat.le_mul_of_pos_right M (Finset.card_pos.mpr ⟨_, hdue⟩)
      simp only at hroom₁
      refine Succeeds.bind (Succeeds.txn (hst.retain h₀ hahead rfl rfl hgrid (by omega)
        (by omega) (hseries ▸ hst.batch h₀ hD _) hfirst)) ?_
      rintro k db' ⟨t', v', rfl, hst', hk, hsub, hetags⟩
      -- the first series was due, and is due no more
      rw [← hxe.key_eq] at hsub
      have hfewer : (P.dueKeys t').card < (P.dueKeys t).card :=
        calc (P.dueKeys t').card
            ≤ ((P.dueKeys t).erase x.1).card := Finset.card_le_card hsub
          _ < (P.dueKeys t).card := Finset.card_erase_lt_of_mem hdue
      have hstep : M * (P.dueKeys t').card + M ≤ M * (P.dueKeys t).card := by
        rw [← Nat.mul_succ]
        exact Nat.mul_le_mul_left M hfewer
      refine Succeeds.pure _ ⟨fun _ => ⟨⟨⟨t', v', rfl, hst'⟩, ?_⟩, hfewer⟩,
        fun h => absurd h (by simp [hk])⟩
      simp only
      omega
  · -- at the start, the keys due are rows of statistics of the run's start
    obtain ⟨t, v, rfl, hst⟩ := h
    have hcard := Nat.mul_le_mul_left M (hst.card_dueKeys_le_start P)
    rw [hpass]
    simp only
    omega
  · obtain ⟨t, v, rfl, -⟩ := h
    exact lt_of_le_of_lt RetentionPass.card_dueKeys_le (Database.stats_lt_passFuel _)

/-- The passes a retention run over the collections `cs` makes at `nowMs`: one for each policy
with a finite retention of each collection not disabled, up to its cutoff. -/
def RetentionPass.Scheduled (nowMs : Int) (cs : List (String × PolicyChain))
    (P : RetentionPass) : Prop :=
  ∃ c ∈ cs, c.2.disabled = false ∧ ∃ p ∈ c.2.allPolicies, p.retention.isInfinite = false ∧
    P = ⟨c.1, p.name, p.retention.subtractFromMillis nowMs⟩

theorem RetentionPass.scheduled_append {nowMs : Int} {pre : List (String × PolicyChain)}
    {c : String × PolicyChain} {P : RetentionPass} :
    RetentionPass.Scheduled nowMs (pre ++ [c]) P ↔ RetentionPass.Scheduled nowMs pre P ∨
      c.2.disabled = false ∧ ∃ p ∈ c.2.allPolicies, p.retention.isInfinite = false ∧
        P = ⟨c.1, p.name, p.retention.subtractFromMillis nowMs⟩ := by
  simp only [RetentionPass.Scheduled, List.mem_append, List.mem_singleton]
  constructor
  · rintro ⟨c', hc' | rfl, rest⟩
    · exact .inl ⟨c', hc', rest⟩
    · exact .inr rest
  · rintro (⟨c', hc', rest⟩ | rest)
    · exact ⟨c', .inl hc', rest⟩
    · exact ⟨c, .inr rfl, rest⟩

/-- A retention run from `db₀` makes the passes scheduled for its collections, one after the
other, each from the state the one before left, while the etag counter has room for a pass of
every policy. -/
theorem doRetention_run (cfg : Configuration) (hprimary : db₀.isPrimary = true)
    (hwell : db₀.tables.segments.SegmentsWell) (h₀ : db₀.tables.StatsExact)
    (hahead : db₀.versions.AheadOf db₀.settings.nodeTag db₀.settings.databaseId db₀.tables)
    (hgrid : Configuration.GridsOk db₀.configuration) (htake : 0 < db₀.settings.retentionBatch)
    (hnames : (cfg.collections.map fun c => Text.lower c.1).Nodup)
    (hpolicies : ∀ c ∈ cfg.collections, (c.2.allPolicies.map fun p => Text.lower p.name).Nodup)
    (hroom : db₀.versions.lastEtag + db₀.retentionEtags cfg ≤ I64.max) :
    Succeeds (doRetention cfg) db₀ fun _ db' => ∃ D : List RetentionPass,
      (∀ P, P ∈ D ↔ RetentionPass.Scheduled db₀.now.millis cfg.collections P) ∧
        RetentionAt db₀ D D db' := by
  unfold doRetention
  refine Succeeds.database_bind ?_
  rw [if_neg (by simp [hprimary])]
  extract_lets nowMs
  unfold Database.retentionEtags at hroom
  -- over the collections left: the passes done are those scheduled for the collections before,
  -- and the room left holds a pass for each policy left
  refine Succeeds.bind (Succeeds.forIn (I := fun rest _ db => ∃ pre D,
      cfg.collections = pre ++ rest ∧ (∀ P, P ∈ D ↔ RetentionPass.Scheduled nowMs pre P) ∧
        RetentionAt db₀ D D db ∧
        db.versions.lastEtag + ((countPolicies rest * db₀.passEtags : Nat) : Int) ≤
          db₀.versions.lastEtag + ((countPolicies cfg.collections * db₀.passEtags : Nat) : Int))
    (fun c rest _ db hI => ?_) cfg.collections PUnit.unit db₀ ?_) ?_
  · obtain ⟨pre, D, hpre, hD, hdb, hleft⟩ := hI
    obtain ⟨collection, chain⟩ := c
    rw [countPolicies_cons] at hleft
    dsimp only at hleft
    have hc : (collection, chain) ∈ cfg.collections := by rw [hpre]; simp
    -- the collection is new: no pass done reads its table
    have hfresh : ∀ c' ∈ pre, Text.lower c'.1 ≠ Text.lower collection := by
      rw [hpre, List.map_append, List.nodup_append] at hnames
      exact fun c' hc' => hnames.2.2 _ (List.mem_map_of_mem hc') _ List.mem_cons_self
    dsimp -zeta only
    split
    · next hon =>
      have hchain := hpolicies _ hc
      -- over the policies left: the passes done are those of the collections before and of the
      -- policies before, and the room left holds a pass for each policy left
      refine Succeeds.bind (Succeeds.forIn (I := fun restP _ db => ∃ preP D',
          chain.allPolicies = preP ++ restP ∧ (∀ P, P ∈ D' ↔ RetentionPass.Scheduled nowMs pre P ∨
            ∃ p ∈ preP, p.retention.isInfinite = false ∧
              P = ⟨collection, p.name, p.retention.subtractFromMillis nowMs⟩) ∧
          RetentionAt db₀ D' D' db ∧
          db.versions.lastEtag + (((restP.length + countPolicies rest) * db₀.passEtags : Nat) : Int) ≤
            db₀.versions.lastEtag + ((countPolicies cfg.collections * db₀.passEtags : Nat) : Int))
        (fun p restP _ db hI => ?_) chain.allPolicies PUnit.unit db
        ⟨[], D, rfl, fun P => by simp [hD], hdb, by simpa using hleft⟩) ?_
      · obtain ⟨preP, D', hpreP, hD', hdb', hleftP⟩ := hI
        have hone : ((p :: restP).length + countPolicies rest) * db₀.passEtags =
            (restP.length + countPolicies rest) * db₀.passEtags + db₀.passEtags := by
          rw [List.length_cons, Nat.add_right_comm, Nat.succ_mul]
        -- the policy is new in its chain
        have hnewP : ∀ p' ∈ preP, Text.lower p'.name ≠ Text.lower p.name := by
          rw [hpreP, List.map_append, List.nodup_append] at hchain
          exact fun p' hp' => hchain.2.2 _ (List.mem_map_of_mem hp') _ List.mem_cons_self
        split
        · -- a finite retention: the pass of the policy, new to the run
          next hfin =>
          have hfin' : p.retention.isInfinite = false := by simpa using hfin
          have hkey : RetentionPass.key ⟨collection, p.name, p.retention.subtractFromMillis nowMs⟩ ∉
              D'.map RetentionPass.key := by
            intro hmem
            obtain ⟨P', hP', hk⟩ := List.mem_map.mp hmem
            simp only [RetentionPass.key, Prod.mk.injEq] at hk
            rcases (hD' P').mp hP' with ⟨c', hc', -, p', -, -, rfl⟩ | ⟨p', hp', -, rfl⟩
            · exact hfresh c' hc' hk.1
            · exact hnewP p' hp' hk.2
          obtain ⟨t, v, rfl, hst⟩ := hdb'
          refine Succeeds.bind (retainPolicy_done h₀ hahead hgrid htake hkey
            ⟨t, v, rfl, hst.enter _⟩ (by simp only at hleftP ⊢; omega)) fun _ db'' hdb'' => ?_
          obtain ⟨hdb'', hetags⟩ := hdb''
          refine Succeeds.pure _ ⟨PUnit.unit, rfl, preP ++ [p], _, by simp [hpreP],
            fun P' => ?_, hdb'', by simp only at hleftP hetags; omega⟩
          rw [List.mem_cons, hD']
          simp only [List.mem_append, List.mem_singleton]
          constructor
          · rintro (rfl | hs | ⟨p', hp', hfin'', rfl⟩)
            · exact .inr ⟨p, .inr rfl, hfin', rfl⟩
            · exact .inl hs
            · exact .inr ⟨p', .inl hp', hfin'', rfl⟩
          · rintro (hs | ⟨p', hp' | rfl, hfin'', rfl⟩)
            · exact .inr (.inl hs)
            · exact .inr (.inr ⟨p', hp', hfin'', rfl⟩)
            · exact .inl rfl
        · -- an infinite retention makes no pass
          next hinf =>
          refine Succeeds.pure _ ⟨PUnit.unit, rfl, preP ++ [p], D', by simp [hpreP],
            fun P' => ?_, hdb', by omega⟩
          rw [hD']
          simp only [List.mem_append, List.mem_singleton]
          constructor
          · rintro (hs | ⟨p', hp', hfin'', rfl⟩)
            · exact .inl hs
            · exact .inr ⟨p', .inl hp', hfin'', rfl⟩
          · rintro (hs | ⟨p', hp' | rfl, hfin'', rfl⟩)
            · exact .inl hs
            · exact .inr ⟨p', hp', hfin'', rfl⟩
            · exact absurd hinf (by simp [hfin''])
      · rintro _ db' ⟨preP, D', hpreP, hD', hdb', hleftP⟩
        rw [List.append_nil] at hpreP
        refine Succeeds.pure _ ⟨PUnit.unit, rfl, pre ++ [(collection, chain)], D', by simp [hpre],
          fun P => ?_, hdb', by simpa using hleftP⟩
        rw [hD', RetentionPass.scheduled_append, ← hpreP]
        simp only [show chain.disabled = false by simpa using hon, true_and]
    · -- a disabled collection makes no pass
      next hoff =>
      have hfewer : countPolicies rest * db₀.passEtags ≤
          (chain.allPolicies.length + countPolicies rest) * db₀.passEtags :=
        Nat.mul_le_mul_right _ (Nat.le_add_left _ _)
      refine Succeeds.pure _ ⟨PUnit.unit, rfl, pre ++ [(collection, chain)], D, by simp [hpre],
        fun P => ?_, hdb, by omega⟩
      rw [hD, RetentionPass.scheduled_append]
      simp only [show chain.disabled = true by simpa using hoff, Bool.true_eq_false, false_and,
        or_false]
  · exact ⟨[], [], rfl, fun P => by simp [RetentionPass.Scheduled],
      ⟨db₀.tables, db₀.versions, rfl, RetentionState.start hwell h₀⟩, le_refl _⟩
  · rintro _ db' ⟨pre, D, hpre, hD, hdb', -⟩
    rw [List.append_nil] at hpre
    exact Succeeds.pure _ ⟨D, hpre ▸ hD, hdb'⟩

/-- On the primary, a retention run over statistics that match the segments, from a database
whose change vector is ahead of every stored one, succeeds. The segments stay well kept and the
statistics exact; every series of a policy with a finite retention, of a collection not
disabled, has a rollup due by the policy's cutoff or no live sample before it; and every series
keeps its live samples, or loses exactly those up to the cutoff of a policy that lists it. -/
theorem doRetention_trims_expired (cfg : Configuration) {db : Database}
    (hprimary : db.isPrimary = true) (htake : 0 < db.settings.retentionBatch)
    (hnames : (cfg.collections.map fun c => Text.lower c.1).Nodup)
    (hpolicies : ∀ c ∈ cfg.collections, (c.2.allPolicies.map fun p => Text.lower p.name).Nodup)
    (hgrid : Configuration.GridsOk db.configuration)
    (hwell : db.tables.segments.SegmentsWell) (hexact : db.tables.StatsExact)
    (hahead : db.versions.AheadOf db.settings.nodeTag db.settings.databaseId db.tables)
    (hroom : db.versions.lastEtag + db.retentionEtags cfg ≤ I64.max) :
    Succeeds (doRetention cfg) db fun _ db' =>
      db'.tables.segments.SegmentsWell ∧ db'.tables.StatsExact ∧
      (∀ c ∈ cfg.collections, c.2.disabled = false → ∀ p ∈ c.2.allPolicies,
        p.retention.isInfinite = false →
          ∀ x ∈ (db'.tables.statsOf c.1).rows, x.2.value.policy = Text.lower p.name →
            db'.tables.hasPendingRollup x.2.value.series.key
                (p.retention.subtractFromMillis db.now.millis) = true ∨
              ∀ q ∈ db'.tables.live x.2.value.series,
                p.retention.subtractFromMillis db.now.millis ≤ q.ms) ∧
      ∀ s : SeriesRef, s.Clean → db'.tables.live s = db.tables.live s ∨
        ∃ c ∈ cfg.collections, c.2.disabled = false ∧ ∃ p ∈ c.2.allPolicies,
          p.retention.isInfinite = false ∧
          (∃ x ∈ (db.tables.statsOf c.1).rows, x.1 = s.key ∧ x.2.value.policy = Text.lower p.name) ∧
          db'.tables.live s = (db.tables.live s).filter fun q =>
            p.retention.subtractFromMillis db.now.millis < q.ms := by
  refine (doRetention_run cfg hprimary hwell hexact hahead hgrid htake hnames hpolicies hroom).mono ?_
  rintro _ db' ⟨D, hD, t, v, rfl, hst⟩
  refine ⟨hst.well, hst.exact, fun c hc hon p hp hfin =>
    hst.done ⟨c.1, p.name, _⟩ ((hD _).mpr ⟨c, hc, hon, p, hp, hfin, rfl⟩), fun s hs => ?_⟩
  rcases hst.history s hs with hu | ⟨P, hP, hl, hlive⟩
  · exact .inl (live_congr hu)
  · obtain ⟨c, hc, hon, p, hp, hfin, rfl⟩ := (hD P).mp hP
    exact .inr ⟨c, hc, hon, p, hp, hfin, hl, hlive⟩

/-! ## A store with samples -/

/-- The two samples of `twoSampleSegment`, one at the baseline and one six hours later. -/
theorem twoSampleSegment_placed :
    Placed 1704067200000
      [⟨0, Segment.padded 1 [⟨0x3ff0000000000000⟩], none, .live⟩,
        ⟨21600000, Segment.padded 1 [⟨0x4000000000000000⟩], none, .live⟩] twoSampleSegment := by
  have h₀ : Segment.ofWidth 1 = .ok (Segment.mk 1 0 0 0 0 [{}] [{}] BitRun.empty) := rfl
  have h₁ := @Segment.Built.append _ _ [] 0 [⟨0x3ff0000000000000⟩] none .live
    (Segment.Built.fresh h₀) rfl
  have h₂ := @Segment.Built.append _ _ _ 21600000 [⟨0x4000000000000000⟩] none .live h₁ rfl
  refine ⟨h₂, by simp, by unfold Point.Ascending; decide, ⟨_, List.mem_cons_self, rfl⟩, by decide⟩

theorem waitingDb_segmentsWell (now : Int) : (waitingDb now).tables.segments.SegmentsWell := by
  -- the only segment of the store goes into an empty table
  have hgap : Gap (((Table.empty : Table SegmentRow).under waitingUsers.pre).filter
      (·.1 != Key.segmentOfPrefix waitingUsers.pre 1704067200000)) 1704067200000 1704088800001 :=
    fun _ h => by simp [Table.under, Table.empty] at h
  exact Table.segmentsWell_empty.insert waitingUsers_clean twoSampleSegment_placed hgap le_rfl
    (by decide) (some 2)

theorem waitingDb_statsExact (now : Int) : (waitingDb now).tables.StatsExact := by
  have hlen : (waitingStore.live waitingUsers).length = 2 := by decide +kernel
  have hb : boundsOf (waitingStore.live waitingUsers) = some (1704067200000, 1704088800000) := by
    decide +kernel
  have hpol : policyOfSeries waitingUsers.name = "rawpolicy" := by decide +kernel
  have hvalid : Key.validateDocumentId waitingUsers.doc = .ok () := by rfl
  -- the statistics of the store are those its segments give
  have heq : (waitingDb now).tables = waitingStore.restat waitingUsers := by
    rw [restat, hb]
    dsimp only
    rw [hlen, hpol]
    rfl
  have h₀ : ({ rollups := waitingStore.rollups } : Tables).StatsExact :=
    ⟨fun _ h => absurd h List.not_mem_nil, fun _ h => absurd h List.not_mem_nil,
      fun _ h => absurd h List.not_mem_nil, List.nodup_nil,
      fun _ _ h => absurd rfl h, fun _ h => absurd h List.not_mem_nil⟩
  -- no other series has a segment
  have hlive : ∀ r : SeriesRef, r.Clean → r.key ≠ waitingUsers.key →
      waitingStore.live r = ({ rollups := waitingStore.rollups } : Tables).live r := by
    intro r hr hne
    have hunder : waitingStore.segments.under r.pre = [] := by
      rw [waitingStore, Table.under_insert Table.sorted_empty, if_neg]
      · rfl
      · rw [SeriesRef.startsWith_pre_eq_false waitingUsers_clean hr (Ne.symm hne)
          (Key.startsWith_segmentOfPrefix _ _)]
        decide
    simp only [Tables.live, hunder]
    rfl
  rw [heq]
  exact StatsExact.restat h₀ rfl hlive waitingUsers_clean hvalid fun _ h => absurd h List.not_mem_nil

open ChangeVector in
theorem waitingDb_aheadOf (now : Int) :
    (waitingDb now).versions.AheadOf (waitingDb now).settings.nodeTag
      (waitingDb now).settings.databaseId (waitingDb now).tables := by
  have hrows : (waitingDb now).tables.segments.rows =
      [(Key.segmentOfPrefix waitingUsers.pre 1704067200000,
        ⟨⟨waitingUsers, 2, (single "A" 2 "aegis-db-0001").render, twoSampleSegment⟩, some 2⟩)] :=
    rfl
  refine Versions.aheadOf_of_listed (CvEntry.wellFormed_default le_rfl (by decide)) ?_
    (List.nodup_singleton _) (show (0 : Int) ≤ 3 by decide) ?_
  · intro e he
    rw [List.mem_singleton.mp he]
    exact CvEntry.wellFormed_default (by decide) (by decide)
  · -- the segment was written under etag 2, before the last one given out
    rw [hrows]
    intro r hr
    rw [List.mem_singleton.mp hr]
    refine ⟨_, written_render fun e he => ?_, List.cons_ne_nil _ _,
      show listedEtag (single "A" 2 "aegis-db-0001").entries "aegis-db-0001" ≤ 3 by decide⟩
    rw [List.mem_singleton.mp he]
    exact CvEntry.wellFormed_default (by decide) (by decide)

/-- Ten hours into 2024, a retention run over `waitingDb`, whose users keep raw samples five
hours, meets every assumption: the sample at the start of the day is up for trimming. -/
theorem doRetention_trims_expired_waiting :
    (waitingDb 1704103200000).isPrimary = true ∧
      0 < (waitingDb 1704103200000).settings.retentionBatch ∧
      (waitingConfig.collections.map fun c => Text.lower c.1).Nodup ∧
      (∀ c ∈ waitingConfig.collections, (c.2.allPolicies.map fun p => Text.lower p.name).Nodup) ∧
      Configuration.GridsOk (waitingDb 1704103200000).configuration ∧
      (waitingDb 1704103200000).tables.segments.SegmentsWell ∧
      (waitingDb 1704103200000).tables.StatsExact ∧
      (waitingDb 1704103200000).versions.AheadOf (waitingDb 1704103200000).settings.nodeTag
        (waitingDb 1704103200000).settings.databaseId (waitingDb 1704103200000).tables ∧
      (waitingDb 1704103200000).versions.lastEtag +
          (waitingDb 1704103200000).retentionEtags waitingConfig ≤ I64.max ∧
      Succeeds (doRetention waitingConfig) (waitingDb 1704103200000) fun _ db' =>
        db'.tables.segments.SegmentsWell ∧ db'.tables.StatsExact ∧
        (∀ c ∈ waitingConfig.collections, c.2.disabled = false → ∀ p ∈ c.2.allPolicies,
          p.retention.isInfinite = false →
            ∀ x ∈ (db'.tables.statsOf c.1).rows, x.2.value.policy = Text.lower p.name →
              db'.tables.hasPendingRollup x.2.value.series.key
                  (p.retention.subtractFromMillis (waitingDb 1704103200000).now.millis) = true ∨
                ∀ q ∈ db'.tables.live x.2.value.series,
                  p.retention.subtractFromMillis (waitingDb 1704103200000).now.millis ≤ q.ms) ∧
        ∀ s : SeriesRef, s.Clean → db'.tables.live s = (waitingDb 1704103200000).tables.live s ∨
          ∃ c ∈ waitingConfig.collections, c.2.disabled = false ∧ ∃ p ∈ c.2.allPolicies,
            p.retention.isInfinite = false ∧
            (∃ x ∈ ((waitingDb 1704103200000).tables.statsOf c.1).rows, x.1 = s.key ∧
              x.2.value.policy = Text.lower p.name) ∧
            db'.tables.live s = ((waitingDb 1704103200000).tables.live s).filter fun q =>
              p.retention.subtractFromMillis (waitingDb 1704103200000).now.millis < q.ms := by
  have hprimary : (waitingDb 1704103200000).isPrimary = true := by decide
  have hnames : (waitingConfig.collections.map fun c => Text.lower c.1).Nodup := by decide +kernel
  have hpolicies : ∀ c ∈ waitingConfig.collections,
      (c.2.allPolicies.map fun p => Text.lower p.name).Nodup := by
    decide +kernel
  -- the daily rollup cuts its buckets on the grid of a day
  have hgrid : Configuration.GridsOk (waitingDb 1704103200000).configuration := by
    rintro c hc chain hchain p hp
    cases hc
    obtain rfl := List.mem_singleton.mp hchain
    obtain rfl := List.mem_singleton.mp hp
    exact ⟨⟨_, rfl⟩, by decide⟩
  have hroom : (waitingDb 1704103200000).versions.lastEtag +
      (waitingDb 1704103200000).retentionEtags waitingConfig ≤ I64.max := by
    decide +kernel
  exact ⟨hprimary, by decide, hnames, hpolicies, hgrid, waitingDb_segmentsWell _,
    waitingDb_statsExact _, waitingDb_aheadOf _, hroom,
    doRetention_trims_expired waitingConfig hprimary (by decide) hnames hpolicies hgrid
      (waitingDb_segmentsWell _) (waitingDb_statsExact _) (waitingDb_aheadOf _) hroom⟩

end Pass

end SeriesStore
