import Mathlib
import SeriesStore.Proofs.PolicyChain
import SeriesStore.Proofs.Store.PolicyPaging
import SeriesStore.Proofs.Store.RollupProgress
import SeriesStore.Proofs.Store.TrimRounds
import SeriesStore.Proofs.Store.RetentionRun

/-!
# The runner's loops stop

Three passes of the runner repeat a round, one transaction each, while the round asks for more:
the scheduling of a new policy's series batch after batch (`Pass.scheduleRound`), the rollups
of due entries (`Pass.rollupRound`) and the retention of a policy's series (`Pass.retainRound`).
Each loop is bounded by the count of rounds a pass allows, and each stops on its own before that
count (`Pass.runner_loops_stop`), so the bound never decides where it ends
(`Pass.repeatWhile_of_stopsWithin`). The conditions are those the three measures need: batches
of at least one series, a clock below the last instant, a configuration put in force by
validation, pending rollups kept sorted with etags the counter gave out, and stored segments
that read back as the samples they were built from.

Without them the loops need not stop: with the clock at the last instant a rollup reschedules its
entry at that same instant, due again at once, and with batches of no series every batch of the
scheduling loop counts as full.

The rollup measure reads positions in well-formed chains, and a validated configuration holds
only such chains (`Configuration.chains_wellFormed_of_validate`): its collections come out of a
fold that puts each chain, as `PolicyChain.validate` gave it back, in its place by name.
-/

namespace SeriesStore

/-- A fold that keeps a property at every successful step keeps it to its successful end. -/
theorem foldlM_ok_of_inv {ε α β : Type} (P : β → Prop) {f : β → α → Except ε β}
    (hf : ∀ b a b', P b → f b a = .ok b' → P b') :
    ∀ (l : List α) {b b' : β}, P b → l.foldlM f b = .ok b' → P b'
  | [], _, _, hb, h => by
    cases h
    exact hb
  | a :: l, b, _, hb, h => by
    rw [List.foldlM_cons] at h
    obtain ⟨b₁, h₁, h⟩ := Except.bind_eq_ok.mp h
    exact foldlM_ok_of_inv P hf l (hf b a b₁ hb h₁) h

namespace Configuration

/-- Inserting a chain by name adds that chain and nothing else. -/
theorem insertSorted_subset {name : String} {c : PolicyChain} :
    ∀ {acc acc' : List (String × PolicyChain)}, insertSorted name c acc = some acc' →
      acc' ⊆ (name, c) :: acc
  | [], _, h => by
    cases h
    exact List.Subset.refl _
  | (n, d) :: rest, acc', h => by
    unfold insertSorted at h
    split at h
    · cases h
      exact List.Subset.refl _
    split at h
    · cases h
    obtain ⟨rest', hrest, rfl⟩ := Option.map_eq_some_iff.mp h
    intro x hx
    rcases List.mem_cons.mp hx with rfl | hx
    · simp
    · rcases List.mem_cons.mp (insertSorted_subset hrest hx) with rfl | hx'
      · exact List.mem_cons_self
      · simp [hx']

/-- Every chain of a validated configuration is well formed. -/
theorem chains_wellFormed_of_validate {cfg cfg' : Configuration} (h : cfg.validate = .ok cfg') :
    ∀ c ∈ cfg'.collections, c.2.WellFormed := by
  unfold validate at h
  obtain ⟨normalized, hfold, h⟩ := Except.bind_eq_ok.mp h
  -- whatever the check frequency, the collections put in force are the fold's
  have hcol : cfg'.collections = normalized := by
    split at h
    · split at h
      · cases h
      · cases h
        rfl
    · cases h
      rfl
  rw [hcol]
  refine foldlM_ok_of_inv (fun acc => ∀ c ∈ acc, c.2.WellFormed) ?_ _
    (fun _ h => absurd h List.not_mem_nil) hfold
  intro acc ⟨name, chain⟩ acc' hacc hstep
  dsimp only at hstep
  -- a chain that fails validation fails the fold; one that passes is inserted as validated
  split at hstep
  · next c hc =>
    have hwf := PolicyChain.wellFormed_of_validate hc
    rw [pure_bind] at hstep
    split at hstep
    · next acc'' hins =>
      cases hstep
      intro x hx
      rcases List.mem_cons.mp (insertSorted_subset hins hx) with rfl | hx
      · exact hwf
      · exact hacc x hx
    · cases hstep
  · cases hstep

end Configuration

namespace Pass

/-- Each loop of rounds the runner repeats stops on its own, within the count of rounds a pass
allows, from a database with batches of at least one series, a validated configuration in force
with a clock below the last instant and its pending rollups sorted and fresh, and every stored
segment built: the scheduling of any policy's series for any other, the rollups of due entries,
and the retention of any policy up to any time. -/
theorem runner_loops_stop {raw cfg : Configuration} (hcfg : raw.validate = .ok cfg)
    {db : Database} (hready : db.RollupReady cfg) (hbatch : 0 < db.settings.policyBatch)
    (hbuilt : db.tables.SegmentsBuilt) :
    (∀ collection source target,
      StopsWithin (stateRoundOf (scheduleRound collection source target db.settings.policyBatch))
        db.passFuel (none, db)) ∧
    StopsWithin (roundOf (rollupRound cfg)) db.passFuel db ∧
    ∀ collection policy toMs,
      StopsWithin (roundOf (retainRound collection policy toMs)) db.passFuel db :=
  ⟨fun collection source target => scheduleNewPolicy_stops collection source target db hbatch,
    rollupRound_stops (Configuration.chains_wellFormed_of_validate hcfg) hready,
    fun collection policy toMs => retainRound_stops collection policy toMs hbuilt⟩

/-- The waiting store ten hours into 2024, under its configuration as validation gives it back,
with a segment of two samples and a daily rollup pending: each of its loops stops on its own. -/
theorem runner_loops_stop_waiting :
    ∃ cfg : Configuration, waitingConfig.validate = .ok cfg ∧
      let db : Database := { waitingDb 1704103200000 with configuration := some cfg }
      db.RollupReady cfg ∧ 0 < db.settings.policyBatch ∧ db.tables.SegmentsBuilt ∧
      (∀ collection source target,
        StopsWithin (stateRoundOf (scheduleRound collection source target db.settings.policyBatch))
          db.passFuel (none, db)) ∧
      StopsWithin (roundOf (rollupRound cfg)) db.passFuel db ∧
      ∀ collection policy toMs,
        StopsWithin (roundOf (retainRound collection policy toMs)) db.passFuel db := by
  obtain ⟨cfg, hcfg⟩ : ∃ cfg : Configuration, waitingConfig.validate = .ok cfg := by
    have h : waitingConfig.validate.toBool = true := by
      simp only [waitingConfig, Configuration.validate, PolicyChain.validate,
        List.mergeSort_singleton, List.foldlM_cons, List.foldlM_nil, PolicyChain.checkNamed,
        Policy.validateNamed, String.contains_char_eq]
      decide +kernel
    cases hv : waitingConfig.validate with
    | ok cfg => exact ⟨cfg, rfl⟩
    | error e => rw [hv] at h; cases h
  refine ⟨cfg, hcfg, ?_⟩
  intro db
  have hclock : Instant.minMillis ≤ (Instant.ofMillis 1704103200000).millis ∧
      (Instant.ofMillis 1704103200000).millis < Instant.maxMillis := by decide
  -- the one pending rollup was written under etag 3, the last one given out
  have hfresh : ∀ k r, db.tables.rollups.get? k = some r → r.value.etag ≤ db.versions.lastEtag := by
    intro k r h
    have hr := List.mem_singleton.mp (Table.mem_of_get? h)
    cases hr
    exact le_rfl
  have hready : db.RollupReady cfg :=
    ⟨rfl, hclock, Table.sorted_empty.insert _ _ _, Table.indexExact_empty.insert _ _ _, hfresh⟩
  -- the one segment is `twoSampleSegment`, built by two appends
  have hbuilt : db.tables.SegmentsBuilt := by
    intro k r h
    have hr := List.mem_singleton.mp (Table.mem_of_get? h)
    cases hr
    exact ⟨_, twoSampleSegment_placed.built⟩
  have hbatch : 0 < db.settings.policyBatch := show 0 < ({} : Settings).policyBatch by decide
  exact ⟨hready, hbatch, hbuilt, runner_loops_stop hcfg hready hbatch hbuilt⟩

end Pass

end SeriesStore
