import Mathlib
import SeriesStore.Proofs.Store.Rounds
import SeriesStore.Proofs.Store.RetentionBatch

/-!
# Scheduling a new policy pages through the statistics

When a policy of a chain has no series yet, `handleChanges` schedules the series of the policy
before it for rollup, in batches of `policyBatch`: each batch takes the series of the policy past
the key the batch before ended on, and the loop goes on while a batch comes back full.

A full batch of at least one series ends on a row of statistics past the key it resumed from,
and scheduling writes pending rollups only, so the rows past the key to resume from grow fewer
with every full batch (`Pass.scheduleRound_more`). With batches of at least one series the loop
therefore stops within one round more than its collection has rows of statistics
(`Pass.scheduleRound_stops`), which the count of rounds a pass allows exceeds
(`Pass.scheduleNewPolicy_stops`).

With batches of no series the test for a full batch always holds, and only the count of rounds
ends the loop.
-/

namespace SeriesStore

namespace Table

variable {α : Type}

/-- The rows of a table past a key, in the table's order; all of them when there is no key. -/
def rowsPast (tbl : Table α) : Option Key → List (Key × Row α)
  | none => tbl.rows
  | some a => tbl.rows.filter fun r => Key.lt a r.1

/-- Seeking past a key under the empty prefix keeps every row past the key. -/
theorem seekAfter_nil (tbl : Table α) (a : Key) :
    tbl.seekAfter [] a = tbl.rowsPast (some a) := by
  unfold seekAfter rowsPast
  rw [List.takeWhile_eq_self_iff]
  intro r _
  rfl

theorem length_rowsPast_le (tbl : Table α) (after : Option Key) :
    (tbl.rowsPast after).length ≤ tbl.size := by
  cases after with
  | none => exact le_refl _
  | some a => exact List.length_filter_le _ _

/-- Resuming past a key of the rows past `after` leaves fewer rows: that key's row among them. -/
theorem length_rowsPast_lt {tbl : Table α} {after : Option Key} {k : Key}
    (hk : k ∈ (tbl.rowsPast after).map Prod.fst) :
    (tbl.rowsPast (some k)).length < (tbl.rowsPast after).length := by
  obtain ⟨r, hr, rfl⟩ := List.mem_map.mp hk
  -- the rows past `r.1` are the rows past `after` that are past `r.1`, by transitivity
  have hsub : tbl.rowsPast (some r.1) =
      (tbl.rowsPast after).filter fun x => Key.lt r.1 x.1 := by
    cases after with
    | none => rfl
    | some a =>
      have hra : Key.lt a r.1 = true := (List.mem_filter.mp hr).2
      simp only [rowsPast, List.filter_filter]
      refine List.filter_congr fun x _ => ?_
      cases hx : Key.lt r.1 x.1
      · simp
      · simp [Key.lt_trans hra hx]
  rw [hsub, List.length_filter_lt_length_iff_exists]
  exact ⟨r, hr, by simp [Key.lt, Key.compare_self]⟩

end Table

namespace Tables

/-- The rows a batch takes are rows of the list it takes them from. -/
theorem mem_takeOfPolicy {p : String} {n : Nat} :
    ∀ {rows : List (Key × Row StatsRow)} {x : Key × StatsRow},
      x ∈ takeOfPolicy p n rows → ∃ r, (x.1, r) ∈ rows
  | [], _, h => by simp [takeOfPolicy] at h
  | (k, r) :: rest, x, h => by
    unfold takeOfPolicy at h
    split_ifs at h with h0 hp
    · cases h
    · rcases List.mem_cons.mp h with rfl | h
      · exact ⟨r, List.mem_cons_self⟩
      · obtain ⟨r', hr'⟩ := mem_takeOfPolicy h
        exact ⟨r', List.mem_cons_of_mem _ hr'⟩
    · obtain ⟨r', hr'⟩ := mem_takeOfPolicy h
      exact ⟨r', List.mem_cons_of_mem _ hr'⟩

/-- The series of a policy past a key are taken from the rows of its collection past the key. -/
theorem seriesOfPolicy_eq (t : Tables) (collection policy : String) (after : Option Key)
    (take : Nat) :
    t.seriesOfPolicy collection policy after take =
      takeOfPolicy (Text.lower policy) take ((t.statsOf collection).rowsPast after) := by
  cases after with
  | none => rfl
  | some a => simp only [seriesOfPolicy, Table.seekAfter_nil]

end Tables

namespace Txn

/-- From `t` to `t'` the statistics stay as they were. -/
def SameStats (t t' : Tables) : Prop := t'.stats = t.stats

instance : Std.Refl SameStats := ⟨fun _ => rfl⟩

instance : IsTrans Tables SameStats := ⟨fun _ _ _ h₁ h₂ => h₂.trans h₁⟩

/-- A batch of a new policy's series answers how many series it scheduled and the key of the last,
and writes pending rollups only. -/
theorem scheduleNewPolicy_ok {collection : String} {source target : Policy} {after : Option Key}
    {take : Nat} {ctx : Context} {t t' : Tables} {v v' : Versions} {a : Nat × Option Key}
    (h : exec (scheduleNewPolicy collection source target after take) ctx t v = (.ok (a, t'), v')) :
    a = ((t.seriesOfPolicy collection source.name after take).length,
      ((t.seriesOfPolicy collection source.name after take).getLast?).map Prod.fst) ∧
      t'.stats = t.stats := by
  unfold scheduleNewPolicy at h
  obtain ⟨t₀, t₁, v₁, h₀, h₁⟩ := exec_bind_eq_ok.mp h
  simp only [exec_tables, Prod.mk.injEq, Except.ok.injEq] at h₀
  obtain ⟨⟨rfl, rfl⟩, rfl⟩ := h₀
  obtain ⟨u, t₂, v₂, h₂, h₃⟩ := exec_bind_eq_ok.mp h₁
  simp only [exec_pure, Prod.mk.injEq, Except.ok.injEq] at h₃
  obtain ⟨⟨rfl, rfl⟩, rfl⟩ := h₃
  refine ⟨rfl, ?_⟩
  -- the loop writes pending rollups only
  refine (Moves.forIn (R := SameStats) (fun c _ _ => ?_) _).ok h₂
  obtain ⟨k, st⟩ := c
  exact Moves.bind (Moves.change fun _ => rfl) fun _ => Moves.pure _

end Txn

namespace Pass

open Tables

/-- A round of scheduling is its transaction, asking for more when the batch came back full, and
resuming past the key the batch ended on. -/
theorem stateRoundOf_scheduleRound (collection : String) (source target : Policy) (take : Nat)
    (after : Option Key) (db : Database) :
    stateRoundOf (scheduleRound collection source target take) (after, db) =
      match (txn (Txn.scheduleNewPolicy collection source target after take)).run.run db with
      | (.ok (m, l), db') => (.ok (decide (m ≥ take)), (l, db'))
      | (.error e, db') => (.error e, (after, db')) := by
  unfold stateRoundOf scheduleRound
  simp only [StateT.run_bind, StateT.run_get, pure_bind, liftM, StateT.run_monadLift, bind_assoc]
  rw [run_bind]
  rcases (txn (Txn.scheduleNewPolicy collection source target after take)).run.run db with
    ⟨r, db'⟩
  cases r with
  | ok p => rfl
  | error e => rfl

/-- A full batch of at least one series keeps the statistics and resumes past a row of them that
lies past the key it resumed from. -/
theorem scheduleRound_more {collection : String} {source target : Policy} {take : Nat}
    (htake : 0 < take) {after after' : Option Key} {db db' : Database}
    (h : stateRoundOf (scheduleRound collection source target take) (after, db) =
      (.ok true, (after', db'))) :
    db'.tables.stats = db.tables.stats ∧
      ∃ k ∈ ((db.tables.statsOf collection).rowsPast after).map Prod.fst, after' = some k := by
  rw [stateRoundOf_scheduleRound, run_txn] at h
  rcases hx : Txn.exec (Txn.scheduleNewPolicy collection source target after take) db.context
    db.tables db.versions with ⟨r, v⟩
  cases r with
  | error e => simp [hx] at h
  | ok p =>
    obtain ⟨⟨m, l⟩, t⟩ := p
    simp only [hx, Prod.mk.injEq, Except.ok.injEq, decide_eq_true_eq] at h
    obtain ⟨hfull, rfl, rfl⟩ := h
    obtain ⟨hanswer, hstats⟩ := Txn.scheduleNewPolicy_ok hx
    simp only [Prod.mk.injEq] at hanswer
    obtain ⟨rfl, rfl⟩ := hanswer
    refine ⟨hstats, ?_⟩
    -- a full batch is not empty, so it has a last series, taken from the rows past `after`
    rw [seriesOfPolicy_eq] at hfull ⊢
    have hne : takeOfPolicy (Text.lower source.name) take
        ((db.tables.statsOf collection).rowsPast after) ≠ [] :=
      List.ne_nil_of_length_pos (by omega)
    obtain ⟨x, hx⟩ := Option.isSome_iff_exists.mp (List.getLast?_isSome.mpr hne)
    obtain ⟨r, hr⟩ := mem_takeOfPolicy (List.mem_of_getLast? hx)
    exact ⟨x.1, List.mem_map.mpr ⟨_, hr, rfl⟩, by rw [hx]; rfl⟩

/-- With batches of at least one series, scheduling a new policy's series stops, from any key to
resume from, within any count of rounds above the rows of statistics of its collection. -/
theorem scheduleRound_stops (collection : String) (source target : Policy) {take : Nat}
    (htake : 0 < take) (after : Option Key) (db : Database) {n : Nat}
    (hn : (db.tables.statsOf collection).size < n) :
    StopsWithin (stateRoundOf (scheduleRound collection source target take)) n (after, db) := by
  -- the measure: the rows of statistics past the key to resume from, which only full batches
  -- move, and the statistics stay
  refine StopsWithin.of_measure (I := fun s => s.2.tables.stats = db.tables.stats)
    (fun s => ((s.2.tables.statsOf collection).rowsPast s.1).length) ?_ n (after, db) rfl
    (lt_of_le_of_lt (Table.length_rowsPast_le _ _) hn)
  intro s s' hs h
  obtain ⟨after₁, db₁⟩ := s
  obtain ⟨after₂, db₂⟩ := s'
  obtain ⟨hstats, k, hk, rfl⟩ := scheduleRound_more htake h
  refine ⟨hstats.trans hs, ?_⟩
  have hsame : db₂.tables.statsOf collection = db₁.tables.statsOf collection := by
    simp only [statsOf, hstats]
  simp only [hsame]
  exact Table.length_rowsPast_lt hk

/-- With batches of at least one series, the scheduling loop of a new policy ends on its own: it
stops within the count of rounds a pass allows, from the database it starts on. -/
theorem scheduleNewPolicy_stops (collection : String) (source target : Policy) (db : Database)
    (htake : 0 < db.settings.policyBatch) :
    StopsWithin (stateRoundOf (scheduleRound collection source target db.settings.policyBatch))
      db.passFuel (none, db) :=
  scheduleRound_stops collection source target htake none db
    (lt_of_le_of_lt (length_statsOf_le collection) (Database.stats_lt_passFuel db))

end Pass

end SeriesStore
