import Mathlib
import SeriesStore.Proofs.Store.Frame

/-!
# Loops of rounds that stop

A pass of the runner repeats a round (one batch, in its own transaction) while the round asks
for more, and bounds the repetition by a count of rounds that the store fixes
(`Database.passFuel`). `StopsWithin round n s` says that the loop ends on its own: repeated from
the state `s`, the round fails or asks for no more within `n` rounds. The bound then never cuts
the loop short: any larger bound runs the same rounds to the same end
(`Pass.repeatWhile_of_stopsWithin`, and `Pass.repeatWhile_run_of_stopsWithin` for a round that
carries a state of its own), so the bounded loop is the unbounded loop of rounds, and it ends.

Every termination argument for a pass has one shape (`StopsWithin.of_measure`): a measure of the
state that each round asking for more lowers, and that starts below the count of rounds.
-/

namespace SeriesStore

/-- Repeated from the state `s`, a round fails or asks for no more within `n` rounds. -/
inductive StopsWithin {σ ε : Type} (round : σ → Except ε Bool × σ) : Nat → σ → Prop
  /-- The round fails. -/
  | fails {n : Nat} {s s' : σ} {e : ε} : round s = (.error e, s') → StopsWithin round (n + 1) s
  /-- The round asks for no more. -/
  | done {n : Nat} {s s' : σ} : round s = (.ok false, s') → StopsWithin round (n + 1) s
  /-- The round asks for more, and the rounds after it stop within one round less. -/
  | more {n : Nat} {s s' : σ} : round s = (.ok true, s') → StopsWithin round n s' →
      StopsWithin round (n + 1) s

namespace StopsWithin

variable {σ ε : Type} {round : σ → Except ε Bool × σ}

/-- Rounds that each, when they ask for more, keep an invariant and lower a measure stop within
any count of rounds above the measure. -/
theorem of_measure {I : σ → Prop} (μ : σ → Nat)
    (hround : ∀ s s', I s → round s = (.ok true, s') → I s' ∧ μ s' < μ s) :
    ∀ (n : Nat) (s : σ), I s → μ s < n → StopsWithin round n s
  | 0, _, _, hμ => absurd hμ (Nat.not_lt_zero _)
  | n + 1, s, hs, hμ => by
    rcases hr : round s with ⟨r, s'⟩
    cases r with
    | error e => exact fails hr
    | ok asks =>
      cases asks with
      | false => exact done hr
      | true =>
        obtain ⟨hs', hlt⟩ := hround s s' hs hr
        exact more hr (of_measure μ hround n s' hs' (by omega))

end StopsWithin

namespace Pass

/-- A round of a pass, as a step of databases. -/
def roundOf (step : Pass Bool) (db : Database) : Except Error Bool × Database := step.run.run db

/-- A round that carries a state of its own besides the database, as a step of both; a failed
round leaves its own state as it was. -/
def stateRoundOf {σ : Type} (step : StateT σ Pass Bool) (s : σ × Database) :
    Except Error Bool × (σ × Database) :=
  match (step.run s.1).run.run s.2 with
  | (.ok (b, k), db') => (.ok b, (k, db'))
  | (.error e, db') => (.error e, (s.1, db'))

theorem run_repeatWhile_succ (step : Pass Bool) (n : Nat) (db : Database) :
    (repeatWhile step (n + 1)).run.run db =
      match roundOf step db with
      | (.ok true, db') => (repeatWhile step n).run.run db'
      | (.ok false, db') => (.ok (), db')
      | (.error e, db') => (.error e, db') := by
  rw [repeatWhile, run_bind, roundOf]
  rcases step.run.run db with ⟨r, db'⟩
  cases r with
  | ok b => cases b <;> rfl
  | error e => rfl

theorem run_stateT_bind {σ α β : Type} (x : StateT σ Pass α) (f : α → StateT σ Pass β) (k : σ)
    (db : Database) :
    ((x >>= f).run k).run.run db =
      match (x.run k).run.run db with
      | (.ok (a, k'), db') => ((f a).run k').run.run db'
      | (.error e, db') => (.error e, db') := by
  rw [StateT.run_bind, run_bind]
  rcases (x.run k).run.run db with ⟨r, db'⟩
  cases r <;> rfl

theorem run_repeatWhile_succ_stateT {σ : Type} (step : StateT σ Pass Bool) (n : Nat) (k : σ)
    (db : Database) :
    ((repeatWhile step (n + 1)).run k).run.run db =
      match stateRoundOf step (k, db) with
      | (.ok true, (k', db')) => ((repeatWhile step n).run k').run.run db'
      | (.ok false, (k', db')) => (.ok ((), k'), db')
      | (.error e, (_, db')) => (.error e, db') := by
  rw [repeatWhile, run_stateT_bind, stateRoundOf]
  rcases (step.run k).run.run db with ⟨r, db'⟩
  cases r with
  | ok p =>
    obtain ⟨b, k'⟩ := p
    cases b <;> rfl
  | error e => rfl

/-- A loop of rounds that stops within `n` rounds runs to the same end under any bound of at
least `n`: the bound does not cut it short. -/
theorem repeatWhile_of_stopsWithin {step : Pass Bool} {n : Nat} {db : Database}
    (h : StopsWithin (roundOf step) n db) :
    ∀ m, n ≤ m → (repeatWhile step m).run.run db = (repeatWhile step n).run.run db := by
  induction h with
  | fails hr =>
    intro m hm
    obtain ⟨m, rfl⟩ : ∃ m', m = m' + 1 := ⟨m - 1, by omega⟩
    rw [run_repeatWhile_succ, run_repeatWhile_succ, hr]
  | done hr =>
    intro m hm
    obtain ⟨m, rfl⟩ : ∃ m', m = m' + 1 := ⟨m - 1, by omega⟩
    rw [run_repeatWhile_succ, run_repeatWhile_succ, hr]
  | more hr _ ih =>
    intro m hm
    obtain ⟨m, rfl⟩ : ∃ m', m = m' + 1 := ⟨m - 1, by omega⟩
    rw [run_repeatWhile_succ, run_repeatWhile_succ, hr]
    exact ih m (by omega)

/-- The same for a round that carries a state of its own. -/
theorem repeatWhile_run_of_stopsWithin {σ : Type} {step : StateT σ Pass Bool} {n : Nat}
    {k : σ} {db : Database} (h : StopsWithin (stateRoundOf step) n (k, db)) :
    ∀ m, n ≤ m →
      ((repeatWhile step m).run k).run.run db = ((repeatWhile step n).run k).run.run db := by
  generalize hs : (k, db) = s at h
  induction h generalizing k db with
  | fails hr =>
    intro m hm
    subst hs
    obtain ⟨m, rfl⟩ : ∃ m', m = m' + 1 := ⟨m - 1, by omega⟩
    rw [run_repeatWhile_succ_stateT, run_repeatWhile_succ_stateT, hr]
  | done hr =>
    intro m hm
    subst hs
    obtain ⟨m, rfl⟩ : ∃ m', m = m' + 1 := ⟨m - 1, by omega⟩
    rw [run_repeatWhile_succ_stateT, run_repeatWhile_succ_stateT, hr]
  | @more n s s' hr _ ih =>
    intro m hm
    subst hs
    obtain ⟨k', db'⟩ := s'
    obtain ⟨m, rfl⟩ : ∃ m', m = m' + 1 := ⟨m - 1, by omega⟩
    rw [run_repeatWhile_succ_stateT, run_repeatWhile_succ_stateT, hr]
    exact ih rfl m (by omega)

end Pass

/-- The count of rounds a pass allows exceeds the number of rows of statistics. -/
theorem Database.stats_lt_passFuel (db : Database) :
    (db.tables.stats.map fun x => x.2.size).sum < db.passFuel := by
  unfold Database.passFuel
  -- the count sums the sizes through a pattern on each pair; read it through the projection
  show _ < (db.tables.rollups.size + db.tables.segments.size +
    (db.tables.stats.map fun x => x.2.size).sum + 2) * (_ + 2)
  exact Nat.lt_of_lt_of_le (by omega) (Nat.le_mul_of_pos_right _ (by omega))

end SeriesStore
