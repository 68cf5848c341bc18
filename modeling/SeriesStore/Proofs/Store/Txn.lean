import SeriesStore.Store.Database

/-!
# Running a transaction

`Txn.exec x ctx t v` runs the transaction `x` under the context `ctx`, from the tables `t` and
the versions `v`. It answers the outcome, with the tables reached when the transaction
succeeds, and the versions reached whatever the outcome: a failed transaction drops its tables
but keeps the etags it gave out.

Each building block of a transaction runs once here, by `rfl`; proofs about the store step
through `exec` with these lemmas and never unfold the monad stack. The bind lemmas are the one
place where a run is cut in two:

    exec (x >>= f) ctx t v = .ok (b, t'') ↔
      ∃ a t' v', exec x ctx t v = (.ok (a, t'), v') ∧ exec (f a) ctx t' v' = (.ok (b, t''), v'')
-/

namespace Except

variable {ε α β : Type}

@[simp] theorem ok_bind (a : α) (f : α → Except ε β) : (Except.ok a >>= f) = f a := rfl

@[simp] theorem error_bind (e : ε) (f : α → Except ε β) : (Except.error e >>= f) = .error e := rfl

theorem bind_eq_ok {x : Except ε α} {f : α → Except ε β} {b : β} :
    x >>= f = .ok b ↔ ∃ a, x = .ok a ∧ f a = .ok b := by
  cases x with
  | error e => simp
  | ok a => simp

end Except

namespace SeriesStore

namespace Txn

variable {α β : Type}

/-- Run a transaction: the outcome, with the tables reached on success, and the versions
reached. -/
def exec (x : Txn α) (ctx : Context) (t : Tables) (v : Versions) :
    Except Error (α × Tables) × Versions :=
  ((x.run ctx).run t).run.run v

section Exec

variable (ctx : Context) (t : Tables) (v : Versions)

@[simp] theorem exec_pure (a : α) : exec (pure a) ctx t v = (.ok (a, t), v) := rfl

theorem exec_bind (x : Txn α) (f : α → Txn β) :
    exec (x >>= f) ctx t v =
      match exec x ctx t v with
      | (.ok (a, t'), v') => exec (f a) ctx t' v'
      | (.error e, v') => (.error e, v') := by
  unfold exec
  rcases h : ((x.run ctx).run t).run.run v with ⟨r, v'⟩
  cases r with
  | ok p =>
    simp only [ReaderT.run_bind, StateT.run_bind, ExceptT.run_bind, h]
    rfl
  | error e =>
    simp only [ReaderT.run_bind, StateT.run_bind, ExceptT.run_bind, h]
    rfl

@[simp] theorem exec_throw (e : Error) : exec (throw e : Txn α) ctx t v = (.error e, v) := rfl

@[simp] theorem exec_fail (e : Error) : exec (fail e : Txn α) ctx t v = (.error e, v) := rfl

@[simp] theorem exec_tables : exec tables ctx t v = (.ok (t, t), v) := rfl

@[simp] theorem exec_get : exec (get : Txn Tables) ctx t v = (.ok (t, t), v) := rfl

@[simp] theorem exec_set (t' : Tables) : exec (set t' : Txn PUnit) ctx t v = (.ok (⟨⟩, t'), v) :=
  rfl

@[simp] theorem exec_change (f : Tables → Tables) : exec (change f) ctx t v = (.ok ((), f t), v) :=
  rfl

@[simp] theorem exec_read : exec (read : Txn Context) ctx t v = (.ok (ctx, t), v) := rfl

@[simp] theorem exec_context : exec context ctx t v = (.ok (ctx, t), v) := rfl

@[simp] theorem exec_now : exec now ctx t v = (.ok (ctx.now, t), v) := rfl

@[simp] theorem exec_configuration :
    exec configuration ctx t v = (.ok (ctx.configuration, t), v) := rfl

@[simp] theorem exec_lift_ok (a : α) : exec (lift (.ok a)) ctx t v = (.ok (a, t), v) := rfl

@[simp] theorem exec_lift_error (e : Error) :
    exec (lift (.error e : Outcome α)) ctx t v = (.error e, v) := rfl

@[simp] theorem exec_liftFault_ok (a : α) : exec (liftFault (.ok a)) ctx t v = (.ok (a, t), v) :=
  rfl

@[simp] theorem exec_liftFault_error (f : Fault) :
    exec (liftFault (.error f : Except Fault α)) ctx t v = (.error (.fault f), v) := rfl

/-- An etag is given out: the next one after the last. -/
@[simp] theorem exec_nextEtag :
    exec nextEtag ctx t v = (.ok (v.lastEtag + 1, t), { v with lastEtag := v.lastEtag + 1 }) :=
  rfl

/-- A local write observes this node's entry into the database's vector. -/
@[simp] theorem exec_newChangeVector (etag : Int) :
    exec (newChangeVector etag) ctx t v =
      (.ok ((v.changeVector.observe
          { node := ctx.settings.nodeTag, etag, db := ctx.settings.databaseId }).render, t),
        { v with changeVector := (v.changeVector.observe
          { node := ctx.settings.nodeTag, etag, db := ctx.settings.databaseId }) }) :=
  rfl

end Exec

/-! ## Cutting a run in two -/

section Bind

variable {ctx : Context} {t t'' : Tables} {v v'' : Versions}

theorem exec_bind_eq_ok {x : Txn α} {f : α → Txn β} {b : β} :
    exec (x >>= f) ctx t v = (.ok (b, t''), v'') ↔
      ∃ a t' v', exec x ctx t v = (.ok (a, t'), v') ∧ exec (f a) ctx t' v' = (.ok (b, t''), v'') := by
  rw [exec_bind]
  constructor
  · intro h
    rcases hx : exec x ctx t v with ⟨r, v'⟩
    rw [hx] at h
    cases r with
    | ok p => exact ⟨p.1, p.2, v', rfl, h⟩
    | error e => cases h
  · rintro ⟨a, t', v', hx, hf⟩
    rw [hx]
    exact hf

theorem exec_bind_eq_error {x : Txn α} {f : α → Txn β} {e : Error} :
    exec (x >>= f) ctx t v = (.error e, v'') ↔
      exec x ctx t v = (.error e, v'') ∨
        ∃ a t' v', exec x ctx t v = (.ok (a, t'), v') ∧ exec (f a) ctx t' v' = (.error e, v'') := by
  rw [exec_bind]
  constructor
  · intro h
    rcases hx : exec x ctx t v with ⟨r, v'⟩
    rw [hx] at h
    cases r with
    | ok p => exact .inr ⟨p.1, p.2, v', rfl, h⟩
    | error e' =>
      left
      simpa using h
  · rintro (hx | ⟨a, t', v', hx, hf⟩)
    · rw [hx]
    · rw [hx]
      exact hf

/-! ### Steps that only read

A step that reads the tables, the clock or an outcome leaves the tables and versions as they
are, so a successful run past it is a run of the rest from the same state. -/

theorem exec_readsOutcome (g : Tables → Outcome α) :
    exec (readsOutcome g) ctx t v = exec (lift (g t)) ctx t v := rfl

theorem exec_tables_bind (f : Tables → Txn β) :
    exec (tables >>= f) ctx t v = exec (f t) ctx t v := by
  rw [exec_bind, exec_tables]

theorem exec_lift_bind_eq_ok {r : Outcome α} {f : α → Txn β} {b : β}
    (h : exec (lift r >>= f) ctx t v = (.ok (b, t''), v'')) :
    ∃ a, r = .ok a ∧ exec (f a) ctx t v = (.ok (b, t''), v'') := by
  cases r with
  | ok a =>
    rw [exec_bind, exec_lift_ok] at h
    exact ⟨a, rfl, h⟩
  | error e => simp [exec_bind] at h

theorem exec_liftFault_bind_eq_ok {r : Except Fault α} {f : α → Txn β} {b : β}
    (h : exec (liftFault r >>= f) ctx t v = (.ok (b, t''), v'')) :
    ∃ a, r = .ok a ∧ exec (f a) ctx t v = (.ok (b, t''), v'') := by
  cases r with
  | ok a =>
    rw [exec_bind, exec_liftFault_ok] at h
    exact ⟨a, rfl, h⟩
  | error e => simp [exec_bind] at h

theorem exec_readsOutcome_bind_eq_ok {g : Tables → Outcome α} {f : α → Txn β} {b : β}
    (h : exec (readsOutcome g >>= f) ctx t v = (.ok (b, t''), v'')) :
    ∃ a, g t = .ok a ∧ exec (f a) ctx t v = (.ok (b, t''), v'') := by
  rw [exec_bind, exec_readsOutcome, ← exec_bind] at h
  exact exec_lift_bind_eq_ok h

end Bind

end Txn

end SeriesStore
