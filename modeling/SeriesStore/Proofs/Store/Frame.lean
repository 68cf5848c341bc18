import Mathlib
import SeriesStore.Proofs.Store.Txn
import SeriesStore.Store.Runner

/-!
# What a transaction leaves alone

`Txn.Moves R x` says that every run of the transaction `x` that succeeds takes its tables along
the relation `R`; a failed run drops its tables, so it needs no case. When `R` is a preorder,
moving is closed under `bind`, so a write path is proved to move along `R` one step at a time:
a lemma per building block, then composition, with no unfolding of the monad stack. Steps that
only read the tables, the clock or the context, or give out etags, move along every reflexive
relation.

`Pass.Keeps I x` is the same for a pass of the runner: every run of `x` from a database with
the property `I` ends in one with it. A pass keeps its database through a failed transaction,
so failed runs count here too.
-/

namespace SeriesStore

namespace Txn

variable {α β : Type}

/-- A merged change vector is observed into the database's vector; a malformed one fails. -/
theorem exec_observeChangeVector (text : String) (ctx : Context) (t : Tables) (v : Versions) :
    exec (observeChangeVector text) ctx t v =
      match ChangeVector.parse text with
      | .ok remote => (.ok ((), t), { v with changeVector := v.changeVector.merge remote })
      | .error e => (.error e, v) := by
  unfold observeChangeVector
  cases ChangeVector.parse text <;> rfl

/-- Every successful run of `x` takes its tables along `R`. -/
structure Moves (R : Tables → Tables → Prop) (x : Txn α) : Prop where
  ok : ∀ {ctx t v a t' v'}, exec x ctx t v = (.ok (a, t'), v') → R t t'

namespace Moves

variable {R : Tables → Tables → Prop}

/-- A step whose successful runs end on the tables they start from. -/
theorem of_eq [Std.Refl R] {x : Txn α}
    (h : ∀ {ctx t v a t' v'}, exec x ctx t v = (.ok (a, t'), v') → t' = t) : Moves R x := by
  constructor
  intro ctx t v a t' v' hx
  rw [h hx]
  exact Std.Refl.refl t

/-- A step that succeeds on the tables it starts from and leaves them as they are. -/
theorem of_exec [Std.Refl R] {x : Txn α}
    (hx : ∀ ctx t v, ∃ a v', exec x ctx t v = (.ok (a, t), v')) : Moves R x :=
  of_eq fun h => by
    obtain ⟨a, v', hx⟩ := hx _ _ _
    rw [hx, Prod.mk.injEq, Except.ok.injEq, Prod.mk.injEq] at h
    exact h.1.2.symm

theorem pure [Std.Refl R] (a : α) : Moves R (pure a) :=
  of_exec fun ctx t v => ⟨_, _, exec_pure ctx t v a⟩

theorem bind [IsTrans Tables R] {x : Txn α} {f : α → Txn β} (hx : Moves R x)
    (hf : ∀ a, Moves R (f a)) : Moves R (x >>= f) := by
  constructor
  intro ctx t v b t'' v'' h
  obtain ⟨a, t', v', h₁, h₂⟩ := exec_bind_eq_ok.mp h
  exact IsTrans.trans _ _ _ (hx.ok h₁) ((hf a).ok h₂)

/-- Moving along a relation is moving along every weaker one. -/
theorem mono {S : Tables → Tables → Prop} {x : Txn α} (hx : Moves R x)
    (h : ∀ {t t'}, R t t' → S t t') : Moves S x :=
  ⟨fun hrun => h (hx.ok hrun)⟩

theorem throw (e : Error) : Moves R (throw e : Txn α) := by
  constructor
  intro _ _ _ _ _ _ h
  simp at h

theorem change {f : Tables → Tables} (hf : ∀ t, R t (f t)) : Moves R (change f) := by
  constructor
  intro _ t _ _ t' _ h
  simp only [exec_change, Prod.mk.injEq, Except.ok.injEq] at h
  rw [← h.1.2]
  exact hf t

/-- A step that reads the tables and goes on from them moves along `R` when the rest moves
along `R` from the tables read. -/
theorem tables_bind {f : Tables → Txn α}
    (hf : ∀ {t ctx v a t' v'}, exec (f t) ctx t v = (.ok (a, t'), v') → R t t') :
    Moves R (Txn.tables >>= f) := by
  constructor
  intro ctx t v a t' v' h
  obtain ⟨t₀, t₁, v₁, h₁, h₂⟩ := exec_bind_eq_ok.mp h
  simp only [exec_tables, Prod.mk.injEq, Except.ok.injEq] at h₁
  obtain ⟨⟨rfl, rfl⟩, rfl⟩ := h₁
  exact hf h₂

/-- A step that lifts an outcome goes on only from its value. -/
theorem lift_bind [IsTrans Tables R] {r : Outcome α} {f : α → Txn β}
    (hf : ∀ a, r = .ok a → Moves R (f a)) : Moves R (Txn.lift r >>= f) := by
  constructor
  intro ctx t v b t' v' h
  obtain ⟨a, t₁, v₁, h₁, h₂⟩ := Txn.exec_bind_eq_ok.mp h
  cases r with
  | error e => simp at h₁
  | ok a' =>
    simp only [exec_lift_ok, Prod.mk.injEq, Except.ok.injEq] at h₁
    obtain ⟨⟨rfl, rfl⟩, rfl⟩ := h₁
    exact (hf _ rfl).ok h₂

variable [Std.Refl R]

theorem tables : Moves R tables :=
  of_exec fun ctx t v => ⟨_, _, exec_tables ctx t v⟩

theorem lift (r : Outcome α) : Moves R (lift r) :=
  of_eq fun h => by
    cases r with
    | ok a =>
      simp only [exec_lift_ok, Prod.mk.injEq, Except.ok.injEq] at h
      exact h.1.2.symm
    | error e => simp at h

theorem now : Moves R now :=
  of_exec fun ctx t v => ⟨_, _, exec_now ctx t v⟩

theorem configuration : Moves R configuration :=
  of_exec fun ctx t v => ⟨_, _, exec_configuration ctx t v⟩

theorem nextEtag : Moves R nextEtag :=
  of_exec fun ctx t v => ⟨_, _, exec_nextEtag ctx t v⟩

theorem newChangeVector (etag : Int) : Moves R (newChangeVector etag) :=
  of_exec fun ctx t v => ⟨_, _, exec_newChangeVector ctx t v etag⟩

theorem discard [IsTrans Tables R] {x : Txn α} (hx : Moves R x) : Moves R (Functor.discard x) := by
  have h : (Functor.discard x : Txn PUnit) = x >>= fun _ => Pure.pure PUnit.unit := by
    rw [Functor.discard, map_const, Function.comp_apply, ← bind_pure_comp]
  rw [h]
  exact hx.bind fun _ => pure _

/-- A step that leaves the tables as they are can be passed over in a successful run. -/
theorem exec_bind_eq_ok {x : Txn α} {f : α → Txn β} (hx : Moves Eq x) {ctx : Context}
    {t t'' : Tables} {v v'' : Versions} {b : β} (h : exec (x >>= f) ctx t v = (.ok (b, t''), v'')) :
    ∃ a v₁, exec (f a) ctx t v₁ = (.ok (b, t''), v'') := by
  obtain ⟨a, t₁, v₁, h₁, h₂⟩ := Txn.exec_bind_eq_ok.mp h
  obtain rfl := hx.ok h₁
  exact ⟨a, v₁, h₂⟩

theorem foldlM [IsTrans Tables R] {γ : Type} {f : β → γ → Txn β} :
    ∀ {l : List γ}, (∀ b, ∀ c ∈ l, Moves R (f b c)) → ∀ init, Moves R (l.foldlM f init)
  | [], _, init => pure init
  | c :: l, hf, init => by
    rw [List.foldlM_cons]
    exact (hf init c List.mem_cons_self).bind fun b =>
      foldlM (fun b' c' hc' => hf b' c' (List.mem_cons_of_mem c hc')) b

theorem forIn [IsTrans Tables R] {γ : Type} {f : γ → β → Txn (ForInStep β)} :
    ∀ {l : List γ}, (∀ c ∈ l, ∀ b, Moves R (f c b)) → ∀ init, Moves R (ForIn.forIn l init f)
  | [], _, init => by
    rw [List.forIn_nil]
    exact pure init
  | c :: l, hf, init => by
    rw [List.forIn_cons]
    refine (hf c List.mem_cons_self init).bind fun step => ?_
    cases step with
    | done b => exact pure b
    | yield b => exact forIn (fun c' hc' => hf c' (List.mem_cons_of_mem c hc')) b

theorem filterMapM [IsTrans Tables R] {γ : Type} {f : γ → Txn (Option β)} :
    ∀ {l : List γ}, (∀ c ∈ l, Moves R (f c)) → Moves R (l.filterMapM f)
  | [], _ => by
    rw [List.filterMapM_nil]
    exact pure _
  | c :: l, hf => by
    rw [List.filterMapM_cons]
    have hrest := filterMapM fun c' hc' => hf c' (List.mem_cons_of_mem c hc')
    refine (hf c List.mem_cons_self).bind fun found => ?_
    cases found with
    | none => exact hrest
    | some b => exact hrest.bind fun _ => pure _

theorem observeChangeVector (text : String) : Moves R (observeChangeVector text) :=
  of_eq fun h => by
    rw [exec_observeChangeVector] at h
    split at h
    · simp only [Prod.mk.injEq, Except.ok.injEq] at h
      exact h.1.2.symm
    · simp at h

end Moves

end Txn

namespace Pass

variable {α β : Type}

theorem run_bind (x : Pass α) (f : α → Pass β) (db : Database) :
    (x >>= f).run.run db =
      match x.run.run db with
      | (.ok a, db') => (f a).run.run db'
      | (.error e, db') => (.error e, db') := by
  rcases h : x.run.run db with ⟨r, db'⟩
  cases r <;>
    simp only [ExceptT.run_bind, StateT.run_bind, h] <;> rfl

/-- A pass that starts by reading the database goes on from the database it runs on. -/
theorem run_database_bind (f : Database → Pass α) (db : Database) :
    (database >>= f).run.run db = (f db).run.run db := rfl

/-- A transaction commits its tables on success and keeps the database's tables on failure;
its etags and vectors stay either way. -/
theorem run_txn (x : Txn α) (db : Database) :
    (txn x).run.run db =
      match Txn.exec x db.context db.tables db.versions with
      | (.ok (a, t), v) => (.ok a, { db with tables := t, versions := v })
      | (.error e, v) => (.error e, { db with versions := v }) := by
  show db.write x = _
  unfold Database.write Txn.exec
  rcases ((x.run db.context).run db.tables).run.run db.versions with ⟨r, v⟩
  cases r <;> rfl

/-- Every run of `x` from a database with `I` ends in one with `I`. -/
def Keeps (I : Database → Prop) (x : Pass α) : Prop := ∀ db, I db → I (x.run.run db).2

namespace Keeps

variable {I : Database → Prop}

theorem pure (a : α) : Keeps I (pure a) := fun _ h => h

theorem bind {x : Pass α} {f : α → Pass β} (hx : Keeps I x) (hf : ∀ a, Keeps I (f a)) :
    Keeps I (x >>= f) := by
  intro db hdb
  rw [run_bind]
  rcases h : x.run.run db with ⟨r, db'⟩
  have hdb' : I db' := by simpa [h] using hx db hdb
  cases r with
  | ok a => exact hf a db' hdb'
  | error e => exact hdb'

/-- A pass that starts by reading the database keeps `I` when each continuation keeps it from
the database it read. -/
theorem database_bind {f : Database → Pass α} (hf : ∀ db, I db → I ((f db).run.run db).2) :
    Keeps I (database >>= f) := hf

/-- A transaction keeps `I` when its commits and its failures both do. -/
theorem txn {x : Txn α}
    (hok : ∀ db a t v, I db → Txn.exec x db.context db.tables db.versions = (.ok (a, t), v) →
      I { db with tables := t, versions := v })
    (herr : ∀ db v, I db → I { db with versions := v }) : Keeps I (txn x) := by
  intro db hdb
  rw [run_txn]
  rcases h : Txn.exec x db.context db.tables db.versions with ⟨r, v⟩
  cases r with
  | ok p => exact hok db p.1 p.2 v hdb h
  | error e => exact herr db v hdb

theorem repeatWhile {step : Pass Bool} (h : Keeps I step) :
    ∀ fuel, Keeps I (Pass.repeatWhile step fuel)
  | 0 => pure ()
  | fuel + 1 => by
    unfold Pass.repeatWhile
    refine bind h fun b => ?_
    cases b with
    | true => exact repeatWhile h fuel
    | false => exact pure ()

theorem forIn {γ β : Type} {f : γ → β → Pass (ForInStep β)} :
    ∀ {l : List γ}, (∀ x ∈ l, ∀ b, Keeps I (f x b)) → ∀ init, Keeps I (ForIn.forIn l init f)
  | [], _, init => by
    rw [List.forIn_nil]
    exact pure init
  | x :: l, hf, init => by
    rw [List.forIn_cons]
    refine bind (hf x List.mem_cons_self init) fun step => ?_
    cases step with
    | done b => exact pure b
    | yield b => exact forIn (fun y hy => hf y (List.mem_cons_of_mem x hy)) b

end Keeps

end Pass

end SeriesStore
