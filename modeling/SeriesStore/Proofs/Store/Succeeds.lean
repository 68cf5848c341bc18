import Mathlib
import SeriesStore.Proofs.Store.Frame
import SeriesStore.Proofs.Replication.VectorMerge

/-!
# Transactions and passes that succeed

`Txn.Succeeds x ctx t v Q` says that the run of the transaction `x` under the context `ctx`, from
the tables `t` and the versions `v`, succeeds, and that its answer and the state it ends in satisfy
`Q`. It is total correctness in the style of a weakest precondition: a proof follows the steps of
the transaction, `bind` cuts the run in two, and each building block has its rule. A pass of the
runner has the same notion, `Pass.Succeeds`, with a rule for each loop: a `for` over a list
carries an invariant over the items left, and `repeatWhile` ends by asking for no more when each
step that asks for more lowers a measure that the fuel exceeds.

A local write takes an etag and stamps the database's change vector with this node's entry at
that etag. Observing this node's entry twice keeps the later one
(`ChangeVector.observe_observe_of_le`), so between two points of a run that writes only locally
the vector has moved, if at all, by one entry of this node (`Versions.Stamped`).
-/

namespace SeriesStore

namespace Txn

variable {α β : Type}

/-- The run of `x` under `ctx` from the tables `t` and the versions `v` succeeds, and its answer
and the state it ends in satisfy `Q`. -/
def Succeeds (x : Txn α) (ctx : Context) (t : Tables) (v : Versions)
    (Q : α → Tables → Versions → Prop) : Prop :=
  ∃ a t' v', exec x ctx t v = (.ok (a, t'), v') ∧ Q a t' v'

namespace Succeeds

variable {ctx : Context} {t : Tables} {v : Versions} {Q R : α → Tables → Versions → Prop}

theorem mono {x : Txn α} (h : Succeeds x ctx t v Q) (hQR : ∀ a t' v', Q a t' v' → R a t' v') :
    Succeeds x ctx t v R := by
  obtain ⟨a, t', v', hx, hq⟩ := h
  exact ⟨a, t', v', hx, hQR a t' v' hq⟩

/-- A run that succeeds ends where `exec` says. -/
theorem of_exec {x : Txn α} {a : α} {t' : Tables} {v' : Versions}
    (hx : exec x ctx t v = (.ok (a, t'), v')) (hq : Q a t' v') : Succeeds x ctx t v Q :=
  ⟨a, t', v', hx, hq⟩

theorem pure (a : α) (h : Q a t v) : Succeeds (pure a) ctx t v Q :=
  of_exec (exec_pure ctx t v a) h

theorem bind {x : Txn α} {f : α → Txn β} {R : β → Tables → Versions → Prop}
    (hx : Succeeds x ctx t v Q) (hf : ∀ a t' v', Q a t' v' → Succeeds (f a) ctx t' v' R) :
    Succeeds (x >>= f) ctx t v R := by
  obtain ⟨a, t', v', hx, hq⟩ := hx
  obtain ⟨b, t'', v'', hf, hr⟩ := hf a t' v' hq
  exact ⟨b, t'', v'', exec_bind_eq_ok.mpr ⟨a, t', v', hx, hf⟩, hr⟩

/-- A run that succeeds also takes its tables along every relation the transaction keeps. -/
theorem moves {x : Txn α} {M : Tables → Tables → Prop} (h : Succeeds x ctx t v Q) (hm : Moves M x) :
    Succeeds x ctx t v fun a t' v' => Q a t' v' ∧ M t t' := by
  obtain ⟨a, t', v', hx, hq⟩ := h
  exact ⟨a, t', v', hx, hq, hm.ok hx⟩

/-- A run that succeeds also takes its tables along each relation of a family that the
transaction keeps. -/
theorem moves_forall {ι : Type} {x : Txn α} {P : ι → Prop} {M : ι → Tables → Tables → Prop}
    (h : Succeeds x ctx t v Q) (hm : ∀ i, P i → Moves (M i) x) :
    Succeeds x ctx t v fun a t' v' => Q a t' v' ∧ ∀ i, P i → M i t t' := by
  obtain ⟨a, t', v', hx, hq⟩ := h
  exact ⟨a, t', v', hx, hq, fun i hi => (hm i hi).ok hx⟩

/-- A run that succeeds also has every property that the successful runs of the transaction
have. -/
theorem runs {x : Txn α} (h : Succeeds x ctx t v Q) {R : α → Tables → Versions → Prop}
    (hR : ∀ {a t' v'}, exec x ctx t v = (.ok (a, t'), v') → R a t' v') :
    Succeeds x ctx t v fun a t' v' => Q a t' v' ∧ R a t' v' := by
  obtain ⟨a, t', v', hx, hq⟩ := h
  exact ⟨a, t', v', hx, hq, hR hx⟩

theorem tables {Q : Tables → Tables → Versions → Prop} (h : Q t t v) :
    Succeeds Txn.tables ctx t v Q :=
  of_exec (exec_tables ctx t v) h

theorem change {f : Tables → Tables} {Q : Unit → Tables → Versions → Prop} (h : Q () (f t) v) :
    Succeeds (change f) ctx t v Q :=
  of_exec (exec_change ctx t v f) h

/-- A value given and then used: the run goes on with it. -/
theorem pure_bind {a : α} {f : α → Txn β} {R : β → Tables → Versions → Prop}
    (h : Succeeds (f a) ctx t v R) : Succeeds (Pure.pure a >>= f) ctx t v R :=
  (pure a (Q := fun x t' v' => x = a ∧ t' = t ∧ v' = v) ⟨rfl, rfl, rfl⟩).bind
    fun _ _ _ hx => by obtain ⟨rfl, rfl, rfl⟩ := hx; exact h

/-- The tables read and then used: the run goes on with them. -/
theorem tables_bind {f : Tables → Txn β} {R : β → Tables → Versions → Prop}
    (h : Succeeds (f t) ctx t v R) : Succeeds (Txn.tables >>= f) ctx t v R :=
  (tables (Q := fun x t' v' => x = t ∧ t' = t ∧ v' = v) ⟨rfl, rfl, rfl⟩).bind
    fun _ _ _ hx => by obtain ⟨rfl, rfl, rfl⟩ := hx; exact h

theorem set (t' : Tables) {Q : PUnit → Tables → Versions → Prop} (h : Q ⟨⟩ t' v) :
    Succeeds (set t' : Txn PUnit) ctx t v Q :=
  of_exec (exec_set ctx t v t') h

theorem lift {r : Outcome α} {a : α} (hr : r = .ok a) (h : Q a t v) :
    Succeeds (lift r) ctx t v Q := by
  subst hr
  exact of_exec (exec_lift_ok ctx t v a) h

/-- An outcome that succeeds, then used: the run goes on with its value. -/
theorem lift_bind {r : Outcome α} {a : α} {f : α → Txn β} {R : β → Tables → Versions → Prop}
    (hr : r = .ok a) (h : Succeeds (f a) ctx t v R) : Succeeds (Txn.lift r >>= f) ctx t v R :=
  (lift hr (Q := fun x t' v' => x = a ∧ t' = t ∧ v' = v) ⟨rfl, rfl, rfl⟩).bind
    fun _ _ _ hx => by obtain ⟨rfl, rfl, rfl⟩ := hx; exact h

theorem now {Q : Instant → Tables → Versions → Prop} (h : Q ctx.now t v) :
    Succeeds now ctx t v Q :=
  of_exec (exec_now ctx t v) h

theorem configuration {Q : Option Configuration → Tables → Versions → Prop}
    (h : Q ctx.configuration t v) : Succeeds configuration ctx t v Q :=
  of_exec (exec_configuration ctx t v) h

theorem nextEtag {Q : Int → Tables → Versions → Prop}
    (h : Q (v.lastEtag + 1) t { v with lastEtag := v.lastEtag + 1 }) :
    Succeeds nextEtag ctx t v Q :=
  of_exec (exec_nextEtag ctx t v) h

theorem newChangeVector {etag : Int} {Q : String → Tables → Versions → Prop}
    (h : let cv := v.changeVector.observe ⟨ctx.settings.nodeTag, etag, ctx.settings.databaseId⟩
      Q cv.render t { v with changeVector := cv }) :
    Succeeds (newChangeVector etag) ctx t v Q :=
  of_exec (exec_newChangeVector ctx t v etag) h

theorem discard {x : Txn α} {Q : PUnit → Tables → Versions → Prop}
    (h : Succeeds x ctx t v fun _ => Q ⟨⟩) : Succeeds (Functor.discard x) ctx t v Q := by
  have hd : (Functor.discard x : Txn PUnit) = x >>= fun _ => Pure.pure PUnit.unit := by
    rw [Functor.discard, map_const, Function.comp_apply, ← bind_pure_comp]
  rw [hd]
  exact h.bind fun _ _ _ hq => pure _ hq

/-- A fold over a list succeeds when each step does, from an invariant on the items left. -/
theorem foldlM {γ : Type} {f : β → γ → Txn β} {I : List γ → β → Tables → Versions → Prop}
    (hf : ∀ c rest b t v, I (c :: rest) b t v → Succeeds (f b c) ctx t v (I rest)) :
    ∀ (l : List γ) (b : β) (t : Tables) (v : Versions), I l b t v →
      Succeeds (l.foldlM f b) ctx t v (I [])
  | [], b, t, v, h => pure b h
  | c :: l, b, t, v, h => by
    rw [List.foldlM_cons]
    exact (hf c l b t v h).bind fun b' t' v' h' => foldlM hf l b' t' v' h'

end Succeeds

end Txn

namespace Pass

variable {α β : Type}

/-- The run of `x` from the database `db` succeeds, and its answer and the database it ends in
satisfy `Q`. -/
def Succeeds (x : Pass α) (db : Database) (Q : α → Database → Prop) : Prop :=
  ∃ a db', x.run.run db = (.ok a, db') ∧ Q a db'

namespace Succeeds

variable {db : Database} {Q R : α → Database → Prop}

theorem mono {x : Pass α} (h : Succeeds x db Q) (hQR : ∀ a db', Q a db' → R a db') :
    Succeeds x db R := by
  obtain ⟨a, db', hx, hq⟩ := h
  exact ⟨a, db', hx, hQR a db' hq⟩

theorem pure (a : α) (h : Q a db) : Succeeds (pure a) db Q := ⟨a, db, rfl, h⟩

theorem bind {x : Pass α} {f : α → Pass β} {R : β → Database → Prop} (hx : Succeeds x db Q)
    (hf : ∀ a db', Q a db' → Succeeds (f a) db' R) : Succeeds (x >>= f) db R := by
  obtain ⟨a, db', hx, hq⟩ := hx
  obtain ⟨b, db'', hf, hr⟩ := hf a db' hq
  refine ⟨b, db'', ?_, hr⟩
  rw [run_bind, hx]
  exact hf

theorem database_bind {f : Database → Pass α} (h : Succeeds (f db) db Q) :
    Succeeds (database >>= f) db Q := by
  obtain ⟨a, db', hx, hq⟩ := h
  exact ⟨a, db', by rw [run_database_bind]; exact hx, hq⟩

/-- A transaction that succeeds commits its tables and versions. -/
theorem txn {x : Txn α} {Q : α → Tables → Versions → Prop}
    (h : Txn.Succeeds x db.context db.tables db.versions Q) :
    Succeeds (txn x) db fun a db' =>
      ∃ t v, db' = { db with tables := t, versions := v } ∧ Q a t v := by
  obtain ⟨a, t, v, hx, hq⟩ := h
  refine ⟨a, { db with tables := t, versions := v }, ?_, t, v, rfl, hq⟩
  rw [run_txn, hx]

/-- A loop over a list succeeds when each step does and goes on, from an invariant on the items
left. -/
theorem forIn {γ : Type} {f : γ → β → Pass (ForInStep β)} {I : List γ → β → Database → Prop}
    (hf : ∀ c rest b db, I (c :: rest) b db →
      Succeeds (f c b) db fun s db' => ∃ b', s = .yield b' ∧ I rest b' db') :
    ∀ (l : List γ) (b : β) (db : Database), I l b db →
      Succeeds (ForIn.forIn l b f) db (I [])
  | [], b, db, h => by
    rw [List.forIn_nil]
    exact pure b h
  | c :: l, b, db, h => by
    rw [List.forIn_cons]
    refine (hf c l b db h).bind fun s db' hs => ?_
    obtain ⟨b', rfl, h'⟩ := hs
    exact forIn hf l b' db' h'

/-- A step repeated while it asks for more ends by asking for no more, when every step that asks
for more lowers a measure and the fuel exceeds the measure at the start. -/
theorem repeatWhile {step : Pass Bool} {I : Database → Prop} (μ : Database → Nat)
    {F : Database → Prop}
    (hstep : ∀ db, I db →
      Succeeds step db fun more db' =>
        (more = true → I db' ∧ μ db' < μ db) ∧ (more = false → F db')) :
    ∀ (fuel : Nat) (db : Database), I db → μ db < fuel →
      Succeeds (Pass.repeatWhile step fuel) db fun _ db' => F db'
  | 0, _, _, hμ => absurd hμ (Nat.not_lt_zero _)
  | fuel + 1, db, h, hμ => by
    unfold Pass.repeatWhile
    refine (hstep db h).bind fun more db' hmore => ?_
    cases more with
    | true =>
      obtain ⟨h', hμ'⟩ := hmore.1 rfl
      exact repeatWhile μ hstep fuel db' h' (by omega)
    | false => exact pure () (hmore.2 rfl)

end Succeeds

end Pass

/-! ## Local stamps on the change vector -/

namespace Versions

/-- From `v` to `v'` the database gave out etags and stamped its change vector with this node's
entry (node `n`, database `d`) only: the vector is as it was, or as it was with this node's entry
at one of the etags given out since. -/
def Stamped (n d : String) (v v' : Versions) : Prop :=
  v.lastEtag ≤ v'.lastEtag ∧
    (v'.changeVector = v.changeVector ∨
      ∃ e, v.lastEtag < e ∧ e ≤ v'.lastEtag ∧ v'.changeVector = v.changeVector.observe ⟨n, e, d⟩)

variable {n d : String} {v v₁ v₂ : Versions}

theorem Stamped.refl (v : Versions) : Stamped n d v v := ⟨le_refl _, .inl rfl⟩

theorem Stamped.trans (h₁ : Stamped n d v v₁) (h₂ : Stamped n d v₁ v₂) : Stamped n d v v₂ := by
  obtain ⟨hle₁, hcv₁⟩ := h₁
  obtain ⟨hle₂, hcv₂⟩ := h₂
  refine ⟨hle₁.trans hle₂, ?_⟩
  rcases hcv₁ with hcv₁ | ⟨e₁, hlt₁, hle₁', hcv₁⟩ <;>
    rcases hcv₂ with hcv₂ | ⟨e₂, hlt₂, hle₂', hcv₂⟩
  · exact .inl (hcv₂.trans hcv₁)
  · exact .inr ⟨e₂, by omega, hle₂', by rw [hcv₂, hcv₁]⟩
  · exact .inr ⟨e₁, hlt₁, by omega, by rw [hcv₂, hcv₁]⟩
  · -- the later stamp replaces the earlier one
    refine .inr ⟨e₂, by omega, hle₂', ?_⟩
    rw [hcv₂, hcv₁, ChangeVector.observe_observe_of_le _ (by omega)]

/-- Giving out an etag leaves the vector as it is. -/
theorem Stamped.nextEtag (h : Stamped n d v v₁) :
    Stamped n d v { v₁ with lastEtag := v₁.lastEtag + 1 } :=
  h.trans ⟨by simp, .inl rfl⟩

/-- Stamping this node's entry at an etag given out since `v` gives the vector of `v` with that
entry alone. -/
theorem Stamped.observe_eq (h : Stamped n d v v₁) {e : Int} (hle : v₁.lastEtag ≤ e) :
    v₁.changeVector.observe ⟨n, e, d⟩ = v.changeVector.observe ⟨n, e, d⟩ := by
  rcases h.2 with hcv | ⟨e₁, -, hle₁, hcv⟩
  · rw [hcv]
  · rw [hcv, ChangeVector.observe_observe_of_le _ (by omega)]

/-- Stamping this node's entry at the last etag given out, one given out since `v`. -/
theorem Stamped.stamp (h : Stamped n d v v₁) (hlt : v.lastEtag < v₁.lastEtag) :
    Stamped n d v { v₁ with changeVector := v₁.changeVector.observe ⟨n, v₁.lastEtag, d⟩ } :=
  ⟨h.1, .inr ⟨v₁.lastEtag, hlt, le_refl _, h.observe_eq (le_refl _)⟩⟩

end Versions

end SeriesStore
