import Mathlib
import SeriesStore.Proofs.Store.RollupWork
import SeriesStore.Proofs.Time.RollupDue
import SeriesStore.Proofs.Store.RangeDeletion
import SeriesStore.Proofs.Store.Rounds

/-!
# One rollup lowers the rollups left to do

`Txn.rollupOne` takes one due entry of the table of pending rollups. It answers `true` when it
rolled the series up, and then it has dropped the entry, written the series of the next policy
(whose entries stand for one rollup fewer) and at most scheduled the source again, from the
bucket after the one `nowMs` falls in a span back, which is not yet due at `nowMs`. Every other
exit answers `false`: it keeps the tables, or drops the entry, or drops it and schedules the
source anew into the same policy. So an answer `true` lowers the pending work
(`Tables.pendingWork`) and an answer `false` does not raise it (`Txn.rollupOne_step`).

The exits are told apart by two frames over `Txn.Reschedules`: `Txn.Settles` fixes the answer a
part of the rollup gives, and `Txn.Concludes` adds that the entry under the key was dropped on
the way, so that only a row the frame allows is under the key at the end.
-/

namespace SeriesStore

theorem SeriesName.separator_not_mem_raw (name : String) :
    SeriesName.policySeparator ∉ (SeriesName.raw name).toList := by
  intro hm
  rw [SeriesName.raw, String.toList_ofList] at hm
  simpa using List.mem_takeWhile_imp hm

/-- A series a policy at position `k` of a well-formed chain wrote rolls up into the policy at
`k + 1`, whose entries stand for one rollup fewer than those into the policy at `k`. -/
theorem Context.rollupsLeft_of_rollsInto {ctx : Context} {cfg : Configuration}
    {chain : PolicyChain} {s : SeriesRef} {next : Policy} {k : Nat}
    (hctx : ctx.configuration = some cfg) (hchain : cfg.collection? s.collection = some chain)
    (hwf : chain.WellFormed) (hs : chain.indexBySeries s.name = some (k + 1))
    (hinto : ctx.RollsInto s next) {e : RollupEntry} (hes : e.series = s)
    (hep : e.policy = next.name) : cfg.rollupsLeft e + 1 = chain.policies.length - k := by
  obtain ⟨cfg', chain', i, hcfg, hchain', hdis, hi, hnext⟩ := hinto
  rw [hctx, Option.some.injEq] at hcfg
  subst hcfg
  rw [hchain, Option.some.injEq] at hchain'
  subst hchain'
  rw [hs, Option.some.injEq] at hi
  subst hi
  unfold PolicyChain.nextPolicy at hnext
  split at hnext
  · next p hp =>
    cases hnext
    obtain ⟨hk, hp⟩ := List.getElem?_eq_some_iff.mp hp
    have hpos : chain.positionOf e.policy = some (k + 1) :=
      hwf.positionOf hk (by rw [hep, hp])
    rw [Configuration.rollupsLeft_eq (hes ▸ hchain) hdis hpos]
    omega
  · cases hnext

/-- A new row under key `k` adds at most `u` rollups at `nowMs` if `k` is `b`, and none
elsewhere. -/
def Configuration.AddsAtMost (cfg : Configuration) (nowMs : Int) (b : Key) (u : Nat) (k : Key)
    (r : Row RollupEntry) : Prop :=
  cfg.dueWork nowMs r ≤ if k = b then u else 0

namespace Tables

variable {cfg : Configuration} {nowMs : Int} {P : Key → Row RollupEntry → Prop} {e e' : Int}
  {t t' : Tables}

/-- After a rescheduling whose new rows stand for at most `c k` rollups at key `k`, every key
stands for at most what it stood for plus `c k`; a key where only new rows may stand, for at
most `c k`. -/
theorem workAt_le_of_rescheduled {c : Key → Nat} (hR : Rescheduled P e e' t t')
    (hP : ∀ k r, P k r → cfg.dueWork nowMs r ≤ c k) (k : Key) :
    t'.workAt cfg nowMs k ≤ t.workAt cfg nowMs k + c k := by
  rcases hR.entry k with h | h | ⟨r, hr, -, -, hPr⟩
  · rw [workAt, workAt, Table.weightAt, Table.weightAt, h]
    omega
  · rw [workAt_of_get?_none h]
    omega
  · rw [workAt_of_get? hr]
    exact (hP k r hPr).trans (Nat.le_add_left _ _)

/-- A rescheduling that leaves under `key` only new rows, each standing for at most `u`
rollups at key `b` and none elsewhere, moves the pending work by no more than it takes the work
of `key` away and adds `u`. -/
theorem pendingWork_add_le_of_dropped {key b : Key} {u : Nat}
    (hR : Rescheduled (cfg.AddsAtMost nowMs b u) e e' t t')
    (hkey : ∀ r, t'.rollups.get? key = some r → cfg.AddsAtMost nowMs b u key r) :
    t'.pendingWork cfg nowMs + t.workAt cfg nowMs key ≤ t.pendingWork cfg nowMs + u := by
  refine pendingWork_add_le_of_moves (a := key) (b := b) fun k => ?_
  have hle := workAt_le_of_rescheduled hR (fun _ _ h => h) k
  by_cases hk : k = key
  · subst hk
    -- under `key` stands only a new row, or none
    have hnew : t'.workAt cfg nowMs k ≤ if k = b then u else 0 := by
      unfold workAt Table.weightAt
      split
      · next r hr => exact hkey r hr
      · exact Nat.zero_le _
    simp only [if_true]
    omega
  · simp only [hk, if_false]
    omega

/-- A stretch of the rollup runner from `t` to `t'`, while the etag counter goes from `e` to
`e'`: the counter grows, every pending rollup is kept, dropped or put anew under an etag given
out in between, and the pending work at `nowMs` drops by at least `n`. -/
structure RollupStep (cfg : Configuration) (nowMs : Int) (e e' : Int) (t t' : Tables) (n : Nat) :
    Prop where
  etag : e ≤ e'
  rescheduled : Rescheduled (fun _ _ => True) e e' t t'
  lowers : t'.pendingWork cfg nowMs + n ≤ t.pendingWork cfg nowMs

/-- Etags given out by the counter stay so: a rescheduling while the counter grows puts new
rows only under etags it gave out. -/
theorem Rescheduled.etag_le (hR : Rescheduled P e e' t t') (he : e ≤ e')
    (hfresh : ∀ k r, t.rollups.get? k = some r → r.value.etag ≤ e) :
    ∀ k r, t'.rollups.get? k = some r → r.value.etag ≤ e' := by
  intro k r hr
  rcases hR.entry k with h | h | ⟨r', hr', -, hhi, -⟩
  · rw [h] at hr
    exact (hfresh k r hr).trans he
  · rw [h] at hr
    cases hr
  · rw [hr', Option.some.injEq] at hr
    subst hr
    exact hhi

/-- An entry of the due batch is the entry of a row of the list it is taken from. -/
theorem mem_takeDue {accept : RollupEntry → Bool} :
    ∀ {take : Nat} {l : List (Int × Key × Row RollupEntry)} {due : DueRollup},
      due ∈ takeDue accept take l → ∃ x ∈ l, x.2.1 = due.key ∧ x.2.2.value = due.entry
  | _, [], _, h => by simp [takeDue] at h
  | take, (i, k, r) :: rest, due, h => by
    unfold takeDue at h
    split_ifs at h with h0 ha
    · cases h
    · rcases List.mem_cons.mp h with rfl | h
      · exact ⟨_, List.mem_cons_self, rfl, rfl⟩
      · obtain ⟨x, hx, hk, hv⟩ := mem_takeDue h
        exact ⟨x, List.mem_cons_of_mem _ hx, hk, hv⟩
    · obtain ⟨x, hx, hk, hv⟩ := mem_takeDue h
      exact ⟨x, List.mem_cons_of_mem _ hx, hk, hv⟩

/-- Every entry of a batch of due rollups of a sorted table is the row under its key, indexed at
or before `nowMs`. -/
theorem get?_of_mem_dueRollups {take : Nat} {accept : RollupEntry → Bool} {due : DueRollup}
    (hidx : t.rollups.IndexExact) (hd : due ∈ t.dueRollups nowMs take accept) :
    ∃ r, t.rollups.get? due.key = some r ∧ r.value = due.entry ∧
      ∃ i, r.index = some i ∧ i ≤ nowMs := by
  obtain ⟨x, hx, hk, hv⟩ := mem_takeDue hd
  have hle := List.mem_takeWhile_imp hx
  obtain ⟨hget, hi, -⟩ := hidx.mem_indexFrom.mp ((List.takeWhile_sublist _).subset hx)
  exact ⟨x.2.2, hk ▸ hget, hv, x.1, hi, by simpa using hle⟩

namespace RollupStep

theorem refl (t : Tables) (e : Int) : RollupStep cfg nowMs e e t t 0 :=
  ⟨le_refl _, Rescheduled.refl t, le_refl _⟩

theorem trans {e₁ : Int} {t₁ : Tables} {m n : Nat} (h₁ : RollupStep cfg nowMs e e₁ t t₁ m)
    (h₂ : RollupStep cfg nowMs e₁ e' t₁ t' n) : RollupStep cfg nowMs e e' t t' (m + n) :=
  ⟨h₁.etag.trans h₂.etag, h₁.rescheduled.trans h₂.rescheduled h₁.etag h₂.etag,
    by have := h₁.lowers; have := h₂.lowers; omega⟩

end RollupStep

end Tables

namespace Txn

open SeriesStore.Tables

variable {α β : Type} {ctx : Context} {t t' : Tables} {v v' : Versions}

/-! ## The rows a rollup schedules -/

section Scheduled

variable {cfg : Configuration} {chain : PolicyChain} {s : SeriesRef} {r : Row RollupEntry}

/-- An entry scheduled into the policy at position `k` of the enabled, well-formed chain of its
collection stands for the policies from `k` on. -/
theorem Scheduled.rollupsLeft {k : Nat} {ms : Int} (hchain : cfg.collection? s.collection = some chain)
    (hdis : chain.disabled = false) (hwf : chain.WellFormed) (hk : k < chain.policies.length)
    (hr : Scheduled s chain.policies[k] ms r) :
    cfg.rollupsLeft r.value = chain.policies.length - k := by
  obtain ⟨d, -, hser, hpol, -⟩ := hr
  exact Configuration.rollupsLeft_eq (by rw [hser]; exact hchain) hdis
    (hwf.positionOf hk (by rw [hpol]))

/-- An entry scheduled from `N`, the start of the bucket after the one holding `nowMs` a span
back, is not due at `nowMs`. -/
theorem Scheduled.dueWork_eq_zero {p : Policy} {nowMs N : Int}
    (hnow₁ : Instant.minMillis ≤ nowMs) (hnow₂ : nowMs < Instant.maxMillis)
    (hN : nextRollup (p.aggregation.subtractFromMillis nowMs) p = .ok N) (hr : Scheduled s p N r) :
    cfg.dueWork nowMs r = 0 := by
  obtain ⟨d, hd, -, -, hidx⟩ := hr
  exact Configuration.dueWork_of_lt hidx (lt_nextRollup_nextRollup hnow₁ hnow₂ hN hd)

end Scheduled

/-! ## Frames that fix the answer -/

/-- Every successful run of `x` answers `b`, gives out etags upward and reschedules the pending
rollups along `P`. -/
structure Settles (P : Key → Row RollupEntry → Prop) (ctx : Context) (b : Bool) (x : Txn Bool) :
    Prop where
  ok : ∀ {t v a t' v'}, exec x ctx t v = (.ok (a, t'), v') →
    a = b ∧ v.lastEtag ≤ v'.lastEtag ∧ Rescheduled P v.lastEtag v'.lastEtag t t'

/-- Every successful run of `x` answers `b`, gives out etags upward, reschedules along `P`, and
leaves under `key` only a row `P` allows: the entry under `key` at the start is gone. -/
structure Concludes (P : Key → Row RollupEntry → Prop) (ctx : Context) (key : Key) (b : Bool)
    (x : Txn Bool) : Prop where
  ok : ∀ {t v a t' v'}, exec x ctx t v = (.ok (a, t'), v') →
    a = b ∧ v.lastEtag ≤ v'.lastEtag ∧ Rescheduled P v.lastEtag v'.lastEtag t t' ∧
      ∀ r, t'.rollups.get? key = some r → P key r

variable {P : Key → Row RollupEntry → Prop} {key : Key} {b : Bool}

theorem Settles.pure (b : Bool) : Settles P ctx b (Pure.pure b) := by
  constructor
  intro t v a t' v' h
  simp only [exec_pure, Prod.mk.injEq, Except.ok.injEq] at h
  obtain ⟨⟨rfl, rfl⟩, rfl⟩ := h
  exact ⟨rfl, le_refl _, Rescheduled.refl t⟩

theorem Settles.bind {x : Txn α} {f : α → Txn Bool} (hx : Reschedules P ctx x)
    (hf : ∀ a, Settles P ctx b (f a)) : Settles P ctx b (x >>= f) := by
  constructor
  intro t v c t'' v'' h
  obtain ⟨a, t', v', h₁, h₂⟩ := exec_bind_eq_ok.mp h
  obtain ⟨hv₁, hr₁⟩ := hx.ok h₁
  obtain ⟨rfl, hv₂, hr₂⟩ := (hf a).ok h₂
  exact ⟨rfl, hv₁.trans hv₂, hr₁.trans hr₂ hv₁ hv₂⟩

theorem Concludes.bind {x : Txn α} {f : α → Txn Bool} (hx : Reschedules P ctx x)
    (hf : ∀ a, Concludes P ctx key b (f a)) : Concludes P ctx key b (x >>= f) := by
  constructor
  intro t v c t'' v'' h
  obtain ⟨a, t', v', h₁, h₂⟩ := exec_bind_eq_ok.mp h
  obtain ⟨hv₁, hr₁⟩ := hx.ok h₁
  obtain ⟨rfl, hv₂, hr₂, hkey⟩ := (hf a).ok h₂
  exact ⟨rfl, hv₁.trans hv₂, hr₁.trans hr₂ hv₁ hv₂, hkey⟩

/-- Dropping the entry under `key` and then settling concludes. -/
theorem Concludes.forget {f : Unit → Txn Bool} (hf : ∀ u, Settles P ctx b (f u)) :
    Concludes P ctx key b (forgetRollup key >>= f) := by
  constructor
  intro t v c t'' v'' h
  obtain ⟨u, t', v', h₁, h₂⟩ := exec_bind_eq_ok.mp h
  simp only [forgetRollup, dropRollup, exec_change, Prod.mk.injEq, Except.ok.injEq] at h₁
  obtain ⟨⟨-, rfl⟩, rfl⟩ := h₁
  obtain ⟨rfl, hv, hr⟩ := (hf u).ok h₂
  refine ⟨rfl, hv, (Rescheduled.remove t key).trans hr (le_refl _) hv, fun r hr' => ?_⟩
  -- the entry under `key` was dropped, so whatever stands there now is new
  rcases hr.entry key with h | h | ⟨r', hr'', -, -, hP⟩
  · simp [h] at hr'
  · simp [h] at hr'
  · rw [hr''] at hr'
    cases hr'
    exact hP

/-- A run that concludes with new rows adding at most `u` rollups, where the key it dropped
stood for at least `u` more than the answer, lowers the pending work by the answer. -/
theorem Concludes.rollupStep {cfg : Configuration} {nowMs : Int} {c : Key} {u : Nat} {a : Bool}
    {x : Txn Bool} (hx : Concludes (cfg.AddsAtMost nowMs c u) ctx key a x)
    (hu : u + (if a then 1 else 0) ≤ t.workAt cfg nowMs key)
    (h : exec x ctx t v = (.ok (b, t'), v')) :
    RollupStep cfg nowMs v.lastEtag v'.lastEtag t t' (if b then 1 else 0) := by
  obtain ⟨rfl, hv, hR, hkey⟩ := hx.ok h
  have := pendingWork_add_le_of_dropped hR hkey
  exact ⟨hv, hR.mono fun _ _ _ => trivial, by omega⟩

/-- Answering `false` and keeping the tables keeps the pending work. -/
theorem rollupStep_of_pure_false {cfg : Configuration} {nowMs : Int}
    (h : exec (Pure.pure false : Txn Bool) ctx t v = (.ok (b, t'), v')) :
    RollupStep cfg nowMs v.lastEtag v'.lastEtag t t' (if b then 1 else 0) := by
  simp only [exec_pure, Prod.mk.injEq, Except.ok.injEq] at h
  obtain ⟨⟨rfl, rfl⟩, rfl⟩ := h
  exact RollupStep.refl t _

/-- Dropping an entry and answering `false` does not raise the pending work. -/
theorem rollupStep_of_forget {cfg : Configuration} {nowMs : Int}
    (h : exec (forgetRollup key >>= fun _ => Pure.pure false) ctx t v = (.ok (b, t'), v')) :
    RollupStep cfg nowMs v.lastEtag v'.lastEtag t t' (if b then 1 else 0) :=
  Concludes.rollupStep (c := key) (u := 0) (Concludes.forget fun _ => Settles.pure false)
    (by simp) h

/-! ## One rollup -/

/-- A rollup of a due entry reschedules the pending rollups, and when it answers `true` it lowers
the pending work at `nowMs`, while an answer `false` does not raise it. The configuration is the
context's, its chains are well formed, `nowMs` lies in the range of instants below its last,
and the row under the due key that carries the due entry's etag is the due entry, due by
`nowMs`. -/
theorem rollupOne_step {cfg : Configuration} {nowMs : Int} {primary : Bool}
    {due : Tables.DueRollup} (hctx : ctx.configuration = some cfg)
    (hwf : ∀ c ∈ cfg.collections, c.2.WellFormed) (hnow₁ : Instant.minMillis ≤ nowMs)
    (hnow₂ : nowMs < Instant.maxMillis)
    (hitem : ∀ r, t.rollups.get? due.key = some r → r.value.etag = due.entry.etag →
      r.value = due.entry ∧ ∃ i, r.index = some i ∧ i ≤ nowMs)
    (h : exec (rollupOne cfg nowMs primary due) ctx t v = (.ok (b, t'), v')) :
    RollupStep cfg nowMs v.lastEtag v'.lastEtag t t' (if b then 1 else 0) := by
  unfold rollupOne at h
  extract_lets item source mode finish at h
  split at h
  · next chain hchain =>
    have hwfc : chain.WellFormed := by
      obtain ⟨c, hc, rfl⟩ := Configuration.mem_of_collection? hchain
      exact hwf c hc
    split at h
    · exact rollupStep_of_pure_false h
    · next hdis =>
      replace hdis : chain.disabled = false := by simpa using hdis
      split at h
      · next policy hpolicy =>
        -- the entry into the policy at position `k` stands for the policies from `k` on
        obtain ⟨k, hk, hpos, rfl⟩ := PolicyChain.positionOf_of_byName hpolicy
        rw [exec_tables_bind] at h
        split at h
        · next current hcurrent =>
          split at h
          · exact rollupStep_of_pure_false h
          · next hetag =>
            obtain ⟨hcur, i, hi, hile⟩ := hitem current hcurrent (by simpa using hetag)
            have hwork : t.workAt cfg nowMs due.key = chain.policies.length - k := by
              rw [workAt_of_get? hcurrent, Configuration.dueWork_of_le hi hile, hcur]
              exact Configuration.rollupsLeft_eq hchain hdis hpos
            rw [exec_tables_bind] at h
            split at h
            · exact rollupStep_of_forget h
            · extract_lets start target targetWindow at h
              obtain ⟨aggregated, -, h⟩ := exec_readsOutcome_bind_eq_ok h
              obtain ⟨targetCv, -, h⟩ := exec_readsOutcome_bind_eq_ok h
              extract_lets jp at h
              -- past the conflict check: a secondary answers `false`, a primary rolls up
              have hjp : exec (jp ()) ctx t v = (.ok (b, t'), v') →
                  RollupStep cfg nowMs v.lastEtag v'.lastEtag t t' (if b then 1 else 0) := by
                intro h
                unfold jp at h
                split at h
                · exact rollupStep_of_pure_false h
                obtain ⟨N, hN, h⟩ := exec_lift_bind_eq_ok h
                extract_lets stop remark roll at h
                -- rolling up: the series of the next policy, whose entries stand for one rollup
                -- fewer, and the source again from `stop + 1`, not due at `nowMs`
                have htarget : ∀ next ms r, ctx.RollsInto target next → Scheduled target next ms r →
                    cfg.AddsAtMost nowMs target.key (chain.policies.length - k - 1) target.key r := by
                  rintro next ms r hinto ⟨d, -, hser, hpol, -⟩
                  have hleft := Context.rollupsLeft_of_rollsInto (s := target) hctx hchain hwfc
                    ((hwfc.navigate hk).bySeries _ (SeriesName.separator_not_mem_raw _)) hinto hser hpol
                  have hle : cfg.dueWork nowMs r ≤ cfg.rollupsLeft r.value := Configuration.dueWork_le nowMs r
                  simp only [Configuration.AddsAtMost, if_true]
                  omega
                have hremark : ∀ u, Settles (cfg.AddsAtMost nowMs target.key
                    (chain.policies.length - k - 1)) ctx true (remark u) := by
                  intro u
                  unfold remark
                  refine Settles.bind Reschedules.tables fun tb => ?_
                  split
                  · split
                    · refine Settles.bind (scheduleRollup_reschedules ?_ none) fun _ => Settles.pure true
                      intro r hr
                      rw [show stop + 1 = N from Int.sub_add_cancel N 1] at hr
                      simp [Configuration.AddsAtMost, Scheduled.dueWork_eq_zero hnow₁ hnow₂ hN hr]
                    · exact Settles.pure true
                  · exact Settles.pure true
                have hroll : exec (roll ()) ctx t v = (.ok (b, t'), v') →
                    RollupStep cfg nowMs v.lastEtag v'.lastEtag t t' (if b then 1 else 0) := by
                  intro h
                  unfold roll at h
                  obtain ⟨grid, -, h⟩ := exec_lift_bind_eq_ok h
                  obtain ⟨values, -, h⟩ := exec_readsOutcome_bind_eq_ok h
                  split at h
                  · exact rollupStep_of_forget h
                  extract_lets rest at h
                  have hrest : ∀ u, Concludes (cfg.AddsAtMost nowMs target.key
                      (chain.policies.length - k - 1)) ctx due.key true (rest u) := by
                    intro u
                    unfold rest
                    refine Concludes.forget fun _ => ?_
                    split
                    · exact Settles.bind (appendSamples_reschedules htarget _ _ _).discard hremark
                    · exact hremark ()
                  have hu : chain.policies.length - k - 1 + (if true then 1 else 0) ≤
                      t.workAt cfg nowMs due.key := by
                    simp only [hwork, if_true]
                    omega
                  refine Concludes.rollupStep (c := target.key) ?_ hu h
                  split
                  · exact Concludes.bind (deleteRange_reschedules htarget _ _ _).discard hrest
                  · exact hrest ()
                split at h
                · obtain ⟨beforeStart, -, h⟩ := exec_liftFault_bind_eq_ok h
                  obtain ⟨prior, -, h⟩ := exec_readsOutcome_bind_eq_ok h
                  split at h
                  · obtain ⟨first, -, h⟩ := exec_readsOutcome_bind_eq_ok h
                    split at h
                    · obtain ⟨M, -, h⟩ := exec_lift_bind_eq_ok h
                      split at h
                      · -- no samples before the bucket: the source is scheduled anew into the same
                        -- policy, for as many rollups as the entry dropped
                        refine Concludes.rollupStep (c := source.key) (u := chain.policies.length - k)
                          (Concludes.forget fun _ => Settles.bind (scheduleRollup_reschedules ?_ none)
                            fun _ => Settles.pure false) (by simp [hwork]) h
                        intro r hr
                        have hleft := Scheduled.rollupsLeft hchain hdis hwfc hk hr
                        have hle : cfg.dueWork nowMs r ≤ cfg.rollupsLeft r.value := Configuration.dueWork_le nowMs r
                        simp only [Configuration.AddsAtMost, if_true]
                        omega
                      · exact hroll h
                    · exact rollupStep_of_forget h
                  · exact hroll h
                · exact hroll h
              split at h
              · split at h
                · obtain ⟨st, -, h⟩ := exec_lift_bind_eq_ok h
                  split at h
                  · exact rollupStep_of_forget h
                  · exact hjp h
                · exact hjp h
              · exact hjp h
        · exact rollupStep_of_pure_false h
      · exact rollupStep_of_forget h
  · exact rollupStep_of_forget h

/-! ## A batch of rollups -/

/-- A batch of due rollups, each the row under its key and due by `now`, over tables whose etags
were all given out by the counter, reschedules the pending rollups and lowers the pending work
at `now` by at least the count it answers. -/
theorem rollupBatch_step {cfg : Configuration} {now : Instant} {primary : Bool}
    {batch : List Tables.DueRollup} {n : Nat} (hctx : ctx.configuration = some cfg)
    (hwf : ∀ c ∈ cfg.collections, c.2.WellFormed) (hnow₁ : Instant.minMillis ≤ now.millis)
    (hnow₂ : now.millis < Instant.maxMillis)
    (hfresh : ∀ k r, t.rollups.get? k = some r → r.value.etag ≤ v.lastEtag)
    (hbatch : ∀ due ∈ batch, ∃ r, t.rollups.get? due.key = some r ∧ r.value = due.entry ∧
      ∃ i, r.index = some i ∧ i ≤ now.millis)
    (h : exec (rollupBatch cfg now primary batch) ctx t v = (.ok (n, t'), v')) :
    RollupStep cfg now.millis v.lastEtag v'.lastEtag t t' n := by
  unfold rollupBatch at h
  -- the fold carries a stretch of the runner from `t`, with the count rolled up so far
  suffices hfold : ∀ l : List Tables.DueRollup, (∀ due ∈ l, due ∈ batch) →
      ∀ m t₁ v₁, RollupStep cfg now.millis v.lastEtag v₁.lastEtag t t₁ m →
      exec (l.foldlM (fun n due => do
        if ← rollupOne cfg now.millis primary due then Pure.pure (n + 1) else Pure.pure n) m)
        ctx t₁ v₁ = (.ok (n, t'), v') →
      RollupStep cfg now.millis v.lastEtag v'.lastEtag t t' n from
    hfold batch (fun _ h => h) 0 t v (RollupStep.refl t _) h
  intro l
  induction l with
  | nil =>
    intro _ m t₁ v₁ hs h
    simp only [List.foldlM_nil, exec_pure, Prod.mk.injEq, Except.ok.injEq] at h
    obtain ⟨⟨rfl, rfl⟩, rfl⟩ := h
    exact hs
  | cons due rest ih =>
    intro hl m t₁ v₁ hs h
    rw [List.foldlM_cons] at h
    obtain ⟨m', t₂, v₂, h₁, h₂⟩ := exec_bind_eq_ok.mp h
    obtain ⟨b, t₃, v₃, h₃, h₄⟩ := exec_bind_eq_ok.mp h₁
    -- the row under the due key with the due etag is still the due entry: a row put anew
    -- carries an etag past every one of `t`
    have hitem : ∀ r, t₁.rollups.get? due.key = some r → r.value.etag = due.entry.etag →
        r.value = due.entry ∧ ∃ i, r.index = some i ∧ i ≤ now.millis := by
      intro r hr hetag
      obtain ⟨r₀, hr₀, hv₀, i, hi, hile⟩ := hbatch due (hl due List.mem_cons_self)
      rcases hs.rescheduled.entry due.key with he | he | ⟨r', hr', hlo, -, -⟩
      · rw [he, hr₀, Option.some.injEq] at hr
        subst hr
        exact ⟨hv₀, i, hi, hile⟩
      · rw [he] at hr
        cases hr
      · rw [hr', Option.some.injEq] at hr
        subst hr
        have hold := hfresh due.key r₀ hr₀
        rw [hv₀] at hold
        omega
    have hstep := rollupOne_step hctx hwf hnow₁ hnow₂ hitem h₃
    -- the count goes up by the answer
    have hm' : (m + (if b then 1 else 0) = m' ∧ t₃ = t₂) ∧ v₃ = v₂ := by
      cases b <;> simpa using h₄
    obtain ⟨⟨rfl, rfl⟩, rfl⟩ := hm'
    exact ih (fun d hd => hl d (List.mem_cons_of_mem _ hd)) _ _ _ (hs.trans hstep) h₂

end Txn

/-! ## The rollup pass -/

/-- No entry stands for more rollups than the policies of all the chains, each counted with
its raw policy. -/
theorem Configuration.rollupsLeft_le_sum (cfg : Configuration) (e : RollupEntry) :
    cfg.rollupsLeft e ≤ (cfg.collections.map fun c => c.2.policies.length + 1).sum := by
  cases hchain : cfg.collection? e.series.collection with
  | none => simp [Configuration.rollupsLeft, hchain]
  | some chain =>
    obtain ⟨c, hc, rfl⟩ := Configuration.mem_of_collection? hchain
    have hsum := List.le_sum_of_mem (List.mem_map_of_mem (f := fun c : String × PolicyChain =>
      c.2.policies.length + 1) hc)
    have hle := Configuration.rollupsLeft_le hchain
    omega

/-- The count of rounds a pass allows exceeds the rollups the pending entries stand for. -/
theorem Database.pendingWork_lt_passFuel {cfg : Configuration} (db : Database)
    (hcfg : db.configuration = some cfg) (nowMs : Int) :
    db.tables.pendingWork cfg nowMs < db.passFuel := by
  obtain ⟨B, hB⟩ : ∃ B, (cfg.collections.map fun c => c.2.policies.length + 1).sum = B :=
    ⟨_, rfl⟩
  have hwork : db.tables.pendingWork cfg nowMs ≤ db.tables.rollups.size * B :=
    Tables.pendingWork_le fun e => hB ▸ cfg.rollupsLeft_le_sum e
  -- the count of rounds, read through the configuration in force
  have hfuel : db.passFuel = (db.tables.rollups.size + db.tables.segments.size +
      (db.tables.stats.map fun x => x.2.size).sum + 2) * (B + 2) := by
    unfold Database.passFuel
    rw [hcfg, ← hB]
  rw [hfuel]
  exact lt_of_le_of_lt hwork (Nat.mul_lt_mul_of_lt_of_le (by omega) (by omega) (by omega))

/-- What the rounds of rollups keep: the configuration in force, a clock in the range of
instants below its last, a sorted table of pending rollups with an exact index, and etags all
given out by the counter. -/
structure Database.RollupReady (cfg : Configuration) (db : Database) : Prop where
  configuration : db.configuration = some cfg
  clock : Instant.minMillis ≤ db.now.millis ∧ db.now.millis < Instant.maxMillis
  sorted : db.tables.rollups.Sorted
  indexed : db.tables.rollups.IndexExact
  fresh : ∀ k r, db.tables.rollups.get? k = some r → r.value.etag ≤ db.versions.lastEtag

namespace Pass

/-- A round of rollups reads the due batch: an empty batch asks for no more, and otherwise the
round is the batch's transaction, asking for more when the batch rolled any up. -/
theorem roundOf_rollupRound (cfg : Configuration) (db : Database) :
    roundOf (rollupRound cfg) db =
      if (db.tables.dueRollups db.now.millis db.settings.rollupBatch
          (Database.acceptsRollup cfg)).isEmpty then (.ok false, db)
      else match Txn.exec (Txn.rollupBatch cfg db.now db.isPrimary
          (db.tables.dueRollups db.now.millis db.settings.rollupBatch
            (Database.acceptsRollup cfg))) db.context db.tables db.versions with
        | (.ok (n, t), v) => (.ok (decide (n > 0)), { db with tables := t, versions := v })
        | (.error e, v) => (.error e, { db with versions := v }) := by
  unfold roundOf rollupRound
  rw [run_database_bind]
  dsimp only
  split
  · rfl
  · rw [run_bind, run_txn]
    rcases Txn.exec _ db.context db.tables db.versions with ⟨r, v⟩
    cases r <;> rfl

/-- A round of rollups that asks for more keeps the database ready and lowers the rollups the
pending entries stand for. -/
theorem rollupRound_more {cfg : Configuration} (hwf : ∀ c ∈ cfg.collections, c.2.WellFormed)
    {db db' : Database} (hdb : db.RollupReady cfg)
    (h : roundOf (rollupRound cfg) db = (.ok true, db')) :
    db'.RollupReady cfg ∧
      db'.tables.pendingWork cfg db'.now.millis < db.tables.pendingWork cfg db.now.millis := by
  rw [roundOf_rollupRound] at h
  split at h
  · simp at h
  rcases hx : Txn.exec (Txn.rollupBatch cfg db.now db.isPrimary
      (db.tables.dueRollups db.now.millis db.settings.rollupBatch
        (Database.acceptsRollup cfg))) db.context db.tables db.versions with ⟨r, v⟩
  rw [hx] at h
  cases r with
  | error e => simp at h
  | ok p =>
    obtain ⟨n, t⟩ := p
    simp only [Prod.mk.injEq, Except.ok.injEq, decide_eq_true_eq] at h
    obtain ⟨hn, rfl⟩ := h
    have hstep := Txn.rollupBatch_step hdb.configuration hwf hdb.clock.1 hdb.clock.2 hdb.fresh
      (fun _ hd => Tables.get?_of_mem_dueRollups hdb.indexed hd) hx
    refine ⟨⟨hdb.configuration, hdb.clock, hstep.rescheduled.sorted hdb.sorted,
      hstep.rescheduled.indexed hdb.indexed, hstep.rescheduled.etag_le hstep.etag hdb.fresh⟩, ?_⟩
    have hlow := hstep.lowers
    show t.pendingWork cfg db.now.millis < _
    omega

/-- With well-formed chains and a clock below the last instant, the rollup pass ends on its
own: from a ready database its rounds stop within the count of rounds a pass allows. -/
theorem rollupRound_stops {cfg : Configuration} (hwf : ∀ c ∈ cfg.collections, c.2.WellFormed)
    {db : Database} (hdb : db.RollupReady cfg) :
    StopsWithin (roundOf (rollupRound cfg)) db.passFuel db :=
  StopsWithin.of_measure (I := Database.RollupReady cfg)
    (fun s => s.tables.pendingWork cfg s.now.millis) (fun _ _ hs h => rollupRound_more hwf hs h)
    _ db hdb (db.pendingWork_lt_passFuel hdb.configuration _)

end Pass

end SeriesStore
