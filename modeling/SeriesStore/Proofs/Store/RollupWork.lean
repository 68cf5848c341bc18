import Mathlib
import SeriesStore.Proofs.Store.Rescheduling
import SeriesStore.Proofs.Store.TableWeight
import SeriesStore.Proofs.PolicyChain

/-!
# The rollups left to do

A pending rollup of a series into the policy at position `k` of a chain of `n` policies stands
for `n - k` rollups still to come: its own, and one into each policy after it, since rolling
the series up writes a series of that policy, which is then scheduled into the next
(`Configuration.rollupsLeft`). At an instant `nowMs`, only the entries due by then count
(`Configuration.dueWork`), and `Tables.pendingWork` sums them over the keys of the table of
pending rollups.

Two facts make this the measure of the rollup runner. It is bounded by the entries times the
longest chain (`Tables.pendingWork_le`). And a step that takes the work of one key away and
adds at most as much at another, lowering or keeping every other key, moves the sum by no more
(`Tables.pendingWork_add_le_of_moves`), so a rollup that moves `w ≥ 1` rollups to at most
`w - 1` lowers it. The policy positions behind these weights come from the
well-formed chains (`PolicyChain.WellFormed`): a name the chain finds gives the position of the
policy found, and a chain policy's own name gives back its position.
-/

namespace SeriesStore

/-! ## Positions in a chain -/

namespace PolicyChain

/-- A name the chain finds a named policy by gives that policy's position. -/
theorem positionOf_of_byName {c : PolicyChain} {n : String} {p : Policy}
    (h : c.byName n = some (.named p)) :
    ∃ k, ∃ hk : k < c.policies.length, c.positionOf n = some k ∧ c.policies[k] = p := by
  unfold byName at h
  split at h
  · cases h
  · obtain ⟨x, hx, hxp⟩ := Option.map_eq_some_iff.mp h
    cases hxp
    obtain ⟨hpx, k, hk, hkx, hfirst⟩ := List.find?_eq_some_iff_getElem.mp hx
    refine ⟨k, hk, ?_, hkx⟩
    rw [positionOf, List.findIdx?_eq_some_iff_getElem]
    exact ⟨hk, hkx ▸ hpx, fun j hj => by simpa using hfirst j hj⟩

end PolicyChain

/-! ## Rollups left -/

namespace Configuration

/-- How many rollups a pending entry stands for: an entry into the policy at position `k` of a
chain of `n` policies stands for its own rollup and one into each later policy. An entry of an
unconfigured or disabled collection, or into a policy the chain does not hold, stands for
none. -/
def rollupsLeft (cfg : Configuration) (e : RollupEntry) : Nat :=
  match cfg.collection? e.series.collection with
  | some chain =>
    if chain.disabled then 0
    else match chain.positionOf e.policy with
      | some k => chain.policies.length - k
      | none => 0
  | none => 0

/-- The rollups a row stands for at `nowMs`: those of its entry, once it is due. -/
def dueWork (cfg : Configuration) (nowMs : Int) (r : Row RollupEntry) : Nat :=
  match r.index with
  | some i => if i ≤ nowMs then cfg.rollupsLeft r.value else 0
  | none => 0

variable {cfg : Configuration} {chain : PolicyChain} {e : RollupEntry}

/-- An entry into the policy at position `k` of its enabled chain stands for the policies from
`k` on. -/
theorem rollupsLeft_eq (hc : cfg.collection? e.series.collection = some chain)
    (hdis : chain.disabled = false) {k : Nat} (hk : chain.positionOf e.policy = some k) :
    cfg.rollupsLeft e = chain.policies.length - k := by
  simp [rollupsLeft, hc, hdis, hk]

/-- No entry stands for more rollups than its chain has policies. -/
theorem rollupsLeft_le (hc : cfg.collection? e.series.collection = some chain) :
    cfg.rollupsLeft e ≤ chain.policies.length := by
  unfold rollupsLeft
  rw [hc]
  dsimp only
  split
  · exact Nat.zero_le _
  · split <;> omega

/-- A row not yet due stands for nothing. -/
theorem dueWork_of_lt {nowMs i : Int} {r : Row RollupEntry} (hi : r.index = some i)
    (hlt : nowMs < i) : cfg.dueWork nowMs r = 0 := by
  simp [dueWork, hi, not_le.mpr hlt]

/-- A due row stands for the rollups its entry does. -/
theorem dueWork_of_le {nowMs i : Int} {r : Row RollupEntry} (hi : r.index = some i)
    (hle : i ≤ nowMs) : cfg.dueWork nowMs r = cfg.rollupsLeft r.value := by
  simp [dueWork, hi, hle]

theorem dueWork_le (nowMs : Int) (r : Row RollupEntry) :
    cfg.dueWork nowMs r ≤ cfg.rollupsLeft r.value := by
  unfold dueWork
  split
  · split <;> omega
  · exact Nat.zero_le _

end Configuration

/-! ## The pending work of a table -/

namespace Tables

variable (cfg : Configuration) (nowMs : Int)

/-- The rollups the row under a key stands for at `nowMs`; none without a row. -/
def workAt (t : Tables) (k : Key) : Nat := t.rollups.weightAt (fun _ r => cfg.dueWork nowMs r) k

/-- The rollups the pending entries stand for at `nowMs`, over the keys of the table. -/
def pendingWork (t : Tables) : Nat := t.rollups.weight fun _ r => cfg.dueWork nowMs r

variable {cfg nowMs} {t t' : Tables}

theorem workAt_of_get? {k : Key} {r : Row RollupEntry} (h : t.rollups.get? k = some r) :
    t.workAt cfg nowMs k = cfg.dueWork nowMs r :=
  Table.weightAt_of_get? h

theorem workAt_of_get?_none {k : Key} (h : t.rollups.get? k = none) :
    t.workAt cfg nowMs k = 0 :=
  Table.weightAt_of_get?_none h

/-- A step that takes `u` rollups away at key `a` and adds at most `u'` at key `b`, lowering or
keeping every other key, moves the pending work by as much. -/
theorem pendingWork_add_le_of_moves {a b : Key} {u u' : Nat}
    (h : ∀ k, t'.workAt cfg nowMs k + (if k = a then u else 0) ≤
      t.workAt cfg nowMs k + (if k = b then u' else 0)) :
    t'.pendingWork cfg nowMs + u ≤ t.pendingWork cfg nowMs + u' :=
  Table.weight_add_le_of_moves h

/-- The pending work is at most the entries times the rollups any one entry stands for. -/
theorem pendingWork_le {B : Nat} (hB : ∀ e : RollupEntry, cfg.rollupsLeft e ≤ B) :
    t.pendingWork cfg nowMs ≤ t.rollups.size * B :=
  Table.weight_le fun _ r => (cfg.dueWork_le nowMs r).trans (hB _)

end Tables

end SeriesStore
