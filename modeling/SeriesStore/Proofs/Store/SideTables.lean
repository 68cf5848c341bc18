import Mathlib
import SeriesStore.Proofs.Store.Retention

/-!
# Steps beside the segment table

Most steps of a write leave the segment table as it is: they count live samples, list names on
documents, schedule rollups or only read. `Tables.SameSegments` relates tables that hold one
segment table, and each of these steps moves along it (`Txn.Moves`), so a proof about segments
passes over them by composition. A replicated write also reads the deleted ranges its remote
has not seen and marks the points they cover dead; that keeps every timestamp
(`suppressDeleted_eq_ok`).
-/

namespace SeriesStore

namespace Tables

/-- From `t` to `t'` the segment table stays as it is. -/
def SameSegments (t t' : Tables) : Prop := t'.segments = t.segments

instance : Std.Refl SameSegments := ⟨fun _ => rfl⟩

instance : IsTrans Tables SameSegments := ⟨fun _ _ _ h₁ h₂ => h₂.trans h₁⟩

theorem addSeriesName_segments {t t' : Tables} {doc name : String} {b : Bool}
    (h : t.addSeriesName doc name = .ok (t', b)) : t'.segments = t.segments := by
  unfold Tables.addSeriesName at h
  split at h
  · cases h
    rfl
  · split at h
    · cases h
      rfl
    · obtain ⟨d, -, h⟩ := Except.bind_eq_ok.mp h
      cases h
      rfl

end Tables

namespace Txn

open Tables

/-- Counting a series' live samples writes statistics only. -/
theorem updateStats_same (s : SeriesRef) (liveDelta : Int) :
    Moves SameSegments (updateStats s liveDelta) := by
  unfold updateStats
  refine Moves.bind Moves.tables fun t => ?_
  extract_lets previous count record
  have hrecord : ∀ bounds, Moves SameSegments (record bounds) := by
    intro bounds
    unfold record
    split
    · exact Moves.bind (Moves.change fun _ => rfl) fun _ => Moves.pure _
    · exact Moves.bind (Moves.change fun t => removeStats_segments t s) fun _ => Moves.pure _
  split
  · exact Moves.bind (Moves.lift _) hrecord
  · exact Moves.bind (Moves.pure _) hrecord

theorem addSeriesName_same (doc name : String) : Moves SameSegments (addSeriesName doc name) := by
  unfold addSeriesName
  refine Moves.tables_bind ?_
  intro t ctx v a t' v' h
  rw [exec_bind] at h
  cases hr : t.addSeriesName doc name with
  | error e => simp [hr] at h
  | ok p =>
    obtain ⟨t₀, b⟩ := p
    simp only [hr, exec_lift_ok, exec_bind, exec_set, exec_pure, Prod.mk.injEq,
      Except.ok.injEq] at h
    obtain ⟨⟨-, rfl⟩, -⟩ := h
    exact addSeriesName_segments hr

theorem removeSeriesName_same (doc name : String) :
    Moves SameSegments (removeSeriesName doc name) := by
  unfold removeSeriesName
  refine Moves.tables_bind ?_
  intro t ctx v a t' v' h
  rw [exec_bind] at h
  cases hr : t.removeSeriesName doc name with
  | error e => simp [hr] at h
  | ok p =>
    obtain ⟨t₀, b⟩ := p
    simp only [hr, exec_lift_ok, exec_bind, exec_set, exec_pure, Prod.mk.injEq,
      Except.ok.injEq] at h
    obtain ⟨⟨-, rfl⟩, -⟩ := h
    exact (removeSeriesName_frame hr).1

/-- Keeping the document's list of names in step writes the document only. -/
theorem syncSeriesName_same (s : SeriesRef) (count : Nat) :
    Moves SameSegments (syncSeriesName s count) := by
  unfold syncSeriesName
  split
  · exact Moves.discard (addSeriesName_same _ _)
  · exact Moves.discard (removeSeriesName_same _ _)

/-- Scheduling a rollup writes the table of rollups only. -/
theorem scheduleRollup_same (s : SeriesRef) (next : Policy) (ms : Int)
    (changeVector : Option String) : Moves SameSegments (scheduleRollup s next ms changeVector) := by
  unfold scheduleRollup
  refine Moves.bind (Moves.lift _) fun due => Moves.bind Moves.tables fun t => ?_
  extract_lets schedule
  have hschedule : ∀ u, Moves SameSegments (schedule u) := by
    intro u
    unfold schedule
    refine Moves.bind Moves.nextEtag fun etag => ?_
    extract_lets put
    have hput : ∀ cv, Moves SameSegments (put cv) := fun _ => Moves.change fun _ => rfl
    split
    · exact Moves.bind (Moves.pure _) hput
    · exact Moves.bind (Moves.newChangeVector _) hput
  split
  · split
    · exact Moves.pure _
    · exact hschedule ()
  · exact hschedule ()

theorem markForPolicy_same (s : SeriesRef) (ms : Int) (status : Status) :
    Moves SameSegments (markForPolicy s ms status) := by
  unfold markForPolicy
  refine Moves.bind (rollupTarget_moves s ms _) fun target => ?_
  split
  · exact scheduleRollup_same s _ ms none
  · exact Moves.pure _

/-- Reading the deleted ranges a remote vector has not seen writes nothing. -/
theorem unseenTombstones_moves {R : Tables → Tables → Prop} [Std.Refl R] [IsTrans Tables R]
    (pre : Key) (remote : String) : Moves R (unseenTombstones pre remote) := by
  unfold unseenTombstones
  refine Moves.bind Moves.tables fun t => Moves.filterMapM fun c _ => ?_
  exact Moves.bind (Moves.lift _) fun _ => Moves.pure _

/-- Marking replicated points dead where an unseen deletion covers them writes nothing and keeps
every timestamp. -/
theorem suppressDeleted_eq_ok {pre : Key} {remote : String} {ps ps' : List Point}
    {ctx : Context} {t t' : Tables} {v v' : Versions}
    (h : exec (suppressDeleted pre remote ps) ctx t v = (.ok (ps', t'), v')) :
    t' = t ∧ ∃ f : Point → Point, (∀ p, (f p).ms = p.ms) ∧ ps' = ps.map f := by
  unfold suppressDeleted at h
  obtain ⟨ts, v₁, h⟩ := Moves.exec_bind_eq_ok (unseenTombstones_moves pre remote) h
  split at h
  · simp only [exec_pure, Prod.mk.injEq, Except.ok.injEq] at h
    obtain ⟨⟨rfl, rfl⟩, -⟩ := h
    exact ⟨rfl, id, fun _ => rfl, List.map_id _ |>.symm⟩
  · simp only [exec_pure, Prod.mk.injEq, Except.ok.injEq] at h
    obtain ⟨⟨rfl, rfl⟩, -⟩ := h
    refine ⟨rfl, _, fun p => ?_, rfl⟩
    split <;> rfl

end Txn

end SeriesStore
