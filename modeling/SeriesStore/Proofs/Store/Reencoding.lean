import SeriesStore.Proofs.Store.RangeDeletion
import SeriesStore.Store.Replicate

/-!
# Encoding a segment anew with new statuses

A deletion, and a shipped segment that deleted ranges cover, both encode a segment anew: its
samples are read back and appended in order to a fresh segment of its width, some of them made
dead. The encoder is a function of the samples read back: the class of each delta of deltas,
each column's window and the tag bits all follow from them, and a status takes one bit of its
record that nothing an append decides reads. So for every segment a store can meet, built by
appends and stored and read back any number of times in between, the new encoding takes every
sample, whatever the new statuses, and its payload has exactly the old bit length; neither
rewrite ever fails.

    s.Reachable → ∃ es, s.samples = .ok es ∧
      (∀ sts, sts.length = es.length → ∃ s₀ t, ofWidth s.width = .ok s₀ ∧
        s₀.appendAll (es.zipWith AppendCall.ofEntry sts) = .ok (t, es.zipWith ..) ∧
        t.payload.length = s.payload.length ∧ ..) ∧
      (∀ b fromMs toMs, ∃ r, killRange s b fromMs toMs = .ok r) ∧
      (∀ b ts, ∃ t, killCovered s b ts = .ok t ∧ ..)              (reencode_keeps_size)
-/

namespace SeriesStore

namespace Segment

/-- A segment a store can meet: fresh, grown by appends that take their sample, and stored and
read back any number of times in between. An append that refuses its sample leaves the segment
as it was. -/
inductive Reachable : Segment → Prop
  | fresh {w : Nat} {s : Segment} : ofWidth w = .ok s → Reachable s
  | append {s s' : Segment} {offset : Int} {values : List Double} {tag : Option (List UInt8)}
      {status : Status} : Reachable s → s.append offset values tag status = .ok (some s') →
      Reachable s'
  | stored {s s' : Segment} : Reachable s → ofBytes s.toBytes = .ok s' → Reachable s'

/-- Storing a built segment and reading it back gives the segment again, so every segment a
store can meet is built by appends. -/
theorem Reachable.built {s : Segment} (h : s.Reachable) : ∃ es, s.Built es := by
  induction h with
  | fresh h => exact ⟨[], .fresh h⟩
  | append _ happ ih =>
    obtain ⟨es, hb⟩ := ih
    exact ⟨_, hb.append happ⟩
  | stored _ hread ih =>
    obtain ⟨es, hb⟩ := ih
    rw [hb.sound.ofBytes_toBytes] at hread
    obtain rfl := Except.ok.inj hread
    exact ⟨es, hb⟩

theorem payload_length_of_shape {s t : Segment} (h : t.shape = s.shape) :
    t.payload.length = s.payload.length := by
  simp only [shape, Prod.mk.injEq] at h
  exact h.2.2.2.2.2

end Segment

open Segment

/-- The status a sample takes when deleted ranges `ts` are applied at baseline `b`. -/
def Entry.coveredStatus (b : Int) (ts : List Tombstone) (e : Entry) : Status :=
  if ts.any (·.covers (b + e.offset)) then .dead else e.status

/-- A built segment with the samples that deleted ranges cover made dead: every sample is taken
again, with the status that follows, and the segment keeps its shape. -/
theorem killCovered_spec {s : Segment} {es : List Entry} (h : s.Built es) (b : Int)
    (ts : List Tombstone) :
    ∃ t, killCovered s b ts = .ok t ∧
      t.Built (es.map fun e => { e with status := e.coveredStatus b ts }) ∧
      t.shape = s.shape := by
  obtain ⟨s₀, h₀⟩ := h.ofWidth_ok
  unfold killCovered
  rw [h.sound.decode]
  simp only [h₀, Except.ok_bind, bind_pure]
  refine h.restatus (Entry.coveredStatus b ts) ?_ h₀
  -- the fold's step takes the sample when the append does
  intro acc e acc' happ
  simp only [Entry.coveredStatus] at happ ⊢
  rw [happ]
  rfl

/-- Encoding anew a segment that a store can meet, its samples read back and taken in order
with any new statuses, takes every sample, gives exactly the old payload length and reads back
as the samples with their new statuses. So neither a deletion nor the deleted ranges a shipped
segment meets ever fail to encode a segment anew. -/
theorem reencode_keeps_size {s : Segment} (hs : s.Reachable) :
    ∃ es, s.samples = .ok es ∧
      (∀ sts : List Status, sts.length = es.length →
        ∃ s₀ t, ofWidth s.width = .ok s₀ ∧
          s₀.appendAll (es.zipWith AppendCall.ofEntry sts) =
            .ok (t, es.zipWith AppendCall.ofEntry sts) ∧
          t.payload.length = s.payload.length ∧
          t.samples = .ok (es.zipWith Entry.withStatus sts)) ∧
      (∀ b fromMs toMs, ∃ r, killRange s b fromMs toMs = .ok r) ∧
      (∀ b ts, ∃ t, killCovered s b ts = .ok t ∧ t.payload.length = s.payload.length) := by
  obtain ⟨es, hb⟩ := hs.built
  refine ⟨es, hb.sound.samples, fun sts hlen => ?_, fun b fromMs toMs => ?_, fun b ts => ?_⟩
  · obtain ⟨s₀, h₀⟩ := hb.ofWidth_ok
    obtain ⟨t, htakes, hbt, hshape⟩ := hb.retake hlen h₀
    exact ⟨s₀, t, h₀, htakes.appendAll, payload_length_of_shape hshape, hbt.sound.samples⟩
  · rcases killRange_spec hb b fromMs toMs with ⟨hnone, -⟩ | ⟨s', e, hk, -⟩
    · exact ⟨none, hnone⟩
    · exact ⟨_, hk⟩
  · obtain ⟨t, hk, -, hshape⟩ := killCovered_spec hb b ts
    exact ⟨t, hk, payload_length_of_shape hshape⟩

/-- A width-one segment that took `1.5`, stored and read back, is encoded anew with any
statuses in exactly its payload length. -/
theorem reencode_keeps_size_stored :
    ∃ a₀ a₁ s, ofWidth 1 = .ok a₀ ∧
      a₀.append 0 [⟨0x3ff8000000000000⟩] none .live = .ok (some a₁) ∧
      ofBytes a₁.toBytes = .ok s ∧
      ∃ es, s.samples = .ok es ∧
        (∀ sts : List Status, sts.length = es.length →
          ∃ s₀ t, ofWidth s.width = .ok s₀ ∧
            s₀.appendAll (es.zipWith AppendCall.ofEntry sts) =
              .ok (t, es.zipWith AppendCall.ofEntry sts) ∧
            t.payload.length = s.payload.length ∧
            t.samples = .ok (es.zipWith Entry.withStatus sts)) ∧
        (∀ b fromMs toMs, ∃ r, killRange s b fromMs toMs = .ok r) ∧
        (∀ b ts, ∃ t, killCovered s b ts = .ok t ∧ t.payload.length = s.payload.length) := by
  have h₀ : ofWidth 1 = .ok ⟨1, 0, 0, 0, 0, [{}], [{}], {}⟩ := rfl
  have h₁ := append_eq_ok_some_iff.mpr (⟨by decide, by decide, by decide, rfl⟩ : _ ∧ _ ∧ _ ∧
    _ = Segment.grow ⟨1, 0, 0, 0, 0, [{}], [{}], {}⟩ 0 [⟨0x3ff8000000000000⟩] none .live)
  have hread := (Built.append (.fresh h₀) h₁).sound.ofBytes_toBytes
  exact ⟨_, _, _, h₀, h₁, hread, reencode_keeps_size (.stored (.append (.fresh h₀) h₁) hread)⟩

end SeriesStore
