import SeriesStore.Proofs.SegmentLayout

/-!
# Segments built call by call

A segment is built by a sequence of `append` calls on a fresh segment. A call is either refused,
leaving the segment as it was, or accepted. The calls never fault, and the segment reached holds
exactly the accepted calls: it streams them back in order, each with its values padded with NaN
to the width; it counts the live ones; each column summary is the fold of `observe` over the
live ones; and its stored bytes read back as itself. The reader is also left inverse to the
writer on every byte string it accepts.

    ofWidth w = .ok s₀ → s₀.appendAll calls = .ok (s, accepted) →
      s.stream = accepted.map (.ok ∘ AppendCall.entry w) ∧ ofBytes s.toBytes = .ok s
                                                                        (appendAll_roundTrip)
-/

namespace SeriesStore

namespace Segment

/-- One call of `append`. -/
structure AppendCall where
  offset : Int
  values : List Double
  tag : Option (List UInt8)
  status : Status
  deriving Repr, DecidableEq

/-- The sample an accepted call stores in a segment of width `w`: its values padded with NaN. -/
def AppendCall.entry (w : Nat) (c : AppendCall) : Entry :=
  ⟨c.offset, c.values ++ List.replicate (w - c.values.length) Double.nan, c.tag, c.status⟩

/-- Make the calls in order: the segment reached and the calls it accepted. A fault ends the
run. -/
def appendAll (s : Segment) : List AppendCall → Except Fault (Segment × List AppendCall)
  | [] => .ok (s, [])
  | c :: cs =>
    match s.append c.offset c.values c.tag c.status with
    | .error f => .error f
    | .ok none => appendAll s cs
    | .ok (some s') => (appendAll s' cs).map fun (t, accepted) => (t, c :: accepted)

/-! ## Lemmas -/

/-- A sound segment never faults on `append`: it refuses or accepts. -/
theorem Sound.append_ne_error {s : Segment} {es : List Entry} (h : s.Sound es) (offset : Int)
    (values : List Double) (tag : Option (List UInt8)) (status : Status) (f : Fault) :
    s.append offset values tag status ≠ .error f := by
  intro hf
  unfold Segment.append at hf
  simp only [h.countersOverflow_eq_false, Bool.false_eq_true, if_false] at hf
  repeat' split at hf
  all_goals cases hf

theorem width_of_append {s s' : Segment} {offset : Int} {values : List Double}
    {tag : Option (List UInt8)} {status : Status}
    (h : s.append offset values tag status = .ok (some s')) :
    s'.width = s.width ∧ values.length ≤ s.width := by
  obtain ⟨hadm, -, -, rfl⟩ := append_eq_ok_some_iff.mp h
  simp only [admits, Bool.and_eq_true, decide_eq_true_eq] at hadm
  exact ⟨rfl, hadm.1.1.1.1⟩

/-- The run lemma: a sound segment stays sound over any calls, and gains exactly the samples of
the calls it accepts. -/
theorem Sound.appendAll {s : Segment} {es : List Entry} (h : s.Sound es)
    (calls : List AppendCall) : ∃ t accepted, s.appendAll calls = .ok (t, accepted) ∧
      t.width = s.width ∧ t.Sound (es ++ accepted.map (AppendCall.entry s.width)) := by
  induction calls generalizing s es with
  | nil => exact ⟨s, [], rfl, rfl, by simpa using h⟩
  | cons c cs ih =>
    cases hap : s.append c.offset c.values c.tag c.status with
    | error f => exact absurd hap (h.append_ne_error _ _ _ _ f)
    | ok r =>
      cases r with
      | none =>
        obtain ⟨t, accepted, hrun, hw, ht⟩ := ih h
        exact ⟨t, accepted, by simp [Segment.appendAll, hap, hrun], hw, ht⟩
      | some s' =>
        obtain ⟨hw', hlen⟩ := width_of_append hap
        have h' := h.append hap
        rw [padded_eq_append hlen] at h'
        obtain ⟨t, accepted, hrun, hw, ht⟩ := ih h'
        have hrun' : s.appendAll (c :: cs) = .ok (t, c :: accepted) := by
          simp [Segment.appendAll, hap, hrun, Except.map]
        refine ⟨t, c :: accepted, hrun', hw.trans hw', ?_⟩
        rw [hw'] at ht
        simpa [AppendCall.entry] using ht

/-! ## Round trip -/

/-- Appending to a fresh segment of any width round trips. The calls never fault; the segment
reached streams back exactly the accepted calls, each padded with NaN to the width; it counts
their live ones and each column summary is the fold of `observe` over those; and its stored
bytes read back as itself. The reader is also left inverse to the writer on every byte string
it accepts. -/
theorem appendAll_roundTrip :
    (∀ w, 1 ≤ w → w ≤ maxWidth → ∀ calls : List AppendCall,
      ∃ s₀ s accepted, ofWidth w = .ok s₀ ∧ s₀.appendAll calls = .ok (s, accepted) ∧
        s.stream = accepted.map (fun c => .ok (c.entry w)) ∧
        s.live = (accepted.filter fun c => c.status == .live).length ∧
        s.columns = (List.range w).map (columnOf (accepted.map (AppendCall.entry w))) ∧
        ofBytes s.toBytes = .ok s) ∧
    ∀ (b : Array UInt8) (s : Segment), ofBytes b = .ok s → s.toBytes = b := by
  refine ⟨fun w hw1 hw2 calls => ?_, fun b s h => toBytes_ofBytes h⟩
  have hw : ¬(w = 0 ∨ w > maxWidth) := by omega
  obtain ⟨s₀, hs₀, hwidth₀⟩ : ∃ s₀, ofWidth w = .ok s₀ ∧ s₀.width = w :=
    ⟨_, by rw [ofWidth, if_neg hw], rfl⟩
  obtain ⟨s, accepted, hrun, hwidth, hs⟩ := (sound_ofWidth hs₀).appendAll calls
  rw [hwidth₀, List.nil_append] at hs
  rw [hwidth₀] at hwidth
  refine ⟨s₀, s, accepted, hs₀, hrun, ?_, ?_, ?_, hs.ofBytes_toBytes⟩
  · rw [hs.stream, List.map_map]
    rfl
  · rw [hs.live_eq, List.filter_map, List.length_map]
    rfl
  · rw [hs.columns_eq, hwidth]

/-- A width-one segment given one live call. -/
theorem appendAll_roundTrip_width_one :
    ∃ s₀ s accepted, ofWidth 1 = .ok s₀ ∧
      s₀.appendAll [⟨0, [Double.zero], none, .live⟩] = .ok (s, accepted) ∧
      s.stream = accepted.map (fun c => .ok (c.entry 1)) ∧
      s.live = (accepted.filter fun c => c.status == .live).length ∧
      s.columns = (List.range 1).map (columnOf (accepted.map (AppendCall.entry 1))) ∧
      ofBytes s.toBytes = .ok s :=
  appendAll_roundTrip.1 1 (by decide) (by decide) [⟨0, [Double.zero], none, .live⟩]

end Segment

end SeriesStore
