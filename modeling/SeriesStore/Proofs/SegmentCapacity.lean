import SeriesStore.Proofs.SegmentRoundTrip

/-!
# The capacity check of a segment

`append` decides whether a sample fits before it writes anything. It counts the bits that the
sample's record will take after the current state (`neededBits`: the class of the timestamp's
delta of deltas, the status bit, the tag, and each column's XOR record against the window the
column holds now) and refuses the sample when the payload would pass the size limit. The count
is exact: the record the writer then lays down is that many bits long, after the bits the
payload already had (`grow_payload`).

So a segment built call by call from a fresh one never faults; a refused call leaves it as it
was; and every segment reached encodes to exactly `sizeInBytes` bytes, at most `maxSize`, with
its samples at non-decreasing offsets in `0 ..< offsetLimit` (`append_capacity`).
-/

namespace SeriesStore

namespace Segment

open BitRun

/-- The call's sample passes the checks that need no encoding, and its record, counted
against the current state, keeps the encoded segment within `maxSize`. -/
def Fits (s : Segment) (c : AppendCall) : Prop :=
  s.admits c.offset c.values c.tag = true ∧
    headerSize + s.width * columnSize +
      (s.payload.length + s.neededBits c.offset (pad s.width c.values) c.tag + 7) / 8 ≤ maxSize

instance (s : Segment) (c : AppendCall) : Decidable (s.Fits c) :=
  inferInstanceAs (Decidable (_ ∧ _))

/-- On a sound segment `append` never faults: it takes the sample exactly when it fits. -/
theorem Sound.append_eq {s : Segment} {es : List Entry} (h : s.Sound es) (c : AppendCall) :
    s.append c.offset c.values c.tag c.status =
      if s.Fits c then .ok (some (s.grow c.offset c.values c.tag c.status)) else .ok none := by
  by_cases hf : s.Fits c
  · rw [if_pos hf]
    exact append_eq_ok_some_iff.mpr ⟨hf.1, hf.2, h.countersOverflow_eq_false _ _, rfl⟩
  · rw [if_neg hf]
    cases hap : s.append c.offset c.values c.tag c.status with
    | error f => exact absurd hap (h.append_ne_error _ _ _ _ f)
    | ok r =>
      cases r with
      | none => rfl
      | some s' =>
        obtain ⟨hadm, hsize, -, -⟩ := append_eq_ok_some_iff.mp hap
        exact absurd ⟨hadm, hsize⟩ hf

/-- The record of a sample is exactly the bits the capacity check counted, laid down after the
bits of the payload. -/
theorem grow_payload {s : Segment} (hs : s.payload.Clean) (c : AppendCall) :
    s.payload.toBits <+: (s.grow c.offset c.values c.tag c.status).payload.toBits ∧
      (s.grow c.offset c.values c.tag c.status).payload.length =
        s.payload.length + s.neededBits c.offset (pad s.width c.values) c.tag :=
  ⟨prefix_recordRun hs _ _ _ _, length_recordRun _ _ _ _ _⟩

/-- One more call runs on the segment that the earlier calls reached. -/
theorem appendAll_append_single {s t : Segment} {calls accepted : List AppendCall}
    (h : s.appendAll calls = .ok (t, accepted)) (c : AppendCall) :
    s.appendAll (calls ++ [c]) =
      match t.append c.offset c.values c.tag c.status with
      | .error f => .error f
      | .ok none => .ok (t, accepted)
      | .ok (some t') => .ok (t', accepted ++ [c]) := by
  induction calls generalizing s accepted with
  | nil =>
    cases h
    cases hap : t.append c.offset c.values c.tag c.status with
    | error f => simp [appendAll, hap]
    | ok r => cases r <;> simp [appendAll, hap, Except.map]
  | cons d ds ih =>
    cases hap : s.append d.offset d.values d.tag d.status with
    | error f => simp [appendAll, hap] at h
    | ok r =>
      cases r with
      | none =>
        simp only [appendAll, hap] at h
        simp only [List.cons_append, appendAll, hap]
        exact ih h
      | some s' =>
        simp only [appendAll, hap] at h
        -- the run after `d` reached `t` with the rest of the accepted calls
        cases hrest : s'.appendAll ds with
        | error f => simp [hrest, Except.map] at h
        | ok p =>
          obtain ⟨t₁, rest⟩ := p
          simp only [hrest, Except.map, Except.ok.injEq, Prod.mk.injEq] at h
          obtain ⟨rfl, rfl⟩ := h
          simp only [List.cons_append, appendAll, hap, ih hrest]
          cases t₁.append c.offset c.values c.tag c.status with
          | error f => rfl
          | ok r => cases r <;> rfl

/-! ## Segments built call by call -/

/-- Every segment built from a fresh one stays within its limits, and each further call either
is refused, leaving the segment as it was, or fits and adds exactly the bits the capacity check
counted after the payload's own. In full: for every width a segment takes and all calls, the
run never faults; the segment reached encodes to `sizeInBytes` bytes, at most `maxSize`; the
calls it took have non-decreasing offsets in `0 ..< offsetLimit`; and one more call `c` is
refused exactly when it does not fit, the run then reaching the same segment with the same
calls taken, while a call that fits grows the payload by `neededBits` after its old bits. -/
theorem append_capacity (w : Nat) (hw₁ : 1 ≤ w) (hw₂ : w ≤ maxWidth)
    (calls : List AppendCall) :
    ∃ s₀ s accepted, ofWidth w = .ok s₀ ∧ s₀.appendAll calls = .ok (s, accepted) ∧
      s.toBytes.size = s.sizeInBytes ∧ s.sizeInBytes ≤ maxSize ∧
      (accepted.map AppendCall.offset).Pairwise (· ≤ ·) ∧
      (∀ c ∈ accepted, 0 ≤ c.offset ∧ c.offset < offsetLimit) ∧
      ∀ c : AppendCall,
        (¬s.Fits c ∧ s.append c.offset c.values c.tag c.status = .ok none ∧
          s₀.appendAll (calls ++ [c]) = .ok (s, accepted)) ∨
        (s.Fits c ∧ ∃ s', s.append c.offset c.values c.tag c.status = .ok (some s') ∧
          s₀.appendAll (calls ++ [c]) = .ok (s', accepted ++ [c]) ∧
          s.payload.toBits <+: s'.payload.toBits ∧
          s'.payload.length =
            s.payload.length + s.neededBits c.offset (pad s.width c.values) c.tag) := by
  have hw : ¬(w = 0 ∨ w > maxWidth) := by omega
  obtain ⟨s₀, hs₀, hwidth₀⟩ : ∃ s₀, ofWidth w = .ok s₀ ∧ s₀.width = w :=
    ⟨_, by rw [ofWidth, if_neg hw], rfl⟩
  obtain ⟨s, accepted, hrun, -, hs⟩ := (sound_ofWidth hs₀).appendAll calls
  rw [List.nil_append] at hs
  -- the samples held are the accepted calls, so their offsets are the calls' offsets
  have hoffsets : (accepted.map AppendCall.offset).Pairwise (· ≤ ·) := by
    have := hs.offsets
    rw [List.pairwise_map] at this ⊢
    exact this
  have hbounds : ∀ c ∈ accepted, 0 ≤ c.offset ∧ c.offset < offsetLimit := by
    intro c hc
    have hmem : c.entry s₀.width ∈ accepted.map (AppendCall.entry s₀.width) :=
      List.mem_map_of_mem hc
    exact ⟨hs.offset_nonneg _ hmem,
      Int.lt_of_le_of_lt (hs.offset_le_last _ hmem) hs.lastOffset_lt⟩
  refine ⟨s₀, s, accepted, hs₀, hrun, size_toBytes s hs.storable, hs.sizeInBytes_le, hoffsets,
    hbounds, fun c => ?_⟩
  rw [appendAll_append_single hrun, hs.append_eq c]
  by_cases hf : s.Fits c
  · rw [if_pos hf]
    exact .inr ⟨hf, _, rfl, rfl, grow_payload hs.clean c⟩
  · rw [if_neg hf]
    exact .inl ⟨hf, rfl, rfl⟩

/-- A width-one segment given one live sample at offset zero. -/
theorem append_capacity_width_one :
    ∃ s₀ s accepted, ofWidth 1 = .ok s₀ ∧
      s₀.appendAll [⟨0, [Double.zero], none, .live⟩] = .ok (s, accepted) ∧
      s.toBytes.size = s.sizeInBytes ∧ s.sizeInBytes ≤ maxSize ∧
      (accepted.map AppendCall.offset).Pairwise (· ≤ ·) ∧
      (∀ c ∈ accepted, 0 ≤ c.offset ∧ c.offset < offsetLimit) ∧
      ∀ c : AppendCall,
        (¬s.Fits c ∧ s.append c.offset c.values c.tag c.status = .ok none ∧
          s₀.appendAll ([⟨0, [Double.zero], none, .live⟩] ++ [c]) = .ok (s, accepted)) ∨
        (s.Fits c ∧ ∃ s', s.append c.offset c.values c.tag c.status = .ok (some s') ∧
          s₀.appendAll ([⟨0, [Double.zero], none, .live⟩] ++ [c]) =
            .ok (s', accepted ++ [c]) ∧
          s.payload.toBits <+: s'.payload.toBits ∧
          s'.payload.length =
            s.payload.length + s.neededBits c.offset (pad s.width c.values) c.tag) :=
  append_capacity 1 (by decide) (by decide) [⟨0, [Double.zero], none, .live⟩]

end Segment

end SeriesStore
