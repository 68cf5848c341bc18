import SeriesStore.Proofs.SegmentCodec
import SeriesStore.Segment.Layout

/-!
# Reading an arbitrary payload

`Segment.ofBytes` checks the header and the payload length only, so the decoder meets any bits
at all. Whatever they are, reading stays within the declared count and ends in one of three
ways: every declared sample read, the bits running out (a corruption), or a fault. The fault
has one cause: a column whose first changed value asks to reuse a window, when no earlier value
of the column opened one (`value_eq_fault_iff`). Every other control pattern either reads a
value or runs out of bits, because the windows the decoder holds leave room for at least one
meaningful bit (`Window.Valid`).

    s.stream.length ≤ s.entries                                       (length_stream_le)
    (value r w).run p = .error (.fault f) ↔
      f = .overflow ∧ w.leading = Window.none ∧ r.readBits p 2 = some 2 (value_eq_fault_iff)
-/

namespace SeriesStore

namespace Decoder

variable {α β : Type}

/-! ## Stepping a reader -/

theorem run_bind (x : Decoder α) (f : α → Decoder β) (p : Nat) :
    (x >>= f).run p = match x.run p with
      | .ok (a, p') => (f a).run p'
      | .error e => .error e := by
  simp only [StateT.run_bind]
  cases x.run p <;> rfl

theorem take_run_eq (r : BitRun) (n p : Nat) : (take r n).run p = match r.readBits p n with
    | some v => .ok (v, p + n)
    | none => .error .short := rfl

/-- Reading `n` bits fails only by running out of them. -/
theorem take_ne_fault (r : BitRun) (n p : Nat) (f : Fault) :
    (take r n).run p ≠ .error (.fault f) := by
  rw [take_run_eq]
  split <;> simp

theorem readBits_one (r : BitRun) (p : Nat) :
    r.readBits p 1 = (r.bit? p).map fun b => if b then 1 else 0 := by
  simp only [BitRun.readBits]
  cases r.bit? p <;> simp

theorem bit_run_eq (r : BitRun) (p : Nat) : (bit r).run p = match r.bit? p with
    | some b => .ok (b, p + 1)
    | none => .error .short := by
  unfold bit
  rw [run_bind, take_run_eq, readBits_one]
  cases r.bit? p with
  | none => rfl
  | some b => cases b <;> rfl

theorem take_bind_eq_ok {r : BitRun} {n p : Nat} {k : Nat → Decoder β} {res : β × Nat}
    (h : (take r n >>= k).run p = .ok res) :
    ∃ v, r.readBits p n = some v ∧ (k v).run (p + n) = .ok res := by
  rw [run_bind, take_run_eq] at h
  cases hv : r.readBits p n with
  | none => rw [hv] at h; cases h
  | some v => rw [hv] at h; exact ⟨v, rfl, h⟩

theorem bit_bind_eq_ok {r : BitRun} {p : Nat} {k : Bool → Decoder β} {res : β × Nat}
    (h : (bit r >>= k).run p = .ok res) :
    ∃ b, r.bit? p = some b ∧ (k b).run (p + 1) = .ok res := by
  rw [run_bind, bit_run_eq] at h
  cases hb : r.bit? p with
  | none => rw [hb] at h; cases h
  | some b => rw [hb] at h; exact ⟨b, rfl, h⟩

theorem bit_ne_fault (r : BitRun) (p : Nat) (f : Fault) : (bit r).run p ≠ .error (.fault f) := by
  rw [bit_run_eq]
  split <;> simp

/-- Two bits read as a number: `2` is a one followed by a zero. -/
theorem readBits_two_eq_two {r : BitRun} {p : Nat} :
    r.readBits p 2 = some 2 ↔ r.bit? p = some true ∧ r.bit? (p + 1) = some false := by
  simp only [BitRun.readBits]
  cases r.bit? p with
  | none => simp
  | some b =>
    cases r.bit? (p + 1) with
    | none => simp
    | some c => cases b <;> cases c <;> simp

/-! ## Readers that never fault -/

/-- A reader that fails, if it fails, only by running out of bits. -/
def NoFault (x : Decoder α) : Prop := ∀ p f, x.run p ≠ .error (.fault f)

theorem NoFault.pure (a : α) : NoFault (Pure.pure a : Decoder α) := by
  intro p f h
  cases h

theorem NoFault.bind {x : Decoder α} {k : α → Decoder β} (hx : NoFault x)
    (hk : ∀ a, NoFault (k a)) : NoFault (x >>= k) := by
  intro p f h
  rw [run_bind] at h
  cases hr : x.run p with
  | error e =>
    rw [hr] at h
    cases h
    exact hx p f hr
  | ok r =>
    rw [hr] at h
    exact hk r.1 r.2 f h

theorem NoFault.short : NoFault (throw .short : Decoder α) := by
  intro p f h
  cases h

theorem NoFault.take (r : BitRun) (n : Nat) : NoFault (take r n) := take_ne_fault r n

theorem NoFault.bit (r : BitRun) : NoFault (bit r) := bit_ne_fault r

theorem NoFault.timestamp (r : BitRun) : NoFault (timestamp r) := by
  unfold Decoder.timestamp
  refine .bind (.bit r) fun b₁ => ?_
  split
  · exact .pure _
  refine .bind (.bit r) fun b₂ => ?_
  split
  · exact .bind (.take r 7) fun _ => .pure _
  refine .bind (.bit r) fun b₃ => ?_
  split
  · exact .bind (.take r 9) fun _ => .pure _
  refine .bind (.bit r) fun b₄ => ?_
  split
  · exact .bind (.take r 12) fun _ => .pure _
  · exact .bind (.take r 32) fun _ => .pure _

theorem NoFault.mapM {γ : Type} (g : γ → Decoder α) (hg : ∀ c, NoFault (g c)) :
    ∀ l : List γ, NoFault (l.mapM g)
  | [] => by
    rw [List.mapM_nil]
    exact .pure _
  | c :: l => by
    rw [List.mapM_cons]
    exact .bind (hg c) fun _ => .bind (NoFault.mapM g hg l) fun _ => .pure _

theorem NoFault.tag (r : BitRun) : NoFault (tag r) := by
  unfold Decoder.tag
  refine .bind (.bit r) fun b => ?_
  split
  · exact .pure _
  refine .bind (.take r 8) fun n => .bind (.mapM _ (fun _ => ?_) _) fun _ => .pure _
  exact .bind (.take r 8) fun _ => .pure _

/-! ## One value of a column -/

/-- Reading a value faults exactly when its column has no window yet and the control bits `10`
ask to reuse one. -/
theorem value_eq_fault_iff {r : BitRun} {w : Window} (hw : w.Valid) {p : Nat} {f : Fault} :
    (value r w).run p = .error (.fault f) ↔
      f = .overflow ∧ w.leading = Window.none ∧ r.readBits p 2 = some 2 := by
  rw [readBits_two_eq_two]
  unfold Decoder.value
  rw [run_bind, bit_run_eq]
  cases hb : r.bit? p with
  | none => simp
  | some b =>
    cases b
    case false => exact iff_of_false (by rintro ⟨⟩) (by simp)
    simp only [Bool.not_true, Bool.false_eq_true, if_false, true_and]
    rw [run_bind, bit_run_eq]
    cases hc : r.bit? (p + 1) with
    | none => simp
    | some c =>
      cases c
      case true =>
        -- the control bits `11`: a new window, whose lengths may not fit (a corruption)
        refine iff_of_false ?_ (by simp)
        refine (NoFault.bind (.take r 6) fun l => .bind (.take r 6) fun m => ?_) _ f
        split
        · exact .bind .short fun _ => .bind (.take r _) fun _ => .pure _
        · exact .bind (.take r _) fun _ => .pure _
      -- the control bits `10`: reuse the window the column holds
      simp only [Bool.not_false, if_true, and_true]
      rcases hw with ⟨hnone, htrail⟩ | hopen
      · rw [if_pos (by simp only [hnone, htrail, Window.none]; omega)]
        simp only [hnone, and_true]
        exact ⟨fun h => by cases h; rfl, fun h => by subst h; rfl⟩
      · rw [if_neg (by omega), run_bind, take_run_eq]
        refine iff_of_false ?_ (by simp only [Window.none]; omega)
        cases r.readBits (p + 1 + 1) (64 - w.leading - w.trailing) with
        | none => rintro ⟨⟩
        | some v =>
          simp only
          rw [if_neg (by omega)]
          rintro ⟨⟩

/-! ## What a reader yields and how it can fault -/

/-- A reader whose results satisfy `Q` and whose only fault is an overflow. -/
structure Safe (Q : α → Prop) (x : Decoder α) : Prop where
  yields : ∀ p a p', x.run p = .ok (a, p') → Q a
  overflow : ∀ p f, x.run p = .error (.fault f) → f = .overflow

theorem Safe.pure {Q : α → Prop} {a : α} (h : Q a) : Safe Q (Pure.pure a : Decoder α) :=
  ⟨fun _ _ _ hr => by cases hr; exact h, fun _ _ hr => by cases hr⟩

theorem Safe.bind {Q : α → Prop} {R : β → Prop} {x : Decoder α} {k : α → Decoder β}
    (hx : Safe Q x) (hk : ∀ a, Q a → Safe R (k a)) : Safe R (x >>= k) := by
  constructor
  · intro p b p' h
    rw [run_bind] at h
    cases hr : x.run p with
    | error e => rw [hr] at h; cases h
    | ok r =>
      rw [hr] at h
      exact (hk r.1 (hx.yields p r.1 r.2 hr)).yields r.2 b p' h
  · intro p f h
    rw [run_bind] at h
    cases hr : x.run p with
    | error e =>
      rw [hr] at h
      cases h
      exact hx.overflow p f hr
    | ok r =>
      rw [hr] at h
      exact (hk r.1 (hx.yields p r.1 r.2 hr)).overflow r.2 f h

theorem NoFault.safe {x : Decoder α} (hx : NoFault x) : Safe (fun _ => True) x :=
  ⟨fun _ _ _ _ => trivial, fun p f h => absurd h (hx p f)⟩

/-- A value read from a window the decoder can hold leaves one it can hold, and faults only by
overflow. -/
theorem safe_value (r : BitRun) {w : Window} (hw : w.Valid) :
    Safe (fun bw => bw.2.Valid) (value r w) := by
  refine ⟨?_, fun p f h => ((value_eq_fault_iff hw).mp h).1⟩
  intro p bw p' h
  unfold Decoder.value at h
  obtain ⟨c₁, -, h⟩ := bit_bind_eq_ok h
  cases c₁
  · -- the control bit `0`: the value repeats, and so does the window
    cases h
    exact hw
  simp only [Bool.not_true, Bool.false_eq_true, if_false] at h
  obtain ⟨c₂, -, h⟩ := bit_bind_eq_ok h
  cases c₂
  · -- the control bits `10`: the window stays, only the value changes
    simp only [Bool.not_false, if_true] at h
    split at h
    · cases h
    obtain ⟨v, -, h⟩ := take_bind_eq_ok h
    split at h
    · cases h
    · cases h
      exact hw
  · -- the control bits `11`: a new window, with at least one meaningful bit
    simp only [Bool.not_true, Bool.false_eq_true, if_false] at h
    obtain ⟨l, -, h⟩ := take_bind_eq_ok h
    obtain ⟨m, -, h⟩ := take_bind_eq_ok h
    split at h
    · cases h
    rename_i hfit
    obtain ⟨v, -, h⟩ := take_bind_eq_ok h
    cases h
    exact .inr (by simp only; omega)

/-- The values of a sample, read from windows the decoder can hold. -/
theorem safe_values (r : BitRun) :
    ∀ {ws : List Window}, (∀ w ∈ ws, w.Valid) →
      Safe (fun bw => ∀ w ∈ bw.2, w.Valid) (values r ws)
  | [], _ => .pure (by simp)
  | w :: ws, hws => by
    unfold Decoder.values
    refine .bind (safe_value r (hws w (by simp))) fun bw hw' => ?_
    obtain ⟨b, w'⟩ := bw
    refine .bind (safe_values r fun u hu => hws u (by simp [hu])) fun bws hws' => ?_
    obtain ⟨bs, ws'⟩ := bws
    exact .pure (by simpa using ⟨hw', hws'⟩)

end Decoder

/-- One sample, read from windows the decoder can hold. -/
theorem DecodeState.safe_next (r : BitRun) {st : DecodeState} (hst : ∀ w ∈ st.windows, w.Valid) :
    Decoder.Safe (fun es => ∀ w ∈ es.2.windows, w.Valid) (st.next r) := by
  unfold DecodeState.next
  refine .bind (Decoder.NoFault.timestamp r).safe fun _ _ => ?_
  refine .bind (Decoder.NoFault.bit r).safe fun _ _ => ?_
  refine .bind (Decoder.NoFault.tag r).safe fun _ _ => ?_
  exact .bind (Decoder.safe_values r hst) fun ⟨_, ws⟩ hws => .pure hws

/-! ## A whole reading -/

/-- A reading of `n` samples yields at most `n` items, counting the failure that stops it. -/
theorem length_decodeRun_le (r : BitRun) :
    ∀ (n : Nat) (st : DecodeState) (p : Nat),
      (decodeRun r n st p).1.length + ((decodeRun r n st p).2.map fun _ => 1).getD 0 ≤ n
  | 0, _, _ => by simp [decodeRun]
  | n + 1, st, p => by
    unfold decodeRun
    split
    · rename_i st' p' _
      have ih := length_decodeRun_le r n st' p'
      simp only [List.length_cons]
      omega
    · simp

/-- From windows the decoder can hold, the only fault that stops a reading is an overflow. -/
theorem decodeRun_fault (r : BitRun) :
    ∀ (n : Nat) {st : DecodeState} (p : Nat), (∀ w ∈ st.windows, w.Valid) → ∀ (f : Fault),
      (decodeRun r n st p).2 = some (.fault f) → f = .overflow
  | 0, _, _, _, _, h => by simp [decodeRun] at h
  | n + 1, st, p, hst, f, h => by
    have hsafe := DecodeState.safe_next r hst
    unfold decodeRun at h
    split at h
    · rename_i e st' p' hnext
      exact decodeRun_fault r n p' (hsafe.yields p (e, st') p' hnext) f h
    · rename_i stop hnext
      cases h
      exact hsafe.overflow p f hnext

theorem valid_fresh : ({} : Window).Valid := .inl ⟨rfl, rfl⟩

namespace Segment

theorem decode_eq (s : Segment) :
    s.decode = ⟨(decodeRun s.payload s.entries { windows := List.replicate s.width {} } 0).1,
      (decodeRun s.payload s.entries { windows := List.replicate s.width {} } 0).2⟩ := rfl

/-- Reading the samples of any segment yields at most the declared number of items. -/
theorem length_stream_le (s : Segment) : s.stream.length ≤ s.entries := by
  have h := length_decodeRun_le s.payload s.entries { windows := List.replicate s.width {} } 0
  rw [stream, decode_eq]
  generalize decodeRun s.payload s.entries { windows := List.replicate s.width {} } 0 = run at h ⊢
  obtain ⟨es, stop⟩ := run
  cases stop <;> simp_all

/-- Reading the samples of any segment yields samples, then at most one failure: the payload
ending early, or an overflow, which `value_eq_fault_iff` traces to a column reusing a window
it never opened. -/
theorem stream_shape (s : Segment) : ∃ es : List Entry, es.length ≤ s.entries ∧
    (s.stream = es.map .ok ∨
      s.stream = es.map .ok ++ [.error (.corruption "segment payload ended early")] ∨
      s.stream = es.map .ok ++ [.error (.fault .overflow)]) := by
  have hlen := s.length_stream_le
  have hfault := @decodeRun_fault s.payload s.entries { windows := List.replicate s.width {} } 0
    (fun w hw => by rw [List.eq_of_mem_replicate hw]; exact valid_fresh)
  rw [stream, decode_eq] at *
  generalize decodeRun s.payload s.entries { windows := List.replicate s.width {} } 0 = run at *
  obtain ⟨es, stop⟩ := run
  refine ⟨es, ?_, ?_⟩
  · simp only [List.length_append, List.length_map] at hlen
    omega
  · cases stop with
    | none => simp
    | some stop =>
      cases stop with
      | short => simp [stopError]
      | fault f => simp [stopError, hfault f rfl]

-- one sample of width one whose only column starts with the control bits `10`
example : (ofBytes (#[1, 0, 1, 0, 0, 0, 1, 0, 0, 0, 5, 0, 0, 0, 0, 0, 0, 0, 0, 0, 0, 0] ++
    Array.replicate 54 0 ++ #[0x10])).map stream = .ok [.error (.fault .overflow)] := by
  decide

end Segment

end SeriesStore
