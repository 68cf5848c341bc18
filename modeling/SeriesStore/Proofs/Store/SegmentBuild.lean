import Mathlib
import SeriesStore.Proofs.SegmentRoundTrip
import SeriesStore.Proofs.Store.PointOrder
import SeriesStore.Proofs.Store.Txn
import SeriesStore.Store.Delete

/-!
# Segments built by appends

Every segment a store writes is a fresh segment of some width that took its samples one by
one: `Built s es` says that `s` was reached so, taking the entries `es`. A built segment is
sound, so it reads back as `es` (`Built.sound`).

What an append decides reads only the *shape* of a segment: width, count, last offset and
delta, windows and payload length, none of which depends on the statuses of the samples
taken. So the entries of a built segment can be taken again, from a fresh segment of the same
width, with one new status per entry: every append takes its entry again (`Built.retake`), and
any fold that succeeds where the append does runs to the end (`Built.restatus`). This is what
lets a deletion re-encode a segment with some samples made dead.

The packing of points into segments (`Point.build`) and the appends of a run to a stored
segment (`appendWhileFits`) are then described by what they build.
-/

namespace SeriesStore

/-- The entry with its status replaced. -/
def Entry.withStatus (e : Entry) (status : Status) : Entry := { e with status := status }

namespace Segment

/-- A segment reached from a fresh one by appends that each took their sample. -/
inductive Built : Segment → List Entry → Prop
  | fresh {w : Nat} {s : Segment} : ofWidth w = .ok s → Built s []
  | append {s s' : Segment} {es : List Entry} {offset : Int} {values : List Double}
      {tag : Option (List UInt8)} {status : Status} :
      Built s es → s.append offset values tag status = .ok (some s') →
      Built s' (es ++ [⟨offset, padded s.width values, tag, status⟩])

theorem Built.sound {s : Segment} {es : List Entry} (h : Built s es) : s.Sound es := by
  induction h with
  | fresh h => exact sound_ofWidth h
  | append _ happ ih => exact ih.append happ

theorem width_ofWidth {w : Nat} {s : Segment} (h : ofWidth w = .ok s) : s.width = w := by
  unfold ofWidth at h
  split at h
  · cases h
  · cases h
    rfl

/-- Padding values already padded to the width changes nothing. -/
@[simp] theorem padded_padded (w : Nat) (values : List Double) :
    padded w (padded w values) = padded w values := by
  apply List.ext_getElem (by simp)
  intro i h1 _
  simp only [length_padded] at h1
  simp [padded, h1]

@[simp] theorem pad_padded (w : Nat) (values : List Double) :
    pad w (padded w values) = pad w values := by
  apply List.ext_getElem (by simp)
  intro i h1 _
  simp only [length_pad] at h1
  simp [pad, padded, h1]

/-! ## The shape of a segment -/

/-- What an append reads of a segment besides its counters and summaries. -/
def shape (s : Segment) : Nat × Nat × Int × Int × List Window × Nat :=
  (s.width, s.entries, s.lastOffset, s.lastDelta, s.windows, s.payload.length)

/-- The windows after a value do not depend on the run it is written to. -/
theorem write_snd (w : Window) (r r' : BitRun) (b : UInt64) : (w.write r b).2 = (w.write r' b).2 := by
  dsimp only [Window.write]
  split
  · rfl
  · split <;> rfl

theorem writeValues_snd (ws : List Window) (r r' : BitRun) (bs : List UInt64) :
    (writeValues ws r bs).2 = (writeValues ws r' bs).2 := by
  induction ws generalizing r r' bs with
  | nil => cases bs <;> rfl
  | cons w ws ih =>
    cases bs with
    | nil => rfl
    | cons b bs =>
      simp only [writeValues]
      rw [write_snd w r r' b, ih]

/-- Growing by one sample: the new shape is read off the old shape and the sample, whatever its
status. -/
theorem shape_grow {s₁ s₂ : Segment} (h : s₁.shape = s₂.shape) {v₁ v₂ : List Double}
    (hv : pad s₁.width v₁ = pad s₂.width v₂) (offset : Int) (tag : Option (List UInt8))
    (st₁ st₂ : Status) :
    (s₁.grow offset v₁ tag st₁).shape = (s₂.grow offset v₂ tag st₂).shape := by
  simp only [shape, Prod.mk.injEq] at h
  obtain ⟨hw, he, ho, hd, hwin, hlen⟩ := h
  have hneed : s₁.neededBits offset (pad s₁.width v₁) tag =
      s₂.neededBits offset (pad s₂.width v₂) tag := by
    simp only [neededBits, ho, hd, hwin, hv]
  have hrun : (s₁.recordRun offset v₁ tag st₁).2 = (s₂.recordRun offset v₂ tag st₂).2 := by
    simp only [recordRun]
    rw [hwin, hv, writeValues_snd]
  simp only [shape, grow, Prod.mk.injEq, hw, he, ho, hrun, true_and]
  rw [length_recordRun, length_recordRun, hlen, hneed]

/-- Two segments of one shape take the same samples, the second being sound. -/
theorem append_of_shape {s₁ s₂ s₁' : Segment} {es₂ : List Entry} (h : s₁.shape = s₂.shape)
    (hs₂ : s₂.Sound es₂) {v₁ v₂ : List Double} (hv : pad s₁.width v₁ = pad s₂.width v₂)
    (hlen : v₂.length ≤ s₂.width) {offset : Int} {tag : Option (List UInt8)} {st₁ : Status}
    (h₁ : s₁.append offset v₁ tag st₁ = .ok (some s₁')) (st₂ : Status) :
    ∃ s₂', s₂.append offset v₂ tag st₂ = .ok (some s₂') ∧ s₁'.shape = s₂'.shape := by
  obtain ⟨hadm, hfit, -, rfl⟩ := append_eq_ok_some_iff.mp h₁
  have hshape := h
  simp only [shape, Prod.mk.injEq] at hshape
  obtain ⟨hw, he, ho, hd, hwin, hplen⟩ := hshape
  have hneed : s₁.neededBits offset (pad s₁.width v₁) tag =
      s₂.neededBits offset (pad s₂.width v₂) tag := by
    simp only [neededBits, ho, hd, hwin, hv]
  have hadm₂ : s₂.admits offset v₂ tag = true := by
    simp only [admits, Bool.and_eq_true, decide_eq_true_eq, Bool.or_eq_true, beq_iff_eq]
      at hadm ⊢
    rw [← he, ← ho]
    exact ⟨⟨⟨⟨hlen, hadm.1.1.1.2⟩, hadm.1.1.2⟩, hadm.1.2⟩, hadm.2⟩
  refine ⟨s₂.grow offset v₂ tag st₂, append_eq_ok_some_iff.mpr ⟨hadm₂, ?_,
    hs₂.countersOverflow_eq_false _ _, rfl⟩, shape_grow h hv offset tag st₁ st₂⟩
  rw [← hneed, ← hw, ← hplen]
  exact hfit

/-! ## Taking the entries again -/

/-- The call that takes an entry again, with a new status. -/
def AppendCall.ofEntry (e : Entry) (status : Status) : AppendCall :=
  ⟨e.offset, e.values, e.tag, status⟩

/-- Appending the calls in order to `s`, every one of them taken, reaches `t`. -/
inductive TakesAll : Segment → List AppendCall → Segment → Prop
  | nil (s : Segment) : TakesAll s [] s
  | cons {s s' t : Segment} {c : AppendCall} {cs : List AppendCall} :
      s.append c.offset c.values c.tag c.status = .ok (some s') → TakesAll s' cs t →
      TakesAll s (c :: cs) t

theorem TakesAll.snoc {s t t' : Segment} {cs : List AppendCall} {c : AppendCall}
    (h : TakesAll s cs t) (happ : t.append c.offset c.values c.tag c.status = .ok (some t')) :
    TakesAll s (cs ++ [c]) t' := by
  induction h with
  | nil s => exact .cons happ (.nil _)
  | cons hstep _ ih => exact .cons hstep (ih happ)

/-- Calls that are all taken run through `appendAll` with every one accepted. -/
theorem TakesAll.appendAll {s t : Segment} {cs : List AppendCall} (h : TakesAll s cs t) :
    s.appendAll cs = .ok (t, cs) := by
  induction h with
  | nil s => rfl
  | cons hstep _ ih => simp [Segment.appendAll, hstep, ih, Except.map]

/-- Calls that are all taken run through any fold whose step succeeds where the append takes
its call. -/
theorem TakesAll.foldlM {α : Type} {call : α → AppendCall} {xs : List α} {s t : Segment}
    (h : TakesAll s (xs.map call) t) {g : Segment → α → Outcome Segment}
    (hg : ∀ acc a acc', acc.append (call a).offset (call a).values (call a).tag (call a).status =
      .ok (some acc') → g acc a = .ok acc') :
    xs.foldlM g s = .ok t := by
  induction xs generalizing s with
  | nil =>
    cases h
    rfl
  | cons x xs ih =>
    cases h with
    | cons hstep hrest => rw [List.foldlM_cons, hg _ _ _ hstep, Except.ok_bind, ih hrest]

/-- A built segment's entries, taken again from a fresh segment of its width with one new status
per entry: each append takes its entry, and the segment reached has the same shape. What an
append decides reads only the shape, and no status moves it. -/
theorem Built.retake {s : Segment} {es : List Entry} (h : Built s es) {sts : List Status}
    (hlen : sts.length = es.length) {s₀ : Segment} (h₀ : ofWidth s.width = .ok s₀) :
    ∃ t, TakesAll s₀ (es.zipWith AppendCall.ofEntry sts) t ∧
      Built t (es.zipWith Entry.withStatus sts) ∧ t.shape = s.shape := by
  induction h generalizing sts with
  | @fresh w s hs =>
    rw [width_ofWidth hs, hs] at h₀
    injection h₀ with h₀
    subst h₀
    simp only [List.zipWith_nil_left]
    exact ⟨s, .nil s, .fresh hs, rfl⟩
  | @append s s' es offset values tag status hb happ ih =>
    -- the last of the new statuses goes to the entry appended last
    obtain ⟨sts, st, rfl⟩ : ∃ sts' st, sts = sts' ++ [st] := by
      rcases List.eq_nil_or_concat' sts with rfl | hsnoc
      · simp at hlen
      · exact hsnoc
    have hlen' : sts.length = es.length := by simpa using hlen
    have hw : s'.width = s.width := (width_of_append happ).1
    obtain ⟨r, hr, hbr, hshape⟩ := ih hlen' (hw ▸ h₀)
    have hrw : r.width = s.width := congrArg Prod.fst hshape
    -- the entry as the built segment holds it, values already padded
    let e : Entry := ⟨offset, padded s.width values, tag, status⟩
    obtain ⟨r', hr', hshape'⟩ := append_of_shape hshape.symm hbr.sound
      (show _ = pad r.width e.values by rw [hrw, pad_padded])
      (by rw [hrw, length_padded]) happ st
    refine ⟨r', ?_, ?_, hshape'.symm⟩
    · rw [List.zipWith_append hlen'.symm]
      exact hr.snoc hr'
    · have hb' := Built.append hbr hr'
      rw [hrw, padded_padded] at hb'
      rw [List.zipWith_append hlen'.symm]
      simpa [Entry.withStatus] using hb'

/-- A built segment's entries, taken again from a fresh segment of its width with statuses that
depend on the entry: each append succeeds, and the segment reached has the same shape. Any step
that succeeds where the append does will do. -/
theorem Built.restatus {s : Segment} {es : List Entry} (h : Built s es) (f : Entry → Status)
    {g : Segment → Entry → Outcome Segment}
    (hg : ∀ acc e acc', acc.append e.offset e.values e.tag (f e) = .ok (some acc') →
      g acc e = .ok acc')
    {s₀ : Segment} (h₀ : ofWidth s.width = .ok s₀) :
    ∃ s', es.foldlM g s₀ = .ok s' ∧ Built s' (es.map fun e => { e with status := f e }) ∧
      s'.shape = s.shape := by
  obtain ⟨t, htakes, hbuilt, hshape⟩ := h.retake (List.length_map f) h₀
  rw [List.zipWith_map_right, List.zipWith_self] at htakes hbuilt
  exact ⟨t, htakes.foldlM hg, hbuilt, hshape⟩

/-! ## A segment drained to one dead sample -/

/-- The values of a sample with no values, as a fresh window writes them: NaN in 26 bits. -/
theorem encodedBits_nan : ({} : Window).encodedBits Double.nan.bits = 26 := by decide

theorem neededBits_fresh {w : Nat} {s : Segment} (h : ofWidth w = .ok s) :
    s.neededBits 0 (pad w []) none = 3 + 26 * w := by
  unfold ofWidth at h
  split at h
  · cases h
  · cases h
    have hzip : (List.replicate w ({} : Window)).zip (pad w []) =
        List.replicate w (({} : Window), Double.nan.bits) := by
      apply List.ext_getElem (by simp [pad])
      intro i h1 h2
      simp [pad]
    simp only [neededBits, hzip, List.map_replicate, encodedBits_nan, List.sum_replicate,
      smul_eq_mul]
    simp [timestampBits, tagBits]
    omega

/-- A fresh segment takes one dead sample with no values: the form a segment takes when a
deletion covers all of it. -/
theorem built_drained {w : Nat} {s₀ : Segment} (h : ofWidth w = .ok s₀) :
    ∃ s, s₀.append 0 [] none .dead = .ok (some s) ∧
      Built s [⟨0, padded w [], none, .dead⟩] := by
  have hs₀ := sound_ofWidth h
  have hwidth := width_ofWidth h
  have hw := hs₀.width_le
  have hfresh : s₀.entries = 0 ∧ s₀.payload.length = 0 := by
    unfold ofWidth at h
    split at h
    · cases h
    · cases h
      exact ⟨rfl, rfl⟩
  have happ : s₀.append 0 [] none .dead = .ok (some (s₀.grow 0 [] none .dead)) := by
    refine append_eq_ok_some_iff.mpr ⟨?_, ?_, hs₀.countersOverflow_eq_false _ _, rfl⟩
    · simp [admits, hfresh.1, offsetLimit]
    · rw [hwidth, neededBits_fresh h, hfresh.2]
      rw [hwidth] at hw
      simp only [maxWidth] at hw
      simp only [headerSize, columnSize, maxSize]
      omega
  refine ⟨_, happ, ?_⟩
  simpa [hwidth] using Built.append (.fresh h) happ

end Segment

/-! ## Points in segments -/

namespace Point

/-- The entry that a segment of width `w` at baseline `b` stores for a point. -/
def entryAt (w : Nat) (b : Int) (p : Point) : Entry := ⟨p.ms - b, Segment.padded w p.values, p.tag, p.status⟩

@[simp] theorem ofEntry_entryAt (w : Nat) (b : Int) (p : Point) :
    ofEntry b (entryAt w b p) = { p with values := Segment.padded w p.values } := by
  simp [ofEntry, entryAt]

/-- A point stored in a segment at least as wide as its values stands for it. -/
theorem pads_entryAt {w : Nat} {p : Point} (h : p.values.length ≤ w) (b : Int) :
    Pads (ofEntry b (entryAt w b p)) p :=
  ⟨by simp, rfl, rfl, w - p.values.length, by simp [Segment.padded_eq_append h]⟩

/-- A segment that takes a point takes its entry. -/
theorem built_appendTo {s s' : Segment} {es : List Entry} (h : s.Built es) {p : Point} {b : Int}
    (happ : p.appendTo s b = .ok (some s')) :
    s'.Built (es ++ [entryAt s.width b p]) ∧ s'.width = s.width ∧ p.values.length ≤ s.width :=
  ⟨.append h happ, Segment.width_of_append happ⟩

end Point

namespace Txn

/-- Appending a run while it fits: the segment takes a prefix of the run, whole. -/
theorem appendWhileFits_eq_ok {s : Segment} {es : List Entry} (h : s.Built es) {b : Int}
    {ps : List Point} {s' : Segment} {n : Nat} (hrun : appendWhileFits s b ps = .ok (s', n)) :
    n ≤ ps.length ∧ s'.width = s.width ∧ s'.Built (es ++ (ps.take n).map (Point.entryAt s.width b)) ∧
      ∀ p ∈ ps.take n, p.values.length ≤ s.width := by
  induction ps generalizing s es s' n with
  | nil =>
    simp only [appendWhileFits, Except.ok.injEq, Prod.mk.injEq] at hrun
    obtain ⟨rfl, rfl⟩ := hrun
    simpa using h
  | cons p ps ih =>
    simp only [appendWhileFits] at hrun
    rcases happ : p.appendTo s b with f | _ | s₁
    · simp [happ] at hrun
    · simp only [happ, Except.ok_bind, pure, Except.pure, Except.ok.injEq, Prod.mk.injEq] at hrun
      obtain ⟨rfl, rfl⟩ := hrun
      simpa using h
    · obtain ⟨hb₁, hw₁, hlen⟩ := Point.built_appendTo h happ
      rw [happ, Except.ok_bind] at hrun
      obtain ⟨⟨s₂, m⟩, hrest, heq⟩ := Except.bind_eq_ok.mp hrun
      simp only [pure, Except.pure, Except.ok.injEq, Prod.mk.injEq] at heq
      obtain ⟨rfl, rfl⟩ := heq
      obtain ⟨hm, hw₂, hb₂, hlens⟩ := ih hb₁ hrest
      refine ⟨by simpa using hm, hw₂.trans hw₁, ?_, ?_⟩
      · rw [hw₁] at hb₂
        simpa using hb₂
      · intro x hx
        rcases List.mem_cons.mp (by simpa using hx) with rfl | hx
        · exact hlen
        · exact hw₁ ▸ hlens x hx

end Txn

/-! ## Deleting a range from a segment -/

/-- Whether the sample of an entry at baseline `b` lies in the range. -/
def Entry.inRange (b fromMs toMs : Int) (e : Entry) : Bool :=
  fromMs ≤ b + e.offset && b + e.offset ≤ toMs

namespace Packing

/-- Opening a segment for a point, the current one done: at the pinned baseline while the pin
is left and the point fits there, else at the point's own timestamp. -/
def openFor (k : Packing) (p : Point) : Outcome Packing :=
  let done := k.done ++ k.current.toList
  let atOwn : Outcome Packing :=
    match fresh p p.ms p.values.length with
    | .ok (some s) => .ok { done, current := some (p.ms, s) }
    | .ok none =>
      match Segment.ofWidth p.values.length with
      | .ok empty => .error (.segmentTooLarge empty.sizeInBytes)
      | .error e => .error e
    | .error e => .error e
  match k.pinned with
  | some (b, w) =>
    match fresh p b (Nat.max w p.values.length) with
    | .ok (some s) => .ok { done, current := some (b, s) }
    | .ok none => atOwn
    | .error e => .error e
  | none => atOwn

/-- Packing one point: the current segment takes it, or refuses it and a segment is opened. -/
theorem add_eq (k : Packing) (p : Point) : k.add p =
    match k.current with
    | some (b, s) =>
      match p.appendTo s b with
      | .error f => .error (.fault f)
      | .ok (some s') => .ok { k with current := some (b, s') }
      | .ok none => k.openFor p
    | none => k.openFor p := by
  rcases k with ⟨done, _ | ⟨b, s⟩, _ | ⟨b₀, w₀⟩⟩ <;> simp only [Packing.add, openFor]
  · rcases fresh p p.ms p.values.length with e | _ | s
    · rfl
    · cases Segment.ofWidth p.values.length <;> rfl
    · rfl
  · rcases fresh p b₀ (Nat.max w₀ p.values.length) with e | _ | s'
    · rfl
    · rcases fresh p p.ms p.values.length with e | _ | s
      · rfl
      · cases Segment.ofWidth p.values.length <;> rfl
      · rfl
    · rfl
  · rcases p.appendTo s b with f | _ | s'
    · rfl
    · rcases fresh p p.ms p.values.length with e | _ | s
      · rfl
      · cases Segment.ofWidth p.values.length <;> rfl
      · rfl
    · rfl
  · rcases p.appendTo s b with f | _ | s'
    · rfl
    · rcases fresh p b₀ (Nat.max w₀ p.values.length) with e | _ | s''
      · rfl
      · rcases fresh p p.ms p.values.length with e | _ | s
        · rfl
        · cases Segment.ofWidth p.values.length <;> rfl
        · rfl
      · rfl
    · rfl

theorem fresh_eq_ok_some {p : Point} {b : Int} {w : Nat} {s : Segment}
    (h : fresh p b w = .ok (some s)) :
    s.Built [Point.entryAt w b p] ∧ s.width = w ∧ p.values.length ≤ w := by
  unfold fresh at h
  rcases hw : Segment.ofWidth w with e | s₀
  · simp [hw] at h
  · rw [hw, Except.ok_bind] at h
    rcases happ : p.appendTo s₀ b with f | _ | s'
    · simp [happ] at h
    · simp [happ, pure, Except.pure] at h
    · simp only [happ, pure, Except.pure, Except.ok.injEq, Option.some.injEq] at h
      subst h
      have hw₀ := Segment.width_ofWidth hw
      obtain ⟨hb, hw', hlen⟩ := Point.built_appendTo (.fresh hw) happ
      rw [hw₀] at hb hw' hlen
      exact ⟨by simpa using hb, hw', hlen⟩

theorem openFor_eq_ok {k k' : Packing} {p : Point} (h : k.openFor p = .ok k') :
    ∃ b w s, fresh p b w = .ok (some s) ∧ (b = p.ms ∨ ∃ w₀, k.pinned = some (b, w₀)) ∧
      k' = { done := k.done ++ k.current.toList, current := some (b, s) } := by
  -- the opening at the point's own timestamp, reached with or without a pin
  have atOwn : ∀ {D : List (Int × Segment)},
      (match fresh p p.ms p.values.length with
        | .ok (some s) => (.ok { done := D, current := some (p.ms, s) } : Outcome Packing)
        | .ok none =>
          match Segment.ofWidth p.values.length with
          | .ok empty => .error (.segmentTooLarge empty.sizeInBytes)
          | .error e => .error e
        | .error e => .error e) = .ok k' →
      ∃ s, fresh p p.ms p.values.length = .ok (some s) ∧
        k' = { done := D, current := some (p.ms, s) } := by
    intro D hD
    rcases hf : fresh p p.ms p.values.length with e | _ | s
    · simp [hf] at hD
    · rw [hf] at hD
      rcases hw : Segment.ofWidth p.values.length with e | empty <;> simp [hw] at hD
    · rw [hf] at hD
      exact ⟨s, rfl, (Except.ok.inj hD).symm⟩
  unfold openFor at h
  rcases hpin : k.pinned with _ | ⟨b, w⟩
  · rw [hpin] at h
    obtain ⟨s, hf, rfl⟩ := atOwn h
    exact ⟨p.ms, _, s, hf, .inl rfl, rfl⟩
  · rw [hpin] at h
    simp only at h
    rcases hf : fresh p b (Nat.max w p.values.length) with e | _ | s
    · simp [hf] at h
    · rw [hf] at h
      obtain ⟨s, hf', rfl⟩ := atOwn h
      exact ⟨p.ms, _, s, hf', .inl rfl, rfl⟩
    · rw [hf] at h
      exact ⟨b, _, s, hf, .inr ⟨w, rfl⟩, (Except.ok.inj h).symm⟩

/-- Segments with the chunks of points they took, in order: each segment took its chunk whole,
and sits at its chunk's first timestamp, but the first may sit at the pinned baseline. -/
inductive Packed (pin : Option Int) : List (Int × Segment) → List (List Point) → Prop
  | nil : Packed pin [] []
  | snoc {segs : List (Int × Segment)} {chunks : List (List Point)} {b : Int} {s : Segment}
      {p : Point} {c : List Point} :
      Packed pin segs chunks → s.Built ((p :: c).map (Point.entryAt s.width b)) →
      (∀ x ∈ p :: c, x.values.length ≤ s.width) → (b = p.ms ∨ segs = [] ∧ pin = some b) →
      Packed pin (segs ++ [(b, s)]) (chunks ++ [p :: c])

/-- What packing has done after some points: the segments done, and the current one with the
chunk it has taken so far; a pin is left only while no segment is open. -/
def Progress (pin : Option Int) (q : List Point) (k : Packing) : Prop :=
  ∃ chunks, Packed pin k.done chunks ∧
    match k.current with
    | none => q = chunks.flatten ∧ k.done = [] ∧ k.pinned.map Prod.fst = pin
    | some (b, s) => ∃ p c, q = chunks.flatten ++ p :: c ∧
        s.Built ((p :: c).map (Point.entryAt s.width b)) ∧
        (∀ x ∈ p :: c, x.values.length ≤ s.width) ∧
        (b = p.ms ∨ k.done = [] ∧ pin = some b) ∧ k.pinned = none

/-- The step lemma of packing. -/
theorem Progress.add {pin : Option Int} {q : List Point} {k k' : Packing} (hk : Progress pin q k)
    {p : Point} (h : k.add p = .ok k') : Progress pin (q ++ [p]) k' := by
  obtain ⟨chunks, hpacked, hcur⟩ := hk
  -- a segment opened for `p`, the current one moved to those done
  have opened : k.openFor p = .ok k' → Progress pin (q ++ [p]) k' := by
    intro ho
    obtain ⟨b, w, s, hf, hb, rfl⟩ := openFor_eq_ok ho
    obtain ⟨hbuilt, hw, hlen⟩ := fresh_eq_ok_some hf
    rcases hc : k.current with _ | ⟨b₀, s₀⟩
    · rw [hc] at hcur
      obtain ⟨rfl, hdone, hpin⟩ := hcur
      refine ⟨chunks, by simpa [hdone] using hpacked, p, [], by simp, ?_, ?_, ?_, rfl⟩
      · simpa [hw] using hbuilt
      · simpa [hw] using hlen
      · rcases hb with rfl | ⟨w₀, hw₀⟩
        · exact .inl rfl
        · exact .inr ⟨by simp [hdone], by rw [← hpin, hw₀]; rfl⟩
    · rw [hc] at hcur
      obtain ⟨p₀, c, rfl, hb₀, hlen₀, hbase₀, hpin₀⟩ := hcur
      refine ⟨chunks ++ [p₀ :: c], .snoc hpacked hb₀ hlen₀ hbase₀, p, [], by simp, ?_, ?_, ?_, rfl⟩
      · simpa [hw] using hbuilt
      · simpa [hw] using hlen
      · rcases hb with rfl | ⟨w₀, hw₀⟩
        · exact .inl rfl
        · rw [hpin₀] at hw₀
          cases hw₀
  rw [add_eq] at h
  rcases hc : k.current with _ | ⟨b, s⟩
  · rw [hc] at h
    exact opened h
  · rw [hc] at h hcur
    simp only at h
    rcases happ : p.appendTo s b with f | _ | s'
    · simp [happ] at h
    · rw [happ] at h
      exact opened h
    · rw [happ] at h
      obtain ⟨p₀, c, rfl, hb₀, hlen₀, hbase₀, hpin₀⟩ := hcur
      obtain ⟨hb', hw', hlen⟩ := Point.built_appendTo hb₀ happ
      cases Except.ok.inj h
      refine ⟨chunks, hpacked, p₀, c ++ [p], by simp, ?_, ?_, hbase₀, hpin₀⟩
      · rw [hw']
        simpa using hb'
      · intro x hx
        rw [hw']
        simp only [List.mem_cons, List.mem_append, List.not_mem_nil, or_false] at hx
        rcases hx with rfl | hx | rfl
        · exact hlen₀ _ List.mem_cons_self
        · exact hlen₀ x (List.mem_cons_of_mem _ hx)
        · exact hlen

/-- The run lemma of packing: the segments built take the points, in chunks, in order. -/
theorem build_eq_ok {ps : List Point} {pinned : Option (Int × Nat)} {segs : List (Int × Segment)}
    (h : Point.build ps pinned = .ok segs) :
    ∃ chunks, ps = chunks.flatten ∧ Packed (pinned.map Prod.fst) segs chunks := by
  unfold Point.build at h
  obtain ⟨k, hk, hsegs⟩ := Except.bind_eq_ok.mp h
  cases Except.ok.inj hsegs
  -- packing keeps its progress over every prefix of the points
  have run : ∀ (qs q : List Point) (k₀ : Packing), Progress (pinned.map Prod.fst) q k₀ →
      qs.foldlM Packing.add k₀ = .ok k → Progress (pinned.map Prod.fst) (q ++ qs) k := by
    intro qs
    induction qs with
    | nil =>
      intro q k₀ hk₀ hrun
      cases Except.ok.inj hrun
      simpa using hk₀
    | cons x xs ih =>
      intro q k₀ hk₀ hrun
      obtain ⟨k₁, h₁, hrest⟩ := Except.bind_eq_ok.mp hrun
      simpa using ih (q ++ [x]) k₁ (hk₀.add h₁) hrest
  obtain ⟨chunks, hpacked, hcur⟩ := run ps [] { pinned } ⟨[], .nil, rfl, rfl, rfl⟩ hk
  rcases hc : k.current with _ | ⟨b, s⟩
  · rw [hc] at hcur
    obtain ⟨hps, hdone, -⟩ := hcur
    exact ⟨chunks, by simpa using hps, by simpa [hc, hdone] using hpacked⟩
  · rw [hc] at hcur
    obtain ⟨p, c, hps, hb, hlen, hbase, -⟩ := hcur
    exact ⟨chunks ++ [p :: c], by simpa using hps, by simpa [hc] using hpacked.snoc hb hlen hbase⟩

end Packing

end SeriesStore
