import Mathlib
import SeriesStore.Proofs.Store.SegmentBuild

/-!
# The faults a write of samples raises

A write of samples raises a fault other than `.fault .overflow` in one place only: `writeRuns`,
when the run from its next point would be empty (`.fault .outOfBounds` when a holder with samples
reads the run's first point, `.fault .stuck` when the write would repeat the empty run forever).
Every other step of a write fails, if at all, with an overflow or an error of another kind. A
segment refuses a sample or overflows a counter, `.fault .overflow` (`Segment.append_eq_error`);
a packing refuses a width out of range or a sample too large for a segment of its own; a change
vector that does not parse is refused as such (`mergeVectors_ne_fault`); and a stored segment
that was built by appends decodes.

`Txn.Avoids e x` says that no run of `x`, from any state, fails with `e`. It goes through
`bind` and `foldlM`, and each step of a write has its rule: storing a segment
(`putSegment_avoids`), opening new segments (`writeNewSegments_avoids`), appending in order
(`appendInOrder_avoids`) and merging into a stored segment (`splitSegment_avoids`).
-/

namespace SeriesStore

/-- An error passed on from a computation that does not fail with `e` is not `e`. -/
theorem error_ne_of_eq {ε α β : Type} {x : Except ε α} {e e' : ε} (hx : x = .error e')
    (hne : x ≠ .error e) : (Except.error e' : Except ε β) ≠ .error e := by
  intro h
  cases h
  exact hne hx

/-- A bind fails with `e` only where one of its two steps does. -/
theorem bind_ne_error {ε α β : Type} {x : Except ε α} {f : α → Except ε β} {e : ε}
    (hx : x ≠ .error e) (hf : ∀ a, f a ≠ .error e) : x >>= f ≠ .error e := by
  cases x with
  | error e' =>
    rw [Except.error_bind]
    exact error_ne_of_eq rfl hx
  | ok a => exact hf a

/-- A fold that no step fails with `e` does not fail with `e`. -/
theorem foldlM_ne_error {ε α β : Type} {f : β → α → Except ε β} {e : ε} :
    ∀ {l : List α}, (∀ b, ∀ a ∈ l, f b a ≠ .error e) → ∀ init, l.foldlM f init ≠ .error e
  | [], _, init => by simp [pure, Except.pure]
  | a :: l, hf, init => by
    rw [List.foldlM_cons]
    exact bind_ne_error (hf init a List.mem_cons_self) fun b =>
      foldlM_ne_error (fun b' a' ha' => hf b' a' (List.mem_cons_of_mem a ha')) b

/-! ## Outcomes that fault only by overflow -/

namespace Segment

/-- A segment fails an append only on a counter that overflows. -/
theorem append_eq_error {s : Segment} {offset : Int} {values : List Double}
    {tag : Option (List UInt8)} {status : Status} {f : Fault}
    (h : s.append offset values tag status = .error f) : f = .overflow := by
  unfold append at h
  dsimp only at h
  split_ifs at h
  exact (Except.error.inj h).symm

/-- A width out of range is refused as an invalid argument, never as a fault. -/
theorem ofWidth_ne_fault (w : Nat) (f : Fault) : ofWidth w ≠ .error (.fault f) := by
  unfold ofWidth
  split <;> simp

end Segment

namespace Packing

variable {f : Fault}

theorem fresh_ne_fault (hf : f ≠ .overflow) (p : Point) (b : Int) (w : Nat) :
    fresh p b w ≠ .error (.fault f) := by
  unfold fresh
  refine bind_ne_error (Segment.ofWidth_ne_fault w _) fun s => ?_
  cases happ : p.appendTo s b with
  | ok r => simp [pure, Except.pure]
  | error f' =>
    simp [throw, throwThe, MonadExceptOf.throw, Segment.append_eq_error happ, Ne.symm hf]

theorem openFor_ne_fault (hf : f ≠ .overflow) (k : Packing) (p : Point) :
    k.openFor p ≠ .error (.fault f) := by
  unfold openFor
  extract_lets done atOwn
  -- at the point's own timestamp: a fresh segment, or a sample too large, or a width refused
  have hown : atOwn ≠ .error (.fault f) := by
    unfold atOwn
    split
    · simp
    · split
      · simp
      · next e he => exact error_ne_of_eq he (Segment.ofWidth_ne_fault _ _)
    · next e he => exact error_ne_of_eq he (fresh_ne_fault hf _ _ _)
  split
  · split
    · simp
    · exact hown
    · next e he => exact error_ne_of_eq he (fresh_ne_fault hf _ _ _)
  · exact hown

theorem add_ne_fault (hf : f ≠ .overflow) (k : Packing) (p : Point) :
    k.add p ≠ .error (.fault f) := by
  rw [add_eq]
  split
  · split
    · next f' hf' =>
      have := Segment.append_eq_error hf'
      simp [this, Ne.symm hf]
    · simp
    · exact openFor_ne_fault hf k p
  · exact openFor_ne_fault hf k p

end Packing

theorem Point.build_ne_fault {f : Fault} (hf : f ≠ .overflow) (ps : List Point)
    (pinned : Option (Int × Nat)) : Point.build ps pinned ≠ .error (.fault f) :=
  bind_ne_error (foldlM_ne_error (fun k p _ => Packing.add_ne_fault hf k p) _) fun _ => by
    simp [pure, Except.pure]

theorem CvEntry.parse_ne_fault (s : String) (f : Fault) : CvEntry.parse s ≠ .error (.fault f) := by
  unfold CvEntry.parse
  dsimp only
  split
  · simp
  · split
    · simp
    · split
      · simp
      · split <;> simp

theorem mergeVectors_ne_fault (a b : String) (f : Fault) : mergeVectors a b ≠ .error (.fault f) := by
  have hparse : ∀ s, ChangeVector.parse s ≠ .error (.fault f) := fun s =>
    foldlM_ne_error (fun _ p _ => bind_ne_error (CvEntry.parse_ne_fault p f) fun _ => by
      simp [pure, Except.pure]) _
  exact bind_ne_error (hparse a) fun _ => bind_ne_error (hparse b) fun _ => by
    simp [pure, Except.pure]

/-! ## Transactions that never fail with an error -/

namespace Txn

variable {α β : Type} {e : Error}

/-- No run of `x`, from any state, fails with the error `e`. -/
def Avoids (e : Error) (x : Txn α) : Prop :=
  ∀ ctx t v v', exec x ctx t v ≠ (.error e, v')

namespace Avoids

/-- A step that always succeeds fails with no error. -/
theorem of_ok {x : Txn α} (hx : ∀ ctx t v, ∃ a t' v', exec x ctx t v = (.ok (a, t'), v')) :
    Avoids e x := by
  intro ctx t v v' h
  obtain ⟨a, t', v₁, hx⟩ := hx ctx t v
  rw [hx] at h
  simp at h

theorem pure (a : α) : Avoids e (pure a) := of_ok fun ctx t v => ⟨_, _, _, exec_pure ctx t v a⟩

theorem bind {x : Txn α} {f : α → Txn β} (hx : Avoids e x) (hf : ∀ a, Avoids e (f a)) :
    Avoids e (x >>= f) := by
  intro ctx t v v' h
  rcases exec_bind_eq_error.mp h with h | ⟨a, t', v₁, -, h⟩
  · exact hx _ _ _ _ h
  · exact hf a _ _ _ _ h

theorem tables : Avoids e tables := of_ok fun ctx t v => ⟨_, _, _, exec_tables ctx t v⟩

theorem change (f : Tables → Tables) : Avoids e (change f) :=
  of_ok fun ctx t v => ⟨_, _, _, exec_change ctx t v f⟩

theorem nextEtag : Avoids e nextEtag := of_ok fun ctx t v => ⟨_, _, _, exec_nextEtag ctx t v⟩

theorem newChangeVector (etag : Int) : Avoids e (newChangeVector etag) :=
  of_ok fun ctx t v => ⟨_, _, _, exec_newChangeVector ctx t v etag⟩

theorem lift {r : Outcome α} (hr : r ≠ .error e) : Avoids e (lift r) := by
  intro ctx t v v' h
  cases r with
  | ok a => simp at h
  | error e' =>
    simp only [exec_lift_error, Prod.mk.injEq, Except.error.injEq] at h
    exact hr (h.1 ▸ rfl)

theorem liftFault {r : Except Fault α} {f : Fault} (hr : r ≠ .error f) :
    Avoids (.fault f) (liftFault r) := by
  intro ctx t v v' h
  cases r with
  | ok a => simp at h
  | error f' =>
    simp only [exec_liftFault_error, Prod.mk.injEq, Except.error.injEq, Error.fault.injEq] at h
    exact hr (congrArg Except.error h.1)

theorem foldlM {γ : Type} {f : β → γ → Txn β} :
    ∀ {l : List γ}, (∀ b, ∀ c ∈ l, Avoids e (f b c)) → ∀ init, Avoids e (l.foldlM f init)
  | [], _, init => pure init
  | c :: l, hf, init => by
    rw [List.foldlM_cons]
    exact (hf init c List.mem_cons_self).bind fun b =>
      foldlM (fun b' c' hc' => hf b' c' (List.mem_cons_of_mem c hc')) b

end Avoids

/-! ## The steps of a write -/

variable {f : Fault}

theorem putSegment_avoids (w : SeriesWrite) (key : Key) (s : Segment) (previous : Option String) :
    Avoids (.fault f) (putSegment w key s previous) := by
  unfold putSegment
  refine Avoids.nextEtag.bind fun etag => ?_
  extract_lets listing store
  have hstore : ∀ cv, Avoids (.fault f) (store cv) := by
    intro cv
    unfold store
    extract_lets row put
    have hput : ∀ u, Avoids (.fault f) (put u) := fun _ =>
      (Avoids.change _).bind fun _ => Avoids.pure _
    split
    · exact (Avoids.change _).bind hput
    · exact hput ()
  split
  · exact (Avoids.newChangeVector etag).bind hstore
  · exact (Avoids.lift (mergeVectors_ne_fault _ _ _)).bind hstore
  · exact (Avoids.pure _).bind hstore

theorem putPacked_avoids (w : SeriesWrite) (segments : List (Int × Segment))
    (previous : Option String) : Avoids (.fault f) (putPacked w segments previous) :=
  Avoids.foldlM (fun _ _ _ => putSegment_avoids _ _ _ _) w

theorem writeNewSegments_avoids (hf : f ≠ .overflow) (w : SeriesWrite) (ps : List Point) :
    Avoids (.fault f) (writeNewSegments w ps) :=
  (Avoids.lift (Point.build_ne_fault hf ps none)).bind fun segs => putPacked_avoids w segs none

theorem appendWhileFits_ne_fault (hf : f ≠ .overflow) (s : Segment) (baseline : Int) :
    ∀ ps : List Point, appendWhileFits s baseline ps ≠ .error f
  | [] => by simp [appendWhileFits]
  | p :: ps => by
    unfold appendWhileFits
    refine bind_ne_error (fun h => hf (Segment.append_eq_error h)) fun r => ?_
    cases r with
    | none => simp [pure, Except.pure]
    | some s' =>
      exact bind_ne_error (appendWhileFits_ne_fault hf s' baseline ps) fun _ => by
        simp [pure, Except.pure]

theorem appendInOrder_avoids (hf : f ≠ .overflow) (w : SeriesWrite) (key : Key) (row : SegmentRow)
    (baseline : Int) (run : List Point) :
    Avoids (.fault f) (appendInOrder w key row baseline run) := by
  unfold appendInOrder
  refine (Avoids.liftFault (appendWhileFits_ne_fault hf _ _ _)).bind fun r => ?_
  dsimp -zeta only
  extract_lets rest
  have hrest : ∀ w₁, Avoids (.fault f) (rest w₁) := by
    intro w₁
    unfold rest
    split
    · exact writeNewSegments_avoids hf _ _
    · exact Avoids.pure _
  split
  · exact (putSegment_avoids _ _ _ _).bind hrest
  · exact (Avoids.pure _).bind hrest

/-- Merging a run into a stored segment never faults but by overflow when the segment decodes
without such a fault, as a segment built by appends does. -/
theorem splitSegment_avoids (hf : f ≠ .overflow) (w : SeriesWrite) (key : Key) (row : SegmentRow)
    (baseline : Int) (run : List Point) (hrow : row.segment.samples ≠ .error (.fault f)) :
    Avoids (.fault f) (splitSegment w key row baseline run) := by
  unfold splitSegment
  refine (Avoids.lift hrow).bind fun stored => ?_
  extract_lets merged
  exact (Avoids.lift (Point.build_ne_fault hf _ _)).bind fun packed =>
    (Avoids.change _).bind fun _ => putPacked_avoids _ _ _

end Txn

end SeriesStore
