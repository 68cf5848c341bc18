import Mathlib
import SeriesStore.Proofs.SegmentCapacity
import SeriesStore.Proofs.Store.SegmentBuild

/-!
# Samples that fit alone

`fitsAlone values tag` asks whether a fresh segment of the sample's own width takes the sample
at offset zero. The store refuses a sample that does not, on the ground that such a sample can
never be stored.

In a fresh segment the record of a sample costs the least a record can cost (`fitsAlone_iff`):
one bit of timestamp, the status bit, the tag, and each value written against an empty window
(`aloneBits`), with no padding and the fixed size of the narrowest width that holds the values.
In any other segment every part of the record costs at least as much, except the values: a
column whose window already holds a value close to the new one writes it in fewer bits than an
empty window does. So a sample that a segment built by appends takes fits alone, provided it has
values and no column of the segment prices its value below an empty window (`NoDiscount`,
`fitsAlone_of_stored`).

Neither proviso can go. A sample with no values is padded with NaN into any segment with room
(`built_drained`), while no segment has width zero. And after thirty-two values `-0`, copies of
the smallest negative subnormal cost fifteen bits each against the windows `-0` left,
seventy-eight against empty ones: a segment of width 32 takes thirty-one of them and a `-0`, yet
that sample does not fit alone (`stored_without_fitting_alone`).
-/

namespace SeriesStore

namespace Segment

/-! ## The record of a sample alone -/

/-- Bits the record of a sample takes in a fresh segment of its own width, at offset zero: a
zero delta of deltas, the status bit, the tag, and each value against an empty window. -/
def aloneBits (values : List Double) (tag : Option (List UInt8)) : Nat :=
  timestampBits 0 + 1 + tagBits tag + (values.map fun v => ({} : Window).encodedBits v.bits).sum

/-- No column of the segment writes the sample's value in fewer bits than an empty window. -/
def NoDiscount (s : Segment) (values : List Double) : Prop :=
  ∀ i (_ : i < values.length),
    ({} : Window).encodedBits values[i].bits ≤ (s.windows.getD i {}).encodedBits values[i].bits

instance (s : Segment) (values : List Double) : Decidable (s.NoDiscount values) :=
  inferInstanceAs (Decidable (∀ i (_ : i < values.length), _))

/-- What a record costs, its column records read through projections. -/
theorem neededBits_eq (s : Segment) (offset : Int) (bits : List UInt64)
    (tag : Option (List UInt8)) :
    s.neededBits offset bits tag = timestampBits (offset - s.lastOffset - s.lastDelta) + 1 +
      tagBits tag + ((s.windows.zip bits).map fun x => x.1.encodedBits x.2).sum := rfl

/-- Padding a sample lays its values down, then NaN up to the width. -/
theorem pad_eq_append {w : Nat} {values : List Double} (h : values.length ≤ w) :
    pad w values = values.map Double.bits ++ List.replicate (w - values.length) Double.nan.bits := by
  have hpad : pad w values = (padded w values).map Double.bits := by
    simp [pad, padded]
  rw [hpad, padded_eq_append h, List.map_append, List.map_replicate]

/-- Empty windows write a sample's values at the sum of their costs against an empty window. -/
theorem sum_encodedBits_empty (values : List Double) :
    (((List.replicate values.length ({} : Window)).zip (values.map Double.bits)).map
      fun x => x.1.encodedBits x.2).sum =
      (values.map fun v => ({} : Window).encodedBits v.bits).sum := by
  induction values with
  | nil => rfl
  | cons v vs ih => simp [List.replicate_succ, ih]

/-- Windows that charge each value at least what the first windows charge it write the values
in at least as many bits, and the columns past the values only add. -/
theorem sum_encodedBits_le {ws₀ ws : List Window} {bs : List UInt64} (rest : List UInt64)
    (hlen₀ : ws₀.length = bs.length) (hlen : bs.length ≤ ws.length)
    (hcost : ∀ i (h : i < bs.length),
      (ws₀.getD i {}).encodedBits bs[i] ≤ (ws.getD i {}).encodedBits bs[i]) :
    ((ws₀.zip bs).map fun x => x.1.encodedBits x.2).sum ≤
      ((ws.zip (bs ++ rest)).map fun x => x.1.encodedBits x.2).sum := by
  induction bs generalizing ws₀ ws with
  | nil => simp
  | cons b bs ih =>
    obtain ⟨w₀, ws₀, rfl⟩ := List.exists_cons_of_length_eq_add_one hlen₀
    obtain ⟨w, ws, rfl⟩ := List.exists_cons_of_ne_nil (List.ne_nil_of_length_pos
      (Nat.lt_of_lt_of_le (Nat.succ_pos bs.length) hlen))
    have hhead : w₀.encodedBits b ≤ w.encodedBits b := by
      have h0 := hcost 0 (by simp)
      rw [List.getD_cons_zero, List.getD_cons_zero, List.getElem_cons_zero] at h0
      exact h0
    have htail := ih (by simpa using hlen₀) (by simpa using hlen) fun i h => by
      have hi := hcost (i + 1) (by simpa using h)
      rw [List.getD_cons_succ, List.getD_cons_succ, List.getElem_cons_succ] at hi
      exact hi
    simp only [List.zip_cons_cons, List.map_cons, List.sum_cons, List.cons_append]
    omega

/-- Against windows that grant no discount, a sample's record costs at least its record alone:
a timestamp takes at least its one bit, and the columns past the values only add. -/
theorem aloneBits_le_neededBits {s : Segment} {values : List Double}
    (hw : s.windows.length = s.width) (hlen : values.length ≤ s.width) (hd : s.NoDiscount values)
    (offset : Int) (tag : Option (List UInt8)) :
    aloneBits values tag ≤ s.neededBits offset (pad s.width values) tag := by
  have htime : timestampBits 0 ≤ timestampBits (offset - s.lastOffset - s.lastDelta) :=
    one_le_timestampBits _
  have hcols : (values.map fun v => ({} : Window).encodedBits v.bits).sum ≤
      ((s.windows.zip (pad s.width values)).map fun x => x.1.encodedBits x.2).sum := by
    rw [pad_eq_append hlen, ← sum_encodedBits_empty]
    refine sum_encodedBits_le _ (by simp) (by simpa [hw] using hlen) fun i h => ?_
    simpa using hd i (by simpa using h)
  rw [neededBits_eq]
  unfold aloneBits
  omega

/-- A fresh segment: of a width in range, with nothing in it yet. -/
theorem ofWidth_eq_ok_iff {w : Nat} {s : Segment} :
    ofWidth w = .ok s ↔ 0 < w ∧ w ≤ maxWidth ∧
      s = { width := w, entries := 0, live := 0, lastOffset := 0, lastDelta := 0,
            columns := List.replicate w {}, windows := List.replicate w {},
            payload := BitRun.empty } := by
  unfold ofWidth
  split
  · next hw =>
    simp only [reduceCtorEq, false_iff]
    omega
  · next hw =>
    simp only [Except.ok.injEq]
    constructor
    · rintro rfl
      exact ⟨by omega, by omega, rfl⟩
    · rintro ⟨-, -, rfl⟩
      rfl

/-- A sample fits alone exactly when it has values, no more than a segment holds, a tag of a
length a segment takes, and its record alone keeps a segment of its width within `maxSize`. -/
theorem fitsAlone_iff {values : List Double} {tag : Option (List UInt8)} :
    fitsAlone values tag = true ↔ values ≠ [] ∧ values.length ≤ maxWidth ∧
      (tag.all fun t => t.length ≤ maxTagLength) = true ∧
      headerSize + values.length * columnSize + (aloneBits values tag + 7) / 8 ≤ maxSize := by
  by_cases hw : values.length = 0 ∨ values.length > maxWidth
  · -- no segment has the sample's width
    have hno : ¬(values ≠ [] ∧ values.length ≤ maxWidth) := by
      rw [ne_eq, ← List.length_eq_zero_iff]
      omega
    simp only [fitsAlone, ofWidth, if_pos hw, Bool.false_eq_true, false_iff]
    exact fun h => hno ⟨h.1, h.2.1⟩
  · obtain ⟨s₀, h₀⟩ : ∃ s₀, ofWidth values.length = .ok s₀ := ⟨_, by rw [ofWidth, if_neg hw]⟩
    -- the fresh segment takes the sample exactly when it fits
    have htakes : fitsAlone values tag = true ↔ s₀.Fits ⟨0, values, tag, .live⟩ := by
      unfold fitsAlone
      rw [h₀]
      dsimp only
      rw [(sound_ofWidth h₀).append_eq ⟨0, values, tag, .live⟩]
      by_cases hf : s₀.Fits ⟨0, values, tag, .live⟩ <;> simp [hf]
    obtain ⟨-, -, hs₀⟩ := ofWidth_eq_ok_iff.mp h₀
    have hbits : s₀.neededBits 0 (pad values.length values) tag = aloneBits values tag := by
      subst hs₀
      rw [neededBits_eq, pad_eq_append (Nat.le_refl _), Nat.sub_self, List.replicate_zero,
        List.append_nil]
      simp only [sum_encodedBits_empty, aloneBits, Int.sub_self]
    rw [htakes, Fits]
    dsimp only
    rw [width_ofWidth h₀, hbits]
    subst hs₀
    have hempty : BitRun.empty.length = 0 := rfl
    have hlimit : (0 : Int) < offsetLimit := by decide
    simp only [admits, hempty, Nat.le_refl, decide_true, Bool.true_and, Int.le_refl, hlimit,
      beq_self_eq_true, Bool.true_or, Bool.and_true, Nat.zero_add]
    have hwidth : values ≠ [] ∧ values.length ≤ maxWidth := by
      rw [ne_eq, ← List.length_eq_zero_iff]
      omega
    exact ⟨fun h => ⟨hwidth.1, hwidth.2, h⟩, fun h => h.2.2⟩

/-! ## Stored samples -/

/-- A sample that a segment built by appends takes fits alone, provided it has values and no
column of the segment writes its value in fewer bits than an empty window: the fresh segment of
the sample's width takes it too. -/
theorem fitsAlone_of_stored {s s' : Segment} {es : List Entry} (hs : s.Built es)
    {offset : Int} {values : List Double} {tag : Option (List UInt8)} {status : Status}
    (hne : values ≠ []) (hd : s.NoDiscount values)
    (happ : s.append offset values tag status = .ok (some s')) :
    fitsAlone values tag = true := by
  have hsound := hs.sound
  obtain ⟨hadm, hsize, -, -⟩ := append_eq_ok_some_iff.mp happ
  simp only [admits, Bool.and_eq_true, decide_eq_true_eq] at hadm
  obtain ⟨⟨⟨⟨hlen, -⟩, -⟩, htag⟩, -⟩ := hadm
  have hcost := aloneBits_le_neededBits hsound.windows_length hlen hd offset tag
  refine fitsAlone_iff.mpr ⟨hne, hlen.trans hsound.width_le, htag, ?_⟩
  calc headerSize + values.length * columnSize + (aloneBits values tag + 7) / 8
      ≤ headerSize + s.width * columnSize +
          (s.payload.length + s.neededBits offset (pad s.width values) tag + 7) / 8 := by
        gcongr
        omega
    _ ≤ maxSize := hsize

/-- A width-one segment that took `1.5` takes `-2` with a tag after it, and `-2` with that tag
fits alone. -/
theorem fitsAlone_after_one_sample :
    ∃ s₀ s₁ s₂, ofWidth 1 = .ok s₀ ∧
      s₀.append 0 [⟨0x3ff8000000000000⟩] none .live = .ok (some s₁) ∧
      s₁.NoDiscount [⟨0xc000000000000000⟩] ∧
      s₁.append 10 [⟨0xc000000000000000⟩] (some [7]) .live = .ok (some s₂) ∧
      fitsAlone [⟨0xc000000000000000⟩] (some [7]) = true := by
  have h₀ : ofWidth 1 = .ok ⟨1, 0, 0, 0, 0, [{}], [{}], {}⟩ := rfl
  have h₁ := append_eq_ok_some_iff.mpr (⟨by decide, by decide, by decide, rfl⟩ : _ ∧ _ ∧ _ ∧
    _ = Segment.grow ⟨1, 0, 0, 0, 0, [{}], [{}], {}⟩ 0 [⟨0x3ff8000000000000⟩] none .live)
  have hd : (Segment.grow ⟨1, 0, 0, 0, 0, [{}], [{}], {}⟩ 0 [⟨0x3ff8000000000000⟩] none
      .live).NoDiscount [⟨0xc000000000000000⟩] := by
    decide
  have h₂ := append_eq_ok_some_iff.mpr (⟨by decide, by decide, by decide, rfl⟩ : _ ∧ _ ∧ _ ∧
    _ = (Segment.grow ⟨1, 0, 0, 0, 0, [{}], [{}], {}⟩ 0 [⟨0x3ff8000000000000⟩] none .live).grow
      10 [⟨0xc000000000000000⟩] (some [7]) .live)
  exact ⟨_, _, _, h₀, h₁, hd, h₂,
    fitsAlone_of_stored (.append (.fresh h₀) h₁) (List.cons_ne_nil _ _) hd h₂⟩

/-- After thirty-two values `-0`, a segment of width 32 takes thirty-one copies of the smallest
negative subnormal and a `-0`, a sample that does not fit alone: against the windows `-0` left
each copy costs fifteen bits, against an empty window seventy-eight. -/
theorem stored_without_fitting_alone :
    ∃ s₀ s₁ s₂, ofWidth 32 = .ok s₀ ∧
      s₀.append 0 (List.replicate 32 ⟨0x8000000000000000⟩) none .live = .ok (some s₁) ∧
      s₁.append 1 (List.replicate 31 ⟨0x8000000000000001⟩ ++ [⟨0x8000000000000000⟩]) none
        .live = .ok (some s₂) ∧
      fitsAlone (List.replicate 31 ⟨0x8000000000000001⟩ ++ [⟨0x8000000000000000⟩]) none =
        false := by
  have h₀ : ofWidth 32 = .ok ⟨32, 0, 0, 0, 0, List.replicate 32 {}, List.replicate 32 {}, {}⟩ :=
    rfl
  have h₁ := append_eq_ok_some_iff.mpr (⟨by decide, by decide +kernel, by decide +kernel, rfl⟩ :
    _ ∧ _ ∧ _ ∧ _ = Segment.grow ⟨32, 0, 0, 0, 0, List.replicate 32 {}, List.replicate 32 {}, {}⟩
      0 (List.replicate 32 ⟨0x8000000000000000⟩) none .live)
  have h₂ := append_eq_ok_some_iff.mpr (⟨by decide +kernel, by decide +kernel, by decide +kernel,
    rfl⟩ : _ ∧ _ ∧ _ ∧ _ = (Segment.grow
      ⟨32, 0, 0, 0, 0, List.replicate 32 {}, List.replicate 32 {}, {}⟩ 0
      (List.replicate 32 ⟨0x8000000000000000⟩) none .live).grow
      1 (List.replicate 31 ⟨0x8000000000000001⟩ ++ [⟨0x8000000000000000⟩]) none .live)
  exact ⟨_, _, _, h₀, h₁, h₂, by decide +kernel⟩

end Segment

end SeriesStore
