import SeriesStore.Proofs.SegmentCodec

/-!
# A segment holds the samples appended to it

`Segment.Sound s es` says that segment `s` holds the samples `es`, as a reader meets them: its
payload reads back as `es` from fresh windows, its counters count them and its column summaries
are the folds of `ColumnSummary.observe` over the live ones. A fresh segment holds nothing, and
every append that takes a sample adds it at the end (`Sound.append`), so

    Sound s es → s.decode = { entries := es, stop := none }              (Sound.decode)

A sample is stored with its values padded with NaN to the segment's width (`padded`).

`append_eq_ok_some_iff` is the one statement of what `append` does; later proofs cite it and
never unfold `append`.
-/

namespace SeriesStore

open BitRun

namespace Segment

/-! ## One append -/

/-- The payload and windows after the record of one more sample. -/
def recordRun (s : Segment) (offset : Int) (values : List Double) (tag : Option (List UInt8))
    (status : Status) : BitRun × List Window :=
  writeValues s.windows
    (writeTag ((writeTimestamp s.payload (offset - s.lastOffset - s.lastDelta)).pushBit
      (status == .dead)) tag) (pad s.width values)

/-- The segment after taking one more sample. -/
def grow (s : Segment) (offset : Int) (values : List Double) (tag : Option (List UInt8))
    (status : Status) : Segment :=
  { s with
    lastOffset := offset, lastDelta := offset - s.lastOffset, entries := s.entries + 1,
    live := if status = .live then s.live + 1 else s.live,
    columns := if status = .live then
        (s.columns.zip (pad s.width values)).map fun (c, b) => c.observe ⟨b⟩
      else s.columns,
    windows := (s.recordRun offset values tag status).2,
    payload := (s.recordRun offset values tag status).1 }

/-- What `append` does: it takes a sample exactly when the sample is admitted, its record fits
and no counter overflows, and then the segment grows by the sample. -/
theorem append_eq_ok_some_iff {s s' : Segment} {offset : Int} {values : List Double}
    {tag : Option (List UInt8)} {status : Status} :
    s.append offset values tag status = .ok (some s') ↔
      s.admits offset values tag = true ∧
      headerSize + s.width * columnSize +
        (s.payload.length + s.neededBits offset (pad s.width values) tag + 7) / 8 ≤ maxSize ∧
      s.countersOverflow (pad s.width values) status = false ∧
      s' = s.grow offset values tag status := by
  unfold append
  by_cases ha : s.admits offset values tag = true
  · simp only [ha, Bool.not_true, Bool.false_eq_true, if_false, true_and]
    by_cases hf : headerSize + s.width * columnSize +
        (s.payload.length + s.neededBits offset (pad s.width values) tag + 7) / 8 > maxSize
    · simp only [hf, if_true]
      constructor
      · intro h
        cases h
      · intro h
        exact absurd h.1 (by omega)
    · simp only [hf, if_false]
      have hf' : headerSize + s.width * columnSize +
          (s.payload.length + s.neededBits offset (pad s.width values) tag + 7) / 8 ≤ maxSize := by
        omega
      simp only [hf', true_and]
      cases hc : s.countersOverflow (pad s.width values) status
      · simp only [Bool.false_eq_true, if_false, true_and]
        constructor
        · intro h
          cases h
          cases status <;> rfl
        · rintro rfl
          cases status <;> rfl
      · simp
  · simp [ha]

/-! ## Reading a payload sample by sample -/

/-- The decoder's state before the first sample of a segment of width `w`. -/
def freshState (w : Nat) : DecodeState := { windows := List.replicate w {} }

/-- The decoder's state after the last sample, as the segment keeps it. -/
def readState (s : Segment) : DecodeState :=
  { windows := s.windows, lastOffset := s.lastOffset, lastDelta := s.lastDelta }

/-- Reading the samples `es` from position `p` in state `st` of run `R` ends in state `st'` at
position `p'`. -/
inductive Reads (R : BitRun) : DecodeState → Nat → List Entry → DecodeState → Nat → Prop
  | nil (st : DecodeState) (p : Nat) : Reads R st p [] st p
  | cons {st st₁ st' : DecodeState} {p p₁ p' : Nat} {e : Entry} {es : List Entry} :
      (st.next R).run p = .ok ((e, st₁), p₁) → Reads R st₁ p₁ es st' p' →
      Reads R st p (e :: es) st' p'

theorem Reads.snoc {R : BitRun} {st st' st'' : DecodeState} {p p' p'' : Nat} {es : List Entry}
    {e : Entry} (h : Reads R st p es st' p') (hnext : (st'.next R).run p' = .ok ((e, st''), p'')) :
    Reads R st p (es ++ [e]) st'' p'' := by
  induction h with
  | nil st p => exact .cons hnext (.nil _ _)
  | cons hstep _ ih => exact .cons hstep (ih hnext)

/-- Samples read in a run are what `decodeRun` lists, whatever it reads after them. -/
theorem decodeRun_of_reads {R : BitRun} {st st' : DecodeState} {p p' : Nat} {es : List Entry}
    (h : Reads R st p es st' p') (k : Nat) :
    decodeRun R (es.length + k) st p =
      (es ++ (decodeRun R k st' p').1, (decodeRun R k st' p').2) := by
  induction h with
  | nil st p => simp
  | @cons st st₁ st' p p₁ p' e es hstep _ ih =>
    rw [List.length_cons, show es.length + 1 + k = (es.length + k) + 1 by omega, decodeRun, hstep]
    simp only [ih, List.cons_append]

/-! ## The values a segment stores -/

/-- The values of a sample as a segment of width `w` stores them: padded with NaN. -/
def padded (w : Nat) (values : List Double) : List Double :=
  (List.range w).map fun i => values[i]?.getD Double.nan

theorem map_mk_pad (w : Nat) (values : List Double) :
    (pad w values).map Double.mk = padded w values := by
  simp [pad, padded]

@[simp] theorem length_pad (w : Nat) (values : List Double) : (pad w values).length = w := by
  simp [pad]

@[simp] theorem length_padded (w : Nat) (values : List Double) :
    (padded w values).length = w := by
  simp [padded]

/-- Padding is appending NaN up to the width. -/
theorem padded_eq_append {w : Nat} {values : List Double} (h : values.length ≤ w) :
    padded w values = values ++ List.replicate (w - values.length) Double.nan := by
  apply List.ext_getElem
  · simp
    omega
  · intro i h1 h2
    simp only [padded, List.getElem_map, List.getElem_range]
    by_cases hi : i < values.length
    · rw [List.getElem_append_left hi, List.getElem?_eq_getElem hi, Option.getD_some]
    · rw [List.getElem_append_right (by omega), List.getElem_replicate,
        List.getElem?_eq_none (by omega), Option.getD_none]

/-- The summary of column `i` over the live samples. -/
def columnOf (es : List Entry) (i : Nat) : ColumnSummary :=
  (es.filter Entry.isLive).foldl (fun c e => c.observe (e.values.getD i Double.nan)) {}

/-- The record of one more sample reads back as that sample, its values padded, and the
decoder's state after it is the one the grown segment keeps. -/
theorem next_recordRun {R : BitRun} (hR : R.Covers) {s : Segment} (hclean : s.payload.Clean)
    (hvalid : ∀ w ∈ s.windows, w.Valid) (hwlen : s.windows.length = s.width) {offset : Int}
    {values : List Double} {tag : Option (List UInt8)} {status : Status}
    (hdod : -2 ^ 31 ≤ offset - s.lastOffset - s.lastDelta ∧
      offset - s.lastOffset - s.lastDelta < 2 ^ 31)
    (htag : tag.all fun t => t.length ≤ maxTagLength)
    (h : (s.recordRun offset values tag status).1.toBits <+: R.toBits) :
    (s.readState.next R).run s.payload.length =
      .ok ((⟨offset, padded s.width values, tag, status⟩, (s.grow offset values tag status).readState),
        (s.recordRun offset values tag status).1.length) := by
  have h1 := clean_writeTimestamp hclean (offset - s.lastOffset - s.lastDelta)
  have h2 := clean_pushBit h1 (status == .dead)
  have h3 := clean_writeTag h2 tag
  have p3 := (prefix_writeValues s.windows h3 (pad s.width values)).trans h
  have p2 := (prefix_writeTag h2 tag).trans p3
  have p1 := (prefix_pushBit h1 _).trans p2
  have ht := Decoder.tag_of_prefix hR h2 htag p3
  rw [length_pushBit] at ht
  have hv := Decoder.values_of_prefix hR s.windows h3 hvalid (pad s.width values)
    (by rw [hwlen, length_pad]) h
  rw [toBits_pushBit h1] at p2
  unfold DecodeState.next
  rw [Decoder.run_bind_of_ok (Decoder.timestamp_of_prefix hR hclean hdod p1),
    Decoder.run_bind_of_ok (Decoder.bit_at hR (length_toBits _) p2), Decoder.run_bind_of_ok ht]
  simp only [readState]
  rw [Decoder.run_bind_of_ok hv, map_mk_pad]
  have hstatus : (if (status == Status.dead) = true then Status.dead else Status.live) = status := by
    cases status <;> rfl
  have hoff : s.lastOffset + (s.lastDelta + (offset - s.lastOffset - s.lastDelta)) = offset := by
    omega
  simp only [hstatus, hoff, grow, Decoder.run_pure, recordRun]
  congr 4
  omega

/-! ## Sizes -/

theorem length_recordRun (s : Segment) (offset : Int) (values : List Double)
    (tag : Option (List UInt8)) (status : Status) :
    (s.recordRun offset values tag status).1.length =
      s.payload.length + s.neededBits offset (pad s.width values) tag := by
  simp only [recordRun, neededBits, length_writeValues, length_writeTag, length_pushBit,
    length_writeTimestamp]
  omega

theorem one_le_encodedBits (w : Window) (bits : UInt64) : 1 ≤ w.encodedBits bits := by
  simp only [Window.encodedBits]
  split
  · exact Nat.le_refl _
  · split <;> omega

theorem one_le_timestampBits (dod : Int) : 1 ≤ timestampBits dod := by
  unfold timestampBits
  repeat' split
  all_goals omega

/-- A record takes at least a bit for its timestamp, its status and its tag, and one per
value. -/
theorem neededBits_ge (s : Segment) (offset : Int) (values : List Double)
    (tag : Option (List UInt8)) (hw : s.windows.length = s.width) :
    3 + s.width ≤ s.neededBits offset (pad s.width values) tag := by
  have h1 := one_le_timestampBits (offset - s.lastOffset - s.lastDelta)
  have h2 : 1 ≤ tagBits tag := by
    cases tag with
    | none => exact Nat.le_refl _
    | some t =>
      simp only [tagBits]
      omega
  have h3 := List.length_le_sum_of_one_le
    ((s.windows.zip (pad s.width values)).map fun x => x.1.encodedBits x.2) (by
      intro i hi
      obtain ⟨⟨w, b⟩, _, rfl⟩ := List.mem_map.mp hi
      exact one_le_encodedBits w b)
  simp only [List.length_map, List.length_zip, hw, length_pad, Nat.min_self] at h3
  -- the sum of `neededBits` is this one, its pairs taken apart by projections
  have hsum : 3 + s.width ≤ timestampBits (offset - s.lastOffset - s.lastDelta) + 1 +
      tagBits tag + ((s.windows.zip (pad s.width values)).map fun x => x.1.encodedBits x.2).sum := by
    omega
  exact hsum

/-! ## The invariant -/

/-- Segment `s` holds the samples `es`: its payload reads back as them from fresh windows, its
counters and column summaries are theirs, and its bookkeeping stays in the ranges that let the
next sample be written and read back. -/
structure Sound (s : Segment) (es : List Entry) : Prop where
  width_pos : 0 < s.width
  width_le : s.width ≤ maxWidth
  clean : s.payload.Clean
  windows_valid : ∀ w ∈ s.windows, w.Valid
  windows_length : s.windows.length = s.width
  reads : ∀ R : BitRun, R.Covers → s.payload.toBits <+: R.toBits →
    Reads R (freshState s.width) 0 es s.readState s.payload.length
  entries_eq : s.entries = es.length
  live_eq : s.live = (es.filter Entry.isLive).length
  columns_eq : s.columns = (List.range s.width).map (columnOf es)
  lastOffset_eq : s.lastOffset = (es.getLast?.map Entry.offset).getD 0
  lastOffset_lt : s.lastOffset < offsetLimit
  lastDelta_nonneg : 0 ≤ s.lastDelta
  lastDelta_le : s.lastDelta ≤ s.lastOffset
  offsets : es.Pairwise fun a b => a.offset ≤ b.offset
  offset_nonneg : ∀ e ∈ es, 0 ≤ e.offset
  values_eq : ∀ e ∈ es, e.values.length = s.width
  tags : ∀ e ∈ es, e.tag.all fun t => t.length ≤ maxTagLength
  size_le : headerSize + s.width * columnSize + (s.payload.length + 7) / 8 ≤ maxSize
  entries_le : 4 * s.entries ≤ s.payload.length
  counts_le : ∀ c ∈ s.columns, c.count ≤ s.live

theorem Sound.offset_le_last {s : Segment} {es : List Entry} (h : s.Sound es) :
    ∀ e ∈ es, e.offset ≤ s.lastOffset := by
  intro e he
  rw [h.lastOffset_eq]
  obtain ⟨init, last, rfl⟩ := (List.eq_nil_or_concat es).resolve_left (List.ne_nil_of_mem he)
  rw [List.concat_eq_append] at he h ⊢
  simp only [List.getLast?_append, List.getLast?_singleton, Option.some_or, Option.map_some,
    Option.getD_some]
  rcases List.mem_append.mp he with he | he
  · exact (List.pairwise_append.mp h.offsets).2.2 e he last (List.mem_singleton_self _)
  · obtain rfl := List.mem_singleton.mp he
    exact Int.le_refl _

/-- A fresh segment holds nothing. -/
theorem sound_ofWidth {w : Nat} {s : Segment} (h : ofWidth w = .ok s) : s.Sound [] := by
  unfold ofWidth at h
  split at h
  · cases h
  · next hw =>
    cases h
    exact {
      width_pos := by dsimp only; omega
      width_le := by dsimp only; omega
      clean := clean_empty
      windows_valid := fun w hw => by
        rw [List.eq_of_mem_replicate hw]
        exact Or.inl ⟨rfl, rfl⟩
      windows_length := by simp
      reads := fun R _ _ => .nil _ _
      entries_eq := rfl
      live_eq := rfl
      columns_eq := by
        apply List.ext_getElem
        · simp
        · intro i _ _
          simp [columnOf]
      lastOffset_eq := rfl
      lastOffset_lt := by dsimp only; unfold offsetLimit; omega
      lastDelta_nonneg := by dsimp only; omega
      lastDelta_le := by dsimp only; omega
      offsets := List.Pairwise.nil
      offset_nonneg := by simp
      values_eq := by simp
      tags := by simp
      size_le := by
        dsimp only
        unfold maxSize headerSize columnSize maxWidth at *
        simp only [empty]
        omega
      entries_le := by simp [empty]
      counts_le := fun c hc => by
        obtain rfl := List.eq_of_mem_replicate hc
        exact Nat.le_refl _ }

/-- The column summaries after one more live sample are those of the samples with it. -/
theorem columns_grow {w : Nat} {es : List Entry} {e : Entry} (he : e.isLive = true)
    (values : List Double) (hv : e.values = padded w values) :
    ((((List.range w).map (columnOf es)).zip (pad w values)).map fun (c, b) => c.observe ⟨b⟩) =
      (List.range w).map (columnOf (es ++ [e])) := by
  apply List.ext_getElem
  · simp
  · intro i h1 h2
    simp only [List.length_map, List.length_range] at h2
    simp only [List.getElem_map, List.getElem_zip, List.getElem_range, columnOf,
      List.filter_append, List.filter_cons, he, if_true, List.filter_nil, List.foldl_append,
      List.foldl_cons, List.foldl_nil, hv, padded, pad]
    congr 1
    simp [List.getD_eq_getElem?_getD, h2]

theorem count_observe_le (c : ColumnSummary) (v : Double) : (c.observe v).count ≤ c.count + 1 := by
  unfold ColumnSummary.observe
  split
  · omega
  · split <;> exact Nat.le_refl _

/-- The payload before a record is a prefix of the payload after it. -/
theorem prefix_recordRun {s : Segment} (hs : s.payload.Clean) (offset : Int)
    (values : List Double) (tag : Option (List UInt8)) (status : Status) :
    s.payload.toBits <+: (s.recordRun offset values tag status).1.toBits := by
  have h1 := clean_writeTimestamp hs (offset - s.lastOffset - s.lastDelta)
  have h2 := clean_pushBit h1 (status == .dead)
  exact (prefix_writeTimestamp hs _).trans ((prefix_pushBit h1 _).trans
    ((prefix_writeTag h2 tag).trans (prefix_writeValues _ (clean_writeTag h2 tag) _)))

/-- Every sample a sound segment takes is added at its end. -/
theorem Sound.append {s s' : Segment} {es : List Entry} (h : s.Sound es) {offset : Int}
    {values : List Double} {tag : Option (List UInt8)} {status : Status}
    (happ : s.append offset values tag status = .ok (some s')) :
    s'.Sound (es ++ [⟨offset, padded s.width values, tag, status⟩]) := by
  obtain ⟨hadm, hfit, -, rfl⟩ := append_eq_ok_some_iff.mp happ
  simp only [admits, Bool.and_eq_true, decide_eq_true_eq, Bool.or_eq_true, beq_iff_eq] at hadm
  obtain ⟨⟨⟨⟨-, hnn⟩, hlt⟩, htag⟩, hord⟩ := hadm
  have hlo : s.lastOffset ≤ offset := by
    rcases hord with h0 | h0
    · have : es = [] := List.length_eq_zero_iff.mp (h.entries_eq ▸ h0)
      rw [h.lastOffset_eq, this]
      exact hnn
    · exact h0
  have hrec := length_recordRun s offset values tag status
  have hneed := neededBits_ge s offset values tag h.windows_length
  have hd0 := h.lastDelta_nonneg
  have hd1 := h.lastDelta_le
  have hlim : offsetLimit = 2147483647 := rfl
  have hdod : -2 ^ 31 ≤ offset - s.lastOffset - s.lastDelta ∧
      offset - s.lastOffset - s.lastDelta < 2 ^ 31 := by
    have := h.lastOffset_lt
    omega
  have hclean1 := clean_writeTimestamp h.clean (offset - s.lastOffset - s.lastDelta)
  have hclean2 := clean_writeTag (clean_pushBit hclean1 (status == .dead)) tag
  exact {
    width_pos := h.width_pos
    width_le := h.width_le
    clean := clean_writeValues _ hclean2 _
    windows_valid := valid_writeValues h.windows_valid _ _
    windows_length := by
      show (writeValues s.windows _ (pad s.width values)).2.length = s.width
      rw [length_writeValues_windows _ _ _ (by rw [h.windows_length, length_pad]),
        h.windows_length]
    reads := fun R hR hp =>
      (h.reads R hR ((prefix_recordRun h.clean offset values tag status).trans hp)).snoc
        (next_recordRun hR h.clean h.windows_valid h.windows_length hdod htag hp)
    entries_eq := by
      show s.entries + 1 = _
      rw [h.entries_eq, List.length_append, List.length_singleton]
    live_eq := by
      show (if status = .live then s.live + 1 else s.live) = _
      rw [h.live_eq, List.filter_append]
      cases status <;> simp [Entry.isLive]
    columns_eq := by
      show (if status = .live then _ else s.columns) = _
      rw [h.columns_eq]
      cases status with
      | live => exact columns_grow rfl values rfl
      | dead =>
        simp only [reduceCtorEq, if_false]
        congr 1
        funext i
        simp [columnOf, List.filter_append, Entry.isLive]
    lastOffset_eq := by simp [grow]
    lastOffset_lt := hlt
    lastDelta_nonneg := by show 0 ≤ offset - s.lastOffset; omega
    lastDelta_le := by show offset - s.lastOffset ≤ offset; omega
    offsets := List.pairwise_append.mpr ⟨h.offsets, List.pairwise_singleton _ _,
      fun a ha b hb => by
        rw [List.mem_singleton.mp hb]
        exact Int.le_trans (h.offset_le_last a ha) hlo⟩
    offset_nonneg := by
      intro e he
      rcases List.mem_append.mp he with he | he
      · exact h.offset_nonneg e he
      · rw [List.mem_singleton.mp he]
        exact hnn
    values_eq := by
      intro e he
      rcases List.mem_append.mp he with he | he
      · exact h.values_eq e he
      · rw [List.mem_singleton.mp he]
        exact length_padded _ _
    tags := by
      intro e he
      rcases List.mem_append.mp he with he | he
      · exact h.tags e he
      · rw [List.mem_singleton.mp he]
        exact htag
    size_le := by
      show headerSize + s.width * columnSize + ((s.recordRun offset values tag status).1.length + 7) / 8 ≤ _
      rw [hrec]
      exact hfit
    entries_le := by
      show 4 * (s.entries + 1) ≤ (s.recordRun offset values tag status).1.length
      have := h.entries_le
      have := h.width_pos
      omega
    counts_le := by
      show ∀ c ∈ (if status = .live then _ else s.columns),
        c.count ≤ (if status = .live then s.live + 1 else s.live)
      cases status with
      | dead => simpa using h.counts_le
      | live =>
        simp only [if_true]
        intro c hc
        obtain ⟨⟨c0, b⟩, hmem, rfl⟩ := List.mem_map.mp hc
        show (c0.observe ⟨b⟩).count ≤ s.live + 1
        have := h.counts_le c0 (List.of_mem_zip hmem).1
        have := count_observe_le c0 ⟨b⟩
        omega }

/-! ## What a sound segment answers -/

/-- A sound segment reads back as the samples it holds, to the end. -/
theorem Sound.decode {s : Segment} {es : List Entry} (h : s.Sound es) :
    s.decode = { entries := es, stop := none } := by
  have hr := h.reads s.payload h.clean.covers (List.prefix_refl _)
  have hrun := decodeRun_of_reads hr 0
  simp only [Nat.add_zero, decodeRun, List.append_nil] at hrun
  simp only [Segment.decode, h.entries_eq]
  rw [show ({ windows := List.replicate s.width {} } : DecodeState) = freshState s.width from rfl,
    hrun]

theorem Sound.samples {s : Segment} {es : List Entry} (h : s.Sound es) : s.samples = .ok es := by
  simp [Segment.samples, h.decode]

theorem Sound.stream {s : Segment} {es : List Entry} (h : s.Sound es) :
    s.stream = es.map .ok := by
  simp [Segment.stream, h.decode]

theorem Sound.payload_le {s : Segment} {es : List Entry} (h : s.Sound es) :
    s.payload.length ≤ 8 * maxSize := by
  have := h.size_le
  unfold maxSize at *
  omega

theorem Sound.live_le {s : Segment} {es : List Entry} (h : s.Sound es) : s.live ≤ s.entries := by
  rw [h.live_eq, h.entries_eq]
  exact List.length_filter_le _ _

/-- The counters of a sound segment are far from their limit: the payload is too small to
count that many samples. -/
theorem Sound.countersOverflow_eq_false {s : Segment} {es : List Entry} (h : s.Sound es)
    (bits : List UInt64) (status : Status) : s.countersOverflow bits status = false := by
  have h1 := h.entries_le
  have h2 := h.payload_le
  have h3 := h.live_le
  have hlim : counterLimit = 4294967295 := rfl
  unfold maxSize at h2
  unfold countersOverflow
  simp only [Bool.or_eq_false_iff, decide_eq_false_iff_not, Bool.and_eq_false_imp, beq_iff_eq,
    List.any_eq_false]
  refine ⟨by omega, fun _ => ⟨by omega, ?_⟩⟩
  intro ⟨c, b⟩ hcb
  have := h.counts_le c (List.of_mem_zip hcb).1
  simp only [Bool.and_eq_true, Bool.not_eq_eq_eq_not, Bool.not_true, decide_eq_true_eq, not_and]
  intro _
  omega

/-- A sound segment never grows past the size limit. -/
theorem Sound.sizeInBytes_le {s : Segment} {es : List Entry} (h : s.Sound es) :
    s.sizeInBytes ≤ maxSize := h.size_le

end Segment

end SeriesStore
