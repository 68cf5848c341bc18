import Mathlib
import SeriesStore.Proofs.Store.CleanNames

/-!
# Reading segment keys back

A segment key is the lowered document id, a separator, the lowered series name, a separator
and the eight bytes of the baseline. Reading it cuts off the last eight bytes, checks the
separator before them and splits the rest at its first separator. That gives back the three
parts whenever the document id holds no separator: lowering brings none in
(`separator_not_mem_lowerBytes`), so the first separator of the key is the one after the id,
and whatever the name holds comes after it.

    parseSegment (segment d n b) = some (lower d, lower n, b)      (parseSegment_segment)

Within one series the byte order of segment keys is the order of their baselines, and the byte
order of deletion tombstones the order of their etags, for etags that are not negative
(`segment_lossless_ordered`).
-/

namespace SeriesStore

namespace Key

/-! ## Splitting at the first separator -/

/-- The first separator of a key stands right after a part without one. -/
theorem idxOf?_separator {a : Key} (h : separator ∉ a) (rest : Key) :
    (a ++ separator :: rest).idxOf? separator = some a.length := by
  rw [List.idxOf?_eq_some_iff]
  refine ⟨by simp, by simp, fun j hj => ?_⟩
  rw [List.getElem_append_left hj]
  exact fun he => h (he ▸ List.getElem_mem hj)

/-- The key bytes of a text read back as its lowercase. -/
theorem fromUTF8?_lowerBytes (s : String) :
    String.fromUTF8? (ByteArray.mk (lowerBytes s).toArray) = some (Text.lower s) := by
  have hb : ByteArray.mk (lowerBytes s).toArray = (Text.lower s).toByteArray := by
    simp [lowerBytes, byteArray_toList]
  rw [hb, String.fromUTF8?, dif_pos (Text.lower s).isValidUTF8]
  rfl

/-- A series key splits back into the lowered document id and name, when the lowered id holds
no separator; the name may hold any. -/
theorem splitSeries_seriesKey {doc : String} (h : separator ∉ lowerBytes doc) (name : String) :
    splitSeries (seriesKey doc name) = some (Text.lower doc, Text.lower name) := by
  have hkey : seriesKey doc name = lowerBytes doc ++ separator :: lowerBytes name := by
    simp [seriesKey, documentPrefix]
  simp [splitSeries, hkey, idxOf?_separator h, fromUTF8?_lowerBytes]

/-! ## Segment keys -/

/-- The series prefix of a segment key is the prefix it was built on. -/
theorem prefixOfSegment_segmentOfPrefix (pre : Key) (b : Int) :
    prefixOfSegment (segmentOfPrefix pre b) = some pre := by
  simp [prefixOfSegment, segmentOfPrefix]

/-- A segment key reads back as the lowered document id and name and the baseline. -/
theorem parseSegment_segment {doc : String} (h : separator ∉ lowerBytes doc) (name : String)
    {b : Int} (hb : I64.fits b = true) :
    parseSegment (segment doc name b) = some (Text.lower doc, Text.lower name, b) := by
  -- the head is the series key and its closing separator, the tail the baseline's bytes
  have hkey : segment doc name b = (seriesKey doc name ++ [separator]) ++ encodeI64 b := by
    simp [segment, segmentOfPrefix, seriesPrefix, seriesKey]
  have hlen : 1 ≤ (seriesKey doc name).length := by
    simp only [seriesKey, documentPrefix, List.length_append, List.length_singleton]
    omega
  have hcut : (segment doc name b).length - 8 = (seriesKey doc name ++ [separator]).length := by
    rw [hkey, List.length_append, length_encodeI64]
    omega
  unfold parseSegment
  rw [if_neg (by rw [hkey]; simp; omega), hcut]
  simp only [hkey, List.take_left, List.drop_left, List.getLast?_concat, if_true,
    List.dropLast_concat, splitSeries_seriesKey h, decodeI64_encodeI64 hb, Option.map_some]

/-! ## Deletion tombstones -/

/-- Etags that are not negative are written as plain big-endian numbers, so their bytes
compare as the etags. -/
theorem compare_etagBytes {e₁ e₂ : Int} (h₁ : 0 ≤ e₁) (h₁' : I64.fits e₁ = true) (h₂ : 0 ≤ e₂)
    (h₂' : I64.fits e₂ = true) :
    compare (etagBytes e₁) (etagBytes e₂) = Ord.compare e₁ e₂ := by
  obtain ⟨-, hle₁⟩ := fits_iff.mp h₁'
  obtain ⟨-, hle₂⟩ := fits_iff.mp h₂'
  have hm₁ : e₁ % 2 ^ 64 = e₁ := Int.emod_eq_of_lt h₁ (by omega)
  have hm₂ : e₂ % 2 ^ 64 = e₂ := Int.emod_eq_of_lt h₂ (by omega)
  rw [etagBytes, etagBytes, hm₁, hm₂, compare_bigEndian 8 (by omega) (by omega)]
  simp only [Ord.compare, compareOfLessAndEq]
  have hlt : e₁.toNat < e₂.toNat ↔ e₁ < e₂ := by omega
  have heq : e₁.toNat = e₂.toNat ↔ e₁ = e₂ := by omega
  simp only [hlt, heq]

theorem compare_deletedRange (doc name : String) {e₁ e₂ : Int} (h₁ : 0 ≤ e₁)
    (h₁' : I64.fits e₁ = true) (h₂ : 0 ≤ e₂) (h₂' : I64.fits e₂ = true) :
    compare (deletedRange doc name e₁) (deletedRange doc name e₂) = Ord.compare e₁ e₂ := by
  rw [deletedRange, deletedRange, compare_append_left, compare_etagBytes h₁ h₁' h₂ h₂']

/-! ## Segment keys are lossless and ordered -/

/-- For a document id without separator and a 64-bit baseline, the segment key reads back as
the lowered id and name and the baseline, its last eight bytes as the baseline and the rest as
the series prefix. Within one series, segment keys compare as their baselines and tombstone
keys as their etags, for etags that are not negative. -/
theorem segment_lossless_ordered {doc : String} (hdoc : separatorChar ∉ doc.toList)
    (name : String) {b : Int} (hb : I64.fits b = true) :
    parseSegment (segment doc name b) = some (Text.lower doc, Text.lower name, b) ∧
      baselineOf (segment doc name b) = some b ∧
      prefixOfSegment (segment doc name b) = some (seriesPrefix doc name) ∧
      decodeI64 (encodeI64 b) = b ∧
      (∀ b₁ b₂, I64.fits b₁ = true → I64.fits b₂ = true →
        compare (segment doc name b₁) (segment doc name b₂) = Ord.compare b₁ b₂) ∧
      (∀ e₁ e₂, 0 ≤ e₁ → I64.fits e₁ = true → 0 ≤ e₂ → I64.fits e₂ = true →
        compare (deletedRange doc name e₁) (deletedRange doc name e₂) = Ord.compare e₁ e₂) := by
  have hsep := separator_not_mem_lowerBytes hdoc
  refine ⟨parseSegment_segment hsep name hb, baselineOf_segmentOfPrefix _ hb,
    prefixOfSegment_segmentOfPrefix _ b, decodeI64_encodeI64 hb, ?_, ?_⟩
  · intro b₁ b₂ h₁ h₂
    exact compare_segmentOfPrefix _ h₁ h₂
  · intro e₁ e₂ h₁ h₁' h₂ h₂'
    exact compare_deletedRange doc name h₁ h₁' h₂ h₂'

/-- The key of a rolled-up series reads back with its policy in the name, lowered, at a
negative baseline. -/
theorem segment_lossless_ordered_rollup :
    separatorChar ∉ "Users/1".toList ∧ I64.fits (-42) = true ∧
      parseSegment (segment "Users/1" "HeartRate@ByHour" (-42)) =
        some ("users/1", "heartrate@byhour", -42) := by
  have hdoc : separatorChar ∉ "Users/1".toList := by decide
  have hb : I64.fits (-42) = true := by decide
  have hlow : Text.lower "Users/1" = "users/1" ∧
      Text.lower "HeartRate@ByHour" = "heartrate@byhour" := by decide
  refine ⟨hdoc, hb, ?_⟩
  rw [(segment_lossless_ordered hdoc "HeartRate@ByHour" hb).1, hlow.1, hlow.2]

end Key

end SeriesStore
