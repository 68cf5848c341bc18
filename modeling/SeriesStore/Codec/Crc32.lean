import SeriesStore.Prelude

/-!
# CRC-32

The cyclic redundancy check of IEEE 802.3: the reflected polynomial `0xEDB88320`, a register
started at all ones, and the final register inverted. Stored segments carry it over their bytes.
-/

namespace SeriesStore

namespace Crc32

/-- The reflected generator polynomial. -/
def polynomial : UInt32 := 0xEDB88320

/-- Shift one bit out of the register. -/
def shift (c : UInt32) : UInt32 := if c &&& 1 == 1 then (c >>> 1) ^^^ polynomial else c >>> 1

/-- Feed one byte into the register. -/
def step (c : UInt32) (b : UInt8) : UInt32 :=
  (List.range 8).foldl (fun c _ => shift c) (c ^^^ b.toUInt32)

/-- The checksum of a byte string. -/
def checksum (bs : List UInt8) : UInt32 := (bs.foldl step 0xFFFFFFFF) ^^^ 0xFFFFFFFF

end Crc32

end SeriesStore
