import Mathlib

/-!
# CRC-32

The reflected CRC-32 of IEEE 802.3, bit by bit: what both {lit}`crc32fast` and
{lit}`zlib.crc32` compute.  The results about the codecs take any function in its
place; concrete frames are evaluated with this one.
-/

namespace Crc32

/-- Shift one bit out of the register. -/
def shiftBit (crc : UInt32) : UInt32 :=
  if crc &&& 1 = 1 then (crc >>> 1) ^^^ 0xEDB88320 else crc >>> 1

/-- Feed one byte. -/
def feed (crc : UInt32) (b : UInt8) : UInt32 :=
  Nat.repeat shiftBit 8 (crc ^^^ b.toUInt32)

/-- The checksum of a byte string. -/
def ieee (data : List UInt8) : UInt32 :=
  data.foldl feed 0xFFFFFFFF ^^^ 0xFFFFFFFF

/-- The check value of the algorithm: the checksum of the digits one to nine. -/
example : ieee [0x31, 0x32, 0x33, 0x34, 0x35, 0x36, 0x37, 0x38, 0x39] = 0xCBF43926 := by
  decide +kernel

end Crc32
