/-
The 32-bit cyclic redundancy check that closes every frame: reflected polynomial
0xEDB88320, register preset to all ones and inverted at the end.
-/
import GroupReplication.Bytes

namespace GroupReplication.Checksum

/-- The bits of a byte, the lowest first. -/
def bits (b : UInt8) : List Bool := (List.range 8).map b.toNat.testBit

/-- The shift register after these bits went in, one after the other. -/
def shiftIn (r : UInt32) : List Bool → UInt32
  | [] => r
  | bit :: bits =>
    if (r &&& 1 == 1) == bit then shiftIn (r >>> 1) bits
    else shiftIn ((r >>> 1) ^^^ 0xEDB88320) bits

def crc32 (bs : Bytes) : UInt32 :=
  shiftIn 0xFFFFFFFF (bs.flatMap bits) ^^^ 0xFFFFFFFF

end GroupReplication.Checksum
