/-!
# Checksum

The 32-bit cyclic redundancy check that archives keep of their entries.
-/

namespace CallAtlas.Zip

/-- Shifts a remainder by one bit, reducing it by the reversed polynomial. -/
def shiftRemainder (r : UInt32) : UInt32 :=
  if r &&& 1 = 1 then (r >>> 1) ^^^ 0xEDB88320 else r >>> 1

/-- Shifts a remainder by four bits. -/
def shiftFour (r : UInt32) : UInt32 :=
  shiftRemainder (shiftRemainder (shiftRemainder (shiftRemainder r)))

/-- The remainder after one more byte. -/
def addToRemainder (r : UInt32) (b : UInt8) : UInt32 :=
  shiftFour (shiftFour (r ^^^ b.toUInt32))

/-- The checksum of a byte string. -/
def checksum (data : List UInt8) : Nat :=
  (data.foldl addToRemainder 0xFFFFFFFF ^^^ 0xFFFFFFFF).toNat

end CallAtlas.Zip
