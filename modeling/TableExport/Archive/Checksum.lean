/-!
# Checksums

The cyclic redundancy check of 32 bits over the reflected polynomial `0xEDB88320`.
-/

namespace TableExport

/-- One step of the division for a number of bits. -/
def checksumBits (value : UInt32) : Nat → UInt32
  | 0 => value
  | bits + 1 =>
    let next := if value &&& 1 = 1 then (value >>> 1) ^^^ 0xEDB88320 else value >>> 1
    checksumBits next bits

/-- The checksum of some bytes. -/
def checksum (bytes : ByteArray) : UInt32 :=
  (bytes.foldl (fun value byte => checksumBits (value ^^^ byte.toUInt32) 8) 0xFFFFFFFF)
    ^^^ 0xFFFFFFFF

end TableExport
