import FirmwareModel.Object.Digest
import FirmwareModel.Text.Hex

/-!
# Firmware checksums

The device reports a checksum of the object file that it was built from: the SHA-256 digest, as a
number, modulo two to the sixty-fourth. It is stored and shown with the least significant byte
first.
-/

namespace FirmwareModel

/-- The checksum of an object file. -/
structure Checksum where
  value : UInt64
  deriving DecidableEq, Repr

namespace Checksum

/-- The checksum of the bytes of an object file: the last two words of the digest. -/
def ofImage (image : List UInt8) : Checksum :=
  let final := Digest.finalState image
  ⟨(final.g.toUInt64 <<< 32) ||| final.h.toUInt64⟩

/-- The bytes of the checksum as the firmware stores them, the least significant one first. -/
def bytes (c : Checksum) : List UInt8 :=
  (Digest.bigEndian 8 c.value.toNat).reverse

/-- The stored bytes in hexadecimal. -/
def display (c : Checksum) : String :=
  Text.hexOfBytes c.bytes

end Checksum

end FirmwareModel
