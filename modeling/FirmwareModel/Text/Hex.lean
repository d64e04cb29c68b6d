import FirmwareModel.Text.Numeral
import FirmwareModel.Text.Quoted

/-!
# Bytes in hexadecimal

Two lower-case digits per byte are written; digits of either case are read. Reading works on the
octets of the text, so a position in a fault counts octets. What is written is read back.
-/

namespace FirmwareModel.Text

/-- Why a text is not a sequence of bytes in hexadecimal. -/
inductive HexFault where
  /-- The text has an odd number of octets. -/
  | oddLength
  /-- An octet is no hexadecimal digit. -/
  | invalidDigit (octet : UInt8) (position : Nat)
  deriving DecidableEq, Repr

/-- The words for a fault; a foreign octet is shown as the character of that code point. -/
def HexFault.message : HexFault → String
  | .oddLength => "Odd number of digits"
  | .invalidDigit octet position =>
    "Invalid character " ++ inSingleQuotes (Char.ofNat octet.toNat) ++ " at position " ++
      decimalText position

/-- The two lower-case digits of a byte. -/
def byteDigits (b : UInt8) : List Char :=
  [(digitChar (b.toNat / 16)).toLower, (digitChar (b.toNat % 16)).toLower]

/-- Bytes as lower-case hexadecimal text. -/
def hexOfBytes (bytes : List UInt8) : String :=
  String.ofList (bytes.flatMap byteDigits)

/-- The octets of a text in UTF-8. -/
def octets (s : String) : List UInt8 :=
  s.toByteArray.data.toList

/-- The number that an octet stands for as a hexadecimal digit. -/
def octetDigit (octet : UInt8) (position : Nat) : Except HexFault Nat :=
  match digitIn? 16 (Char.ofNat octet.toNat) with
  | some d => .ok d
  | none => .error (.invalidDigit octet position)

/-- The bytes that pairs of digits stand for, the first digit being at `position`. -/
def bytesOfDigits (position : Nat) : List UInt8 → Except HexFault (List UInt8)
  | high :: low :: rest => do
    let h ← octetDigit high position
    let l ← octetDigit low (position + 1)
    let bytes ← bytesOfDigits (position + 2) rest
    return UInt8.ofNat (h * 16 + l) :: bytes
  | _ => .ok []

/-- The bytes of a hexadecimal text. -/
def bytesOfHex (s : String) : Except HexFault (List UInt8) :=
  if (octets s).length % 2 = 1 then .error .oddLength
  else bytesOfDigits 0 (octets s)

end FirmwareModel.Text
