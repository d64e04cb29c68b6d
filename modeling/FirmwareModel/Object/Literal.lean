import FirmwareModel.Grammar.Role
import FirmwareModel.Text.Utf8

/-!
# Literals in sections

Descriptions, sizes, type identifiers and argument offsets are constants that the compiler puts in
sections of their own. Numbers are little-endian.
-/

namespace FirmwareModel

open FirmwareModel.Text

/-- A decoded literal. -/
inductive Literal where
  | description (text : String)
  | size (bytes : UInt64)
  | type (type : PrimitiveType)
  | offset (bytes : UInt64)
  deriving DecidableEq, Repr

/-- Why the bytes of a section are no literal of their kind. -/
inductive LiteralFault where
  | emptySize
  | emptyType
  | emptyOffset
  | unknownType (index : UInt8) (known : Nat)
  deriving DecidableEq, Repr

/-- The words for bytes that are no literal. -/
def LiteralFault.message : LiteralFault → String
  | emptySize => "empty size payload"
  | emptyType => "empty type payload"
  | emptyOffset => "empty offset payload"
  | unknownType index known =>
    "type id " ++ decimalText index.toNat ++ " outside table of " ++ decimalText known ++ " types"

/-- The bytes before one zero byte at the end. -/
def stripTerminator (bytes : List UInt8) : List UInt8 :=
  if bytes.getLast? = some 0 then bytes.dropLast else bytes

namespace Literal

/-- The text of a description; ill-formed octets are replaced. -/
def decodeDescription (bytes : List UInt8) : String :=
  lenientText (stripTerminator bytes)

/-- A size of one byte, or of two bytes with the lower one first. -/
def decodeSize : List UInt8 → Except LiteralFault UInt64
  | [] => .error .emptySize
  | [low] => .ok low.toUInt64
  | low :: high :: _ => .ok (low.toUInt64 + 256 * high.toUInt64)

/-- The type at the index that the first byte gives. -/
def decodeType (table : List PrimitiveType) : List UInt8 → Except LiteralFault PrimitiveType
  | [] => .error .emptyType
  | index :: _ =>
    match table[index.toNat]? with
    | some primitive => .ok primitive
    | none => .error (.unknownType index table.length)

/-- The offset that the first byte gives. -/
def decodeOffset : List UInt8 → Except LiteralFault UInt64
  | [] => .error .emptyOffset
  | first :: _ => .ok first.toUInt64

/-- The literal of a kind that bytes spell. -/
def decode (table : List PrimitiveType) (kind : LiteralKind) (bytes : List UInt8) :
    Except LiteralFault Literal :=
  match kind with
  | .description => .ok (description (decodeDescription bytes))
  | .size => (decodeSize bytes).map size
  | .type => (decodeType table bytes).map type
  | .offset => (decodeOffset bytes).map offset

end Literal

end FirmwareModel
