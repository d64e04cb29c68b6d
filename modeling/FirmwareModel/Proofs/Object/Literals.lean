import FirmwareModel.Object.Literal
import FirmwareModel.Proofs.Object.Payloads

/-!
# Reading literals

The value of a literal is told by the first bytes of its section. Bytes are no literal when there
are too few of them, or when they give the index of no type.
-/

namespace FirmwareModel

open FirmwareModel.Text

namespace Literal

/-- The size that bytes give: the first byte, and 256 times the second one if there is one. -/
def sizeOf? (bytes : List UInt8) : Option UInt64 :=
  bytes.head?.map fun low => .ofNat (low.toNat + 256 * (bytes.getD 1 0).toNat)

/-- The type at the index that the first byte gives. -/
def typeOf? (table : List PrimitiveType) (bytes : List UInt8) : Option PrimitiveType :=
  bytes.head?.bind fun index => table[index.toNat]?

/-- The offset that the first byte gives. -/
def offsetOf? (bytes : List UInt8) : Option UInt64 :=
  bytes.head?.map fun first => .ofNat first.toNat

/-- A payload that is a size is decoded as that size, and any other is refused. -/
theorem toOption_decodeSize (bytes : List UInt8) : (decodeSize bytes).toOption = sizeOf? bytes := by
  match bytes with
  | [] => rfl
  | [low] => simp [decodeSize, sizeOf?, Except.toOption]
  | low :: high :: rest => simp [decodeSize, sizeOf?, Except.toOption]

/-- A payload that is the index of a type is decoded as that type, and any other is refused. -/
theorem toOption_decodeType (table : List PrimitiveType) (bytes : List UInt8) :
    (decodeType table bytes).toOption = typeOf? table bytes := by
  cases bytes with
  | nil => rfl
  | cons index rest =>
    cases h : table[index.toNat]? <;> simp [decodeType, typeOf?, h, Except.toOption]

/-- A payload that is an offset is decoded as that offset, and any other is refused. -/
theorem toOption_decodeOffset (bytes : List UInt8) :
    (decodeOffset bytes).toOption = offsetOf? bytes := by
  cases bytes with
  | nil => rfl
  | cons first rest => simp [decodeOffset, offsetOf?, Except.toOption]

/-- Bytes are no literal of a kind: there are none, which only a description can do without, or the
first one is not an index into the table of types. -/
def Undecodable (table : List PrimitiveType) (kind : LiteralKind) (bytes : List UInt8) : Prop :=
  bytes = [] ∧ kind ≠ .description ∨
    kind = .type ∧ ∃ index rest, bytes = index :: rest ∧ table.length ≤ index.toNat

/-- Decoding fails exactly on bytes that are no literal of the kind. -/
theorem exists_decode_eq_error_iff {table : List PrimitiveType} {kind : LiteralKind}
    {bytes : List UInt8} :
    (∃ fault, decode table kind bytes = .error fault) ↔ Undecodable table kind bytes := by
  unfold Undecodable
  cases kind with
  | description => simp [decode]
  | size =>
    match bytes with
    | [] => simp [decode, decodeSize, Except.map]
    | [low] => simp [decode, decodeSize, Except.map]
    | low :: high :: rest => simp [decode, decodeSize, Except.map]
  | type =>
    cases bytes with
    | nil => simp [decode, decodeType, Except.map]
    | cons index rest =>
      by_cases h : index.toNat < table.length
      · simp [decode, decodeType, Except.map, h]
      · simp [decode, decodeType, Except.map, h, Nat.le_of_not_lt h]
  | offset => cases bytes <;> simp [decode, decodeOffset, Except.map]

end Literal

/-- The bytes of the first section of a symbol, searching the kinds in order. -/
def Snapshot.payload? (s : Snapshot) (symbol : String) (kinds : List SectionKind) :
    Option (List UInt8) :=
  (s.firstSection? symbol kinds).bind fun (_, hex) => (bytesOfHex hex).toOption

end FirmwareModel
