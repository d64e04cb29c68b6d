import FirmwareModel.Json.Value
import FirmwareModel.Record.Dialect

/-!
# Resolved addresses

Once the linker map has been consulted, a symbol has either a runtime address or the mark of one
that the linker dropped. In documents the mark is the text `unexported`, and an address a number.
-/

namespace FirmwareModel

/-- A final runtime address, or the mark of a symbol that the linker dropped. -/
inductive ResolvedAddress where
  | located (address : UInt64)
  | unexported
  deriving DecidableEq, Repr

namespace ResolvedAddress

/-- How documents spell the mark of a dropped symbol. -/
def unexportedText : String :=
  "unexported"

/-- The address, if there is one. -/
def word? : ResolvedAddress → Option UInt64
  | located address => some address
  | unexported => none

/-- Whether the linker dropped the symbol. -/
def isUnexported (a : ResolvedAddress) : Bool :=
  a.word?.isNone

/-- An address as people read it: in hexadecimal. -/
def display : ResolvedAddress → String
  | located address => Text.hexText address.toNat
  | unexported => unexportedText

/-- An address in a document. -/
def toJson : ResolvedAddress → Json.Value
  | located address => .word address
  | unexported => .text unexportedText

/-- Reads a number as an address and the mark as itself. -/
def read {ν : Type} (d : Record.Dialect ν) (v : ν) : Option ResolvedAddress :=
  match d.untyped? v with
  | some (.inl address) => some (located address)
  | some (.inr text) => if text = unexportedText then some unexported else none
  | none => none

end ResolvedAddress

end FirmwareModel
