import FirmwareModel.Text.Numeral

/-!
# JSON values

A value keeps what its text says: the literal of each number, the order and the repetition of
members, and the fact that a string holds a surrogate without its partner and so is no text.
-/

namespace FirmwareModel.Json

/-- A JSON value. A string or a member name is `none` when it holds a lone surrogate. -/
inductive Value where
  | null
  | bool (b : Bool)
  | number (literal : String)
  | string (text : Option String)
  | array (items : List Value)
  | object (members : List (Option String × Value))
  deriving Repr, BEq, Inhabited

/-- The value of a text. -/
def Value.text (s : String) : Value :=
  .string (some s)

/-- The value of a natural number. -/
def Value.nat (n : Nat) : Value :=
  .number (Text.decimalText n)

/-- The value of a sixty-four-bit word. -/
def Value.word (w : UInt64) : Value :=
  .nat w.toNat

/-- The object with the given members, all of whose names are texts. -/
def Value.record (members : List (String × Value)) : Value :=
  .object (members.map fun (name, value) => (some name, value))

/-- The value of an optional thing: `null` when it is absent. -/
def Value.nullable {α : Type} (encode : α → Value) : Option α → Value
  | none => .null
  | some a => encode a

end FirmwareModel.Json
