import FirmwareModel.Json.Reader
import FirmwareModel.Record.Dialect

/-!
# Records in JSON

An object is a record; so is an array, which then lists the members in the order of declaration.
Names that are not declared are passed over whatever they hold, so the bound of 127 levels counts
only what is read.
-/

namespace FirmwareModel.Json

open FirmwareModel.Record

/-- The word that a number is: digits alone, below two to the sixty-fourth. -/
def Value.word? : Value → Option UInt64
  | .number literal => Text.wordValue? 10 literal.toList
  | _ => none

/-- The text that a value is. -/
def Value.text? : Value → Option String
  | .string text => text
  | _ => none

/-- The truth value that a value is. -/
def Value.flag? : Value → Option Bool
  | .bool b => some b
  | _ => none

/-- Whether a value stands for something absent. -/
def Value.isNull : Value → Bool
  | .null => true
  | _ => false

/-- The members of an object, if all their names are texts. -/
def namedMembers? (members : List (Option String × Value)) : Option (List (String × Value)) :=
  members.mapM fun (name, value) => name.map fun name => (name, value)

/-- The members of a record, from an object or from an array. -/
def recordMembers? (names : List String) : Value → Option (Members Value)
  | .array items =>
    if items.length ≤ names.length then some ⟨true, names.zip items⟩ else none
  | .object members =>
    (namedMembers? members).bind fun members =>
      let declared := members.filter fun (name, _) => names.contains name
      if (declared.map Prod.fst).Nodup then some ⟨false, declared⟩ else none
  | _ => none

/-- How records are read from JSON. -/
def dialect : Dialect Value where
  isAbsent? v := some v.isNull
  text? := Value.text?
  word? := Value.word?
  flag? := Value.flag?
  untyped? v := (v.word?.map .inl).or (v.text?.map .inr)
  choice? := Value.text?
  keyedChoice?
    | .object [(some name, .null)] => some name
    | _ => none
  items?
    | .array items => some items
    | _ => none
  members? := recordMembers?
  entries?
    | .object members => namedMembers? members
    | _ => none
  depthLimit := 127

/-- The value that `reader` finds in a JSON text. -/
def readRecord? {α : Type} (reader : Reader Value α) (text : String) : Option α :=
  (read? text).bind fun value => reader dialect.depthLimit value

end FirmwareModel.Json
