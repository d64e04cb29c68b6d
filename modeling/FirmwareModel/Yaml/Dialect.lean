import FirmwareModel.Record.Dialect
import FirmwareModel.Yaml.Reader

/-!
# Records in YAML

A mapping is a record. Any scalar is a text, so a reader that wants a text takes `5` and `null` as
they are spelled; numbers and truth values have to be plain. Where nothing is written, a list or a
record is empty.
-/

namespace FirmwareModel.Yaml

open FirmwareModel.Record

/-- The text of a scalar. -/
def Node.text? : Node → Option String
  | .scalar _ _ text => some (String.ofList text)
  | _ => none

/-- Whether nothing is written for a node. -/
def Node.isBlank : Node → Bool
  | .scalar true _ [] => true
  | _ => false

/-- The members of a mapping, if all their names are scalars. -/
def namedMembers? (members : List (Node × Node)) : Option (List (String × Node)) :=
  members.mapM fun (name, value) => name.text?.map fun name => (name, value)

/-- The entries of a mapping; there are none where nothing is written. -/
def Node.entries? : Node → Option (List (String × Node))
  | .mapping members => namedMembers? members
  | node => if node.isBlank then some [] else none

/-- The name that a scalar gives to a choice: its tag, if it has one of the application, else its
text. -/
def Node.choice? : Node → Option String
  | .scalar plain (some (.own name)) text =>
    if plain && (text.isEmpty || isNullWord text) then some name else none
  | node => node.text?

/-- Whether a node stands for something absent; what is tagged as absent has to spell it. -/
def Node.isAbsent? : Node → Option Bool
  | .scalar true none text => some (text.isEmpty || isNullWord text)
  | .scalar true (some (.core "null")) text => if isNullWord text then some true else none
  | _ => some false

/-- The word that an integer is, which may be a negative zero. -/
def integerWord? (text : List Char) : Option UInt64 :=
  (wordValue? text).or (if negativeMagnitude? text = some 0 then some 0 else none)

/-- What a scalar is by its tag, or else by its text if it is plain. -/
def Node.untyped? : Node → Option (UInt64 ⊕ String)
  | .scalar _ (some (.core "int")) text => (integerWord? text).map .inl
  | .scalar _ (some (.core name)) text =>
    if ["bool", "float", "null"].contains name then none else some (.inr (String.ofList text))
  | .scalar _ (some (.own _)) _ => none
  | .scalar true none text =>
    if isTyped text then (integerWord? text).map .inl else some (.inr (String.ofList text))
  | .scalar _ _ text => some (.inr (String.ofList text))
  | _ => none

/-- How records are read from YAML. -/
def dialect : Dialect Node where
  isAbsent? := Node.isAbsent?
  text? := Node.text?
  word?
    | .scalar true _ text => wordValue? text
    | _ => none
  flag?
    | .scalar true _ text => truthValue? text
    | _ => none
  untyped? := Node.untyped?
  choice? := Node.choice?
  keyedChoice? _ := none
  items?
    | .sequence items => some items
    | node => if node.isBlank then some [] else none
  members? names node :=
    node.entries?.bind fun members =>
      let declared := members.filter fun (name, _) => names.contains name
      if (declared.map Prod.fst).Nodup then some ⟨false, declared⟩ else none
  entries? := Node.entries?
  depthLimit := 128

/-- The value that `reader` finds in a YAML text. -/
def readRecord? {α : Type} (reader : Reader Node α) (text : String) : Option α :=
  (read? text).bind fun node => reader dialect.depthLimit node

end FirmwareModel.Yaml
