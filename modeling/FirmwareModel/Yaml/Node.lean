import FirmwareModel.Yaml.Style

/-!
# YAML nodes

The tree of a YAML document after aliases have been replaced by what they stand for. A scalar keeps
whether it was written plain, since only then can it be something else than its text.
-/

namespace FirmwareModel.Yaml

/-- What a tag says about a scalar. -/
inductive Tag where
  /-- A tag that YAML defines, such as `!!int`, without its marks. -/
  | core (name : String)
  /-- A tag of the application, such as `!celsius`, without its mark. -/
  | own (name : String)
  | foreign
  deriving DecidableEq, Repr

/-- How the full names of the tags begin that YAML defines. -/
def Tag.coreStem : String :=
  "tag:yaml.org,2002:"

/-- The tag with the given text behind its mark. The mark alone is no tag. -/
def Tag.ofText? : List Char → Option Tag
  | [] => none
  | '!' :: name => some (.core (String.ofList name))
  | '<' :: '!' :: name => some (.own (String.ofList name.dropLast))
  | '<' :: name =>
    match Text.stripStart? coreStem.toList name with
    | some name => some (.core (String.ofList name.dropLast))
    | none => some .foreign
  | name => some (.own (String.ofList name))

/-- A node of a YAML document. -/
inductive Node where
  /-- A scalar with its text and its tag, if it has one. -/
  | scalar (plain : Bool) (tag : Option Tag) (text : List Char)
  | sequence (items : List Node)
  | mapping (members : List (Node × Node))
  deriving Repr, Inhabited

/-- The node where none is written. -/
def Node.empty : Node :=
  .scalar true none []

end FirmwareModel.Yaml
