/-!
# Records in a data format

Settings, snapshots and documents are records of texts, numbers, lists and further records. A
`Dialect` says how the values of one data format give these out, and what it lets pass. The
readers here are built from it, so each kind of record is described once for all formats.

A reader takes the number of levels by which the value may still nest, which bounds its recursion.
-/

namespace FirmwareModel.Record

/-- The members found for the declared names of a record. -/
structure Members (ν : Type) where
  /-- The record was given as a list of its members in the order of declaration. -/
  byPosition : Bool
  /-- The declared names that were given, each once, with their values. -/
  found : List (String × ν)

/-- How the values of a data format are read. -/
structure Dialect (ν : Type) where
  /-- Whether the value stands for something absent, if it is well-formed in that respect. -/
  isAbsent? : ν → Option Bool
  text? : ν → Option String
  word? : ν → Option UInt64
  flag? : ν → Option Bool
  /-- What the value is when the format alone decides, if that is a word or a text. -/
  untyped? : ν → Option (UInt64 ⊕ String)
  /-- The name of a choice given as a text. -/
  choice? : ν → Option String
  /-- The name of a choice given as a record with that name as its only member. -/
  keyedChoice? : ν → Option String
  items? : ν → Option (List ν)
  /-- The members with the given names; none of them may be repeated. -/
  members? : List String → ν → Option (Members ν)
  /-- The members of a record whose names are not declared. -/
  entries? : ν → Option (List (String × ν))
  /-- How many levels a text of the format may nest. -/
  depthLimit : Nat

/-- A reader of values, given the number of levels that the value may nest. -/
abbrev Reader (ν α : Type) :=
  Nat → ν → Option α

/-- The value of a declared member. -/
def Members.value? {ν : Type} (ms : Members ν) (name : String) : Option ν :=
  ms.found.lookup name

/-- A member that has to be there. -/
def Members.required {ν α : Type} (ms : Members ν) (name : String) (read : ν → Option α) :
    Option α :=
  (ms.value? name).bind read

/-- A member that has a default. -/
def Members.withDefault {ν α : Type} (ms : Members ν) (name : String) (default : α)
    (read : ν → Option α) : Option α :=
  match ms.value? name with
  | none => some default
  | some v => read v

namespace Dialect

variable {ν α : Type}

/-- A value that may be absent. -/
def nullable (d : Dialect ν) (read : ν → Option α) (v : ν) : Option (Option α) :=
  (d.isAbsent? v).bind fun absent => if absent then some none else (read v).map some

/-- An optional member. Only a record given by names may leave it out. -/
def optionalMember (d : Dialect ν) (ms : Members ν) (name : String) (read : ν → Option α) :
    Option (Option α) :=
  match ms.value? name with
  | none => if ms.byPosition then none else some none
  | some v => d.nullable read v

/-- A text, at no cost in levels. -/
def text (d : Dialect ν) : Reader ν String :=
  fun _ v => d.text? v

/-- One of the values of an enumeration, by its name. -/
def choice (d : Dialect ν) (ofName? : String → Option α) : Reader ν α
  | 0, v => (d.choice? v).bind ofName?
  | _ + 1, v => ((d.choice? v).or (d.keyedChoice? v)).bind ofName?

/-- A list of values. -/
def list (d : Dialect ν) (read : Reader ν α) : Reader ν (List α)
  | 0, _ => none
  | depth + 1, v => (d.items? v).bind fun items => items.mapM (read depth)

/-- A record with declared member names. -/
def record (d : Dialect ν) (names : List String) (read : Nat → Members ν → Option α) :
    Reader ν α
  | 0, _ => none
  | depth + 1, v => (d.members? names v).bind (read depth)

/-- A record from arbitrary names to values, in the order given. -/
def entries (d : Dialect ν) (read : Reader ν α) : Reader ν (List (String × α))
  | 0, _ => none
  | depth + 1, v =>
    (d.entries? v).bind fun members =>
      members.mapM fun (name, value) => (read depth value).map fun a => (name, a)

end Dialect

end FirmwareModel.Record
