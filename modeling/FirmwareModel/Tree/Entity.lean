import FirmwareModel.Grammar.Classify
import FirmwareModel.Table
import FirmwareModel.Value.Address

/-!
# Entities of the model

Modules own inputs and procedures, procedures own arguments, and all of them are described by what
the symbols tell. Child modules are referred to by their index in the tree.
-/

namespace FirmwareModel

/-- A reference to executable code. -/
structure Callable where
  symbol : SymbolName
  /-- The address in instruction units, once the linker map has been consulted. -/
  address : Option ResolvedAddress := none
  /-- The reference was taken over from an enclosing module. -/
  inherited : Bool := false
  deriving DecidableEq, Repr

/-- The same reference, marked as taken over. -/
def Callable.inheritedCopy (c : Callable) : Callable :=
  { c with inherited := true }

/-- A reference to a storage location. -/
structure Storage where
  /-- The symbol that the location is relative to. -/
  symbol : Option SymbolName := none
  /-- The distance from that symbol in bytes. -/
  offset : UInt64 := 0
  /-- The size in bytes. -/
  size : UInt64 := 0
  type : Option PrimitiveType := none
  address : Option ResolvedAddress := none
  baseAddress : Option ResolvedAddress := none
  deriving DecidableEq, Repr

/-- The same location, marked as one that the linker dropped. -/
def Storage.markUnexported (s : Storage) : Storage :=
  { s with address := some .unexported, baseAddress := some .unexported }

/-- A value of a module that can be set. -/
structure Input where
  name : String
  description : String := ""
  data : Storage := {}
  callable : Option Callable := none
  /-- The input declared the callable that stands for "no update", so it takes over none. -/
  updateSuppressed : Bool := false
  deriving DecidableEq, Repr

/-- An argument of a procedure, which lies in the overlay that all arguments share. -/
structure Argument where
  name : String
  description : String := ""
  data : Storage := {}
  deriving DecidableEq, Repr

/-- An operation of a module that can be invoked. -/
structure Procedure where
  name : String
  description : String := ""
  callable : Option Callable := none
  arguments : Table Argument := .empty
  deriving DecidableEq, Repr

/-- A module of the firmware. -/
structure Module where
  name : String
  path : String
  description : String := ""
  callable : Option Callable := none
  /-- The module declared the callable that stands for "no update", so nothing is taken over past
  it. -/
  updateSuppressed : Bool := false
  /-- The index of the enclosing module. -/
  parent : Option Nat
  /-- The indices of the child modules. -/
  modules : Table Nat := .empty
  inputs : Table Input := .empty
  procedures : Table Procedure := .empty
  deriving DecidableEq, Repr

/-- A change of one entity. -/
inductive Edit where
  /-- No change; the entity is only made sure of. -/
  | keep
  | describe (text : String)
  | call (callable : Callable)
  | store (change : Storage → Storage)

/-- The kind of entity that a member is. -/
def Member.kind : Member → EntityKind
  | self => .module
  | input _ => .input
  | procedure _ => .procedure
  | argument _ _ => .argument

/-- Whether an entity of the kind can hold what the edit sets: arguments hold no callable, and only
inputs and arguments are stored somewhere. -/
def EntityKind.accepts : EntityKind → Edit → Bool
  | argument, .call _ => false
  | module, .store _ => false
  | procedure, .store _ => false
  | _, _ => true

/-- The input after an edit. -/
def Input.edit (e : Edit) (i : Input) : Input :=
  match e with
  | .keep => i
  | .describe text => { i with description := text }
  | .call callable => { i with callable := some callable }
  | .store change => { i with data := change i.data }

/-- The argument after an edit, which cannot give it a callable. -/
def Argument.edit (e : Edit) (a : Argument) : Argument :=
  match e with
  | .keep | .call _ => a
  | .describe text => { a with description := text }
  | .store change => { a with data := change a.data }

/-- The procedure after an edit, which cannot give it a storage location. -/
def Procedure.edit (e : Edit) (p : Procedure) : Procedure :=
  match e with
  | .keep | .store _ => p
  | .describe text => { p with description := text }
  | .call callable => { p with callable := some callable }

/-- The procedure after an edit of an argument, which is added if it is not there. -/
def Procedure.editArgument (name : String) (e : Edit) (p : Procedure) : Procedure :=
  { p with arguments := p.arguments.upsert name { name } (Argument.edit e) }

/-- The module after an edit of one of its entities, which is added if it is not there. -/
def Module.edit (e : Edit) (m : Module) : Member → Module
  | .self =>
    match e with
    | .keep | .store _ => m
    | .describe text => { m with description := text }
    | .call callable => { m with callable := some callable }
  | .input name => { m with inputs := m.inputs.upsert name { name } (Input.edit e) }
  | .procedure name =>
    { m with procedures := m.procedures.upsert name { name } (Procedure.edit e) }
  | .argument procedure name =>
    { m with
      procedures :=
        m.procedures.upsert procedure { name := procedure } (Procedure.editArgument name e) }

end FirmwareModel
