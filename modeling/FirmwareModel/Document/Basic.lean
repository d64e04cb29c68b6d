import FirmwareModel.Tree.Basic

/-!
# Model documents

A document is the finished model as a tree of records. Each module lists its inputs, procedures and
child modules in order of arrival.
-/

namespace FirmwareModel.Document

/-- A callable in a document. -/
structure CallableRecord where
  address : Option ResolvedAddress
  mangled : String
  unmangled : String
  inherited : Bool
  deriving DecidableEq, Repr

/-- A storage location in a document. -/
structure StorageRecord where
  address : Option ResolvedAddress := none
  baseAddress : Option ResolvedAddress := none
  offset : UInt64
  size : UInt64
  type : Option PrimitiveType := none
  mangled : Option String := none
  unmangled : Option String := none
  deriving DecidableEq, Repr

/-- An input in a document. -/
structure InputRecord where
  name : String
  description : String
  data : StorageRecord
  callable : Option CallableRecord := none
  deriving DecidableEq, Repr

/-- An argument in a document. -/
structure ArgumentRecord where
  name : String
  description : String
  data : StorageRecord
  deriving DecidableEq, Repr

/-- A procedure in a document. -/
structure ProcedureRecord where
  name : String
  description : String := ""
  callable : Option CallableRecord := none
  arguments : List ArgumentRecord := []
  deriving DecidableEq, Repr

/-- A module in a document, with all modules below it. -/
structure ModuleRecord where
  name : String
  description : String
  callable : Option CallableRecord := none
  inputs : List InputRecord := []
  procedures : List ProcedureRecord := []
  modules : List ModuleRecord := []
  deriving Repr, BEq

end FirmwareModel.Document

namespace FirmwareModel

/-- The model of one firmware. -/
structure Document where
  /-- The checksum of the object file in hexadecimal, when its bytes were at hand. -/
  checksum : Option String := none
  modules : List Document.ModuleRecord
  deriving Repr, BEq

namespace Document

/-- A callable as documents show it. -/
def CallableRecord.ofCallable (c : Callable) : CallableRecord :=
  ⟨c.address, c.symbol.mangled, c.symbol.unmangled, c.inherited⟩

/-- A storage location as documents show it. -/
def StorageRecord.ofStorage (s : Storage) : StorageRecord where
  address := s.address
  baseAddress := s.baseAddress
  offset := s.offset
  size := s.size
  type := s.type
  mangled := s.symbol.map SymbolName.mangled
  unmangled := s.symbol.map SymbolName.unmangled

/-- An input as documents show it. -/
def InputRecord.ofInput (i : Input) : InputRecord :=
  ⟨i.name, i.description, .ofStorage i.data, i.callable.map .ofCallable⟩

/-- An argument as documents show it. -/
def ArgumentRecord.ofArgument (a : Argument) : ArgumentRecord :=
  ⟨a.name, a.description, .ofStorage a.data⟩

/-- A procedure as documents show it. -/
def ProcedureRecord.ofProcedure (p : Procedure) : ProcedureRecord :=
  ⟨p.name, p.description, p.callable.map .ofCallable, p.arguments.values.map .ofArgument⟩

/-- A module as documents show it, above the given modules. -/
def ModuleRecord.ofModule (m : Module) (below : List ModuleRecord) : ModuleRecord where
  name := m.name
  description := m.description
  callable := m.callable.map .ofCallable
  inputs := m.inputs.values.map .ofInput
  procedures := m.procedures.values.map .ofProcedure
  modules := below

/-- The records of modules of a tree, with up to that many levels of modules. -/
def moduleRecords (t : ModuleTree) : Nat → List Nat → List ModuleRecord
  | 0, _ => []
  | levels + 1, ids =>
    ids.filterMap fun id =>
      (t.module? id).map fun m => .ofModule m (moduleRecords t levels m.modules.values)

/-- The document of a tree. There are no more levels than modules. -/
def ofTree (t : ModuleTree) (checksum : Option String) : Document :=
  ⟨checksum, moduleRecords t t.size t.roots.values⟩

end Document

end FirmwareModel
