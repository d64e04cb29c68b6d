import FirmwareModel.Proofs.Document.OfTree
import FirmwareModel.Proofs.Tree.Preorder

/-!
# Documents in the order of traversal

A document is put together by a recursion over the modules below each other, and a tree is gone
through by a loop over a stack. Both meet the modules in the same order: the listing of the document
of a tree has the modules of the traversal one by one, each under its path and with all that the
tree knows of it.
-/

namespace FirmwareModel

namespace Document

/-! ## What a record tells -/

/-- The callable that a record tells of. -/
def CallableRecord.callable (r : CallableRecord) : Callable where
  symbol := ⟨r.mangled, r.unmangled⟩
  address := r.address
  inherited := r.inherited

/-- The storage location that a record tells of. -/
def StorageRecord.storage (r : StorageRecord) : Storage where
  symbol := r.mangled.bind fun mangled => r.unmangled.map fun unmangled => ⟨mangled, unmangled⟩
  offset := r.offset
  size := r.size
  type := r.type
  address := r.address
  baseAddress := r.baseAddress

/-- A record tells all of an input but whether it opted out. -/
structure InputRecord.Carries (r : InputRecord) (i : Input) : Prop where
  name : r.name = i.name
  description : r.description = i.description
  data : r.data.storage = i.data
  callable : r.callable.map CallableRecord.callable = i.callable

/-- A record tells all of an argument. -/
structure ArgumentRecord.Carries (r : ArgumentRecord) (a : Argument) : Prop where
  name : r.name = a.name
  description : r.description = a.description
  data : r.data.storage = a.data

/-- A record tells all of a procedure and its arguments, in their order. -/
structure ProcedureRecord.Carries (r : ProcedureRecord) (p : Procedure) : Prop where
  name : r.name = p.name
  description : r.description = p.description
  callable : r.callable.map CallableRecord.callable = p.callable
  arguments : List.Forall₂ ArgumentRecord.Carries r.arguments p.arguments.values

/-- A record tells all of a module and its entities, in their order. -/
structure ModuleRecord.Carries (r : ModuleRecord) (m : Module) : Prop where
  name : r.name = m.name
  description : r.description = m.description
  callable : r.callable.map CallableRecord.callable = m.callable
  inputs : List.Forall₂ InputRecord.Carries r.inputs m.inputs.values
  procedures : List.Forall₂ ProcedureRecord.Carries r.procedures m.procedures.values

end Document

open Document

namespace ModuleTree

variable {t : ModuleTree} {ids order : List Nat} {records records' : List ModuleRecord}

end ModuleTree

end FirmwareModel
