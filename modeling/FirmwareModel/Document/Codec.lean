import FirmwareModel.Document.Basic
import FirmwareModel.Json.Dialect
import FirmwareModel.Json.Writer

/-!
# Documents as records

How a document is written as a JSON value, and how it is read from the values of a data format.
Optional members are left out when they are absent, except for addresses and types, which are then
`null`.
-/

namespace FirmwareModel.Document

open FirmwareModel.Record

/-- A member that is left out when it is absent. -/
def optionalJson {α : Type} (name : String) (encode : α → Json.Value) :
    Option α → List (String × Json.Value)
  | none => []
  | some a => [(name, encode a)]

namespace CallableRecord

/-- A callable as a JSON record. -/
def toJson (c : CallableRecord) : Json.Value :=
  .record [
    ("address", .nullable ResolvedAddress.toJson c.address),
    ("symbol_mangled", .text c.mangled),
    ("symbol_unmangled", .text c.unmangled),
    ("inherited", .bool c.inherited)]

/-- Reads a callable. -/
def read {ν : Type} (d : Dialect ν) : Reader ν CallableRecord :=
  d.record ["address", "symbol_mangled", "symbol_unmangled", "inherited"] fun _ ms => do
    let address ← d.optionalMember ms "address" (ResolvedAddress.read d)
    let mangled ← ms.required "symbol_mangled" d.text?
    let unmangled ← ms.required "symbol_unmangled" d.text?
    let inherited ← ms.required "inherited" d.flag?
    return { address, mangled, unmangled, inherited }

end CallableRecord

namespace StorageRecord

/-- A storage location as a JSON record. -/
def toJson (s : StorageRecord) : Json.Value :=
  .record ([
    ("address", .nullable ResolvedAddress.toJson s.address),
    ("base_address", .nullable ResolvedAddress.toJson s.baseAddress),
    ("offset", .word s.offset),
    ("size", .word s.size),
    ("type", .nullable (fun type => .text type.name) s.type)] ++
    optionalJson "symbol_mangled" .text s.mangled ++
    optionalJson "symbol_unmangled" .text s.unmangled)

/-- Reads a storage location. -/
def read {ν : Type} (d : Dialect ν) : Reader ν StorageRecord :=
  d.record
    ["address", "base_address", "offset", "size", "type", "symbol_mangled", "symbol_unmangled"]
    fun depth ms => do
      let address ← d.optionalMember ms "address" (ResolvedAddress.read d)
      let baseAddress ← d.optionalMember ms "base_address" (ResolvedAddress.read d)
      let offset ← ms.required "offset" d.word?
      let size ← ms.required "size" d.word?
      let type ← d.optionalMember ms "type" (d.choice PrimitiveType.ofName? depth)
      let mangled ← ms.withDefault "symbol_mangled" none (d.nullable d.text?)
      let unmangled ← ms.withDefault "symbol_unmangled" none (d.nullable d.text?)
      return { address, baseAddress, offset, size, type, mangled, unmangled }

end StorageRecord

namespace InputRecord

/-- An input as a JSON record. -/
def toJson (i : InputRecord) : Json.Value :=
  .record ([
    ("name", .text i.name),
    ("description", .text i.description),
    ("data", i.data.toJson)] ++
    optionalJson "callable" CallableRecord.toJson i.callable)

/-- Reads an input. -/
def read {ν : Type} (d : Dialect ν) : Reader ν InputRecord :=
  d.record ["name", "description", "data", "callable"] fun depth ms => do
    let name ← ms.required "name" d.text?
    let description ← ms.required "description" d.text?
    let data ← ms.required "data" (StorageRecord.read d depth)
    let callable ← ms.withDefault "callable" none (d.nullable (CallableRecord.read d depth))
    return { name, description, data, callable }

end InputRecord

namespace ArgumentRecord

/-- An argument as a JSON record. -/
def toJson (a : ArgumentRecord) : Json.Value :=
  .record [
    ("name", .text a.name),
    ("description", .text a.description),
    ("data", a.data.toJson)]

/-- Reads an argument. -/
def read {ν : Type} (d : Dialect ν) : Reader ν ArgumentRecord :=
  d.record ["name", "description", "data"] fun depth ms => do
    let name ← ms.required "name" d.text?
    let description ← ms.required "description" d.text?
    let data ← ms.required "data" (StorageRecord.read d depth)
    return { name, description, data }

end ArgumentRecord

namespace ProcedureRecord

/-- A procedure as a JSON record. -/
def toJson (p : ProcedureRecord) : Json.Value :=
  .record ([
    ("name", .text p.name),
    ("description", .text p.description)] ++
    optionalJson "callable" CallableRecord.toJson p.callable ++
    [("arguments", .array (p.arguments.map ArgumentRecord.toJson))])

/-- Reads a procedure. -/
def read {ν : Type} (d : Dialect ν) : Reader ν ProcedureRecord :=
  d.record ["name", "description", "callable", "arguments"] fun depth ms => do
    let name ← ms.required "name" d.text?
    let description ← ms.withDefault "description" "" d.text?
    let callable ← ms.withDefault "callable" none (d.nullable (CallableRecord.read d depth))
    let arguments ← ms.withDefault "arguments" [] (d.list (ArgumentRecord.read d) depth)
    return { name, description, callable, arguments }

end ProcedureRecord

namespace ModuleRecord

mutual

/-- A module as a JSON record. -/
def toJson : ModuleRecord → Json.Value
  | ⟨name, description, callable, inputs, procedures, modules⟩ =>
    .record ([
      ("name", .text name),
      ("description", .text description)] ++
      optionalJson "callable" CallableRecord.toJson callable ++
      [("inputs", .array (inputs.map InputRecord.toJson)),
        ("procedures", .array (procedures.map ProcedureRecord.toJson)),
        ("modules", .array (listToJson modules))])

/-- Modules as JSON records. -/
def listToJson : List ModuleRecord → List Json.Value
  | [] => []
  | m :: modules => m.toJson :: listToJson modules

end

/-- The members of a module that are no modules. -/
def readWith {ν : Type} (d : Dialect ν) (depth : Nat) (ms : Members ν)
    (modules : List ModuleRecord) : Option ModuleRecord := do
  let name ← ms.required "name" d.text?
  let description ← ms.required "description" d.text?
  let callable ← ms.withDefault "callable" none (d.nullable (CallableRecord.read d depth))
  let inputs ← ms.withDefault "inputs" [] (d.list (InputRecord.read d) depth)
  let procedures ← ms.withDefault "procedures" [] (d.list (ProcedureRecord.read d) depth)
  return { name, description, callable, inputs, procedures, modules }

mutual

/-- Reads a module and all modules below it. -/
def read {ν : Type} (d : Dialect ν) : Reader ν ModuleRecord
  | 0, _ => none
  | depth + 1, v =>
    (d.members? ["name", "description", "callable", "inputs", "procedures", "modules"] v).bind
      fun ms => (ms.withDefault "modules" [] (readList d depth)).bind (readWith d depth ms)

/-- Reads a list of modules. The list takes up one level, and each module in it another. -/
def readList {ν : Type} (d : Dialect ν) : Reader ν (List ModuleRecord)
  | 0, _ => none
  | depth + 1, v => (d.items? v).bind fun items => items.mapM (read d depth)

end

end ModuleRecord

/-- A document as a JSON record. -/
def toJson (document : Document) : Json.Value :=
  .record (optionalJson "checksum" .text document.checksum ++
    [("modules", .array (ModuleRecord.listToJson document.modules))])

/-- Reads a document. -/
def read {ν : Type} (d : Dialect ν) : Reader ν Document :=
  d.record ["checksum", "modules"] fun depth ms => do
    let checksum ← ms.withDefault "checksum" none (d.nullable d.text?)
    let modules ← ms.required "modules" (ModuleRecord.readList d depth)
    return { checksum, modules }

end FirmwareModel.Document
