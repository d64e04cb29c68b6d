import FirmwareModel.Document.Basic
import FirmwareModel.Fault

/-!
# Looking up entities in documents

Host tools name modules and their members by qualified names such as
`LEDControl::Effects::brightness`. Of siblings with one name, the first counts.
-/

namespace FirmwareModel.Document

open FirmwareModel.Text

/-- The module at the end of a path of names, starting among the given modules. -/
def moduleAt? (modules : List ModuleRecord) : List String → Option ModuleRecord
  | [] => none
  | [name] => modules.find? fun m => m.name = name
  | name :: names =>
    (modules.find? fun m => m.name = name).bind fun m => moduleAt? m.modules names

/-- The module at a path of names. -/
def moduleAt (document : Document) (path : List String) : Except Fault ModuleRecord :=
  match moduleAt? document.modules path with
  | some m => .ok m
  | none => .error (.noModule path)

/-- The module with a qualified name. -/
def findModule (document : Document) (name : String) : Except Fault ModuleRecord :=
  document.moduleAt (segments name)

/-- The module path and the last segment of a qualified name of a member. -/
def splitMember (kind : EntityKind) (name : String) : Except Fault (List String × String) :=
  let parts := segments name
  if parts.length < 2 then .error (.unqualifiedMember kind name)
  else .ok (parts.dropLast, parts.getLastD "")

/-- The member with a qualified name, among the members of one kind that its module lists. -/
def findMember {α : Type} (kind : EntityKind) (members : ModuleRecord → List α)
    (nameOf : α → String) (document : Document) (name : String) : Except Fault α := do
  let (path, member) ← splitMember kind name
  let m ← document.moduleAt path
  match (members m).find? fun a => nameOf a = member with
  | some a => return a
  | none => throw (.noMember kind member path)

/-- The input with a qualified name. -/
def findInput (document : Document) (name : String) : Except Fault InputRecord :=
  findMember .input ModuleRecord.inputs InputRecord.name document name

/-- The procedure with a qualified name. -/
def findProcedure (document : Document) (name : String) : Except Fault ProcedureRecord :=
  findMember .procedure ModuleRecord.procedures ProcedureRecord.name document name

end FirmwareModel.Document
