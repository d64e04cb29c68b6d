import FirmwareModel.Fault
import FirmwareModel.Object.Snapshot
import FirmwareModel.Tree.Basic

/-!
# Pointers of entities

A pointer field takes its value from the relocation record of its symbol: code becomes the callable
of the entity, data the symbol and the offset of its storage. Records of other symbols, records
with another target and targets that the entity cannot hold are passed over.
-/

namespace FirmwareModel

/-- A symbol with the role that its name tells. -/
structure ClassifiedSymbol where
  name : SymbolName
  role : Role
  deriving DecidableEq, Repr

/-- The change that a pointer to a target makes, given the unmangled spelling of its symbol. -/
def ReferenceTarget.edit (target : ReferenceTarget) (unmangled : String) : Edit :=
  match target with
  | code symbol => .call { symbol := ⟨symbol, unmangled⟩ }
  | data symbol offset => .store fun s => { s with symbol := some ⟨symbol, unmangled⟩, offset }

/-- The role of the pointer field that a record fills in, if it fills in one. -/
def RelocationRecord.pointerRole? (classified : List ClassifiedSymbol) (r : RelocationRecord) :
    Option Role :=
  (classified.find? fun s => s.role.isPointer && s.name.mangled == r.containerSymbol).map
    ClassifiedSymbol.role

namespace ModuleTree

/-- The tree after one record, and whether the record was applied. -/
def link? (snapshot : Snapshot) (sections : SectionSettings) (classified : List ClassifiedSymbol)
    (t : ModuleTree) (r : RelocationRecord) : Except Fault (ModuleTree × Bool) :=
  match r.pointerRole? classified, r.target? sections with
  | some role, some target =>
    match snapshot.demangle target.symbol, role.owner? with
    | .error fault, _ => .error (.artifact fault)
    | .ok _, none => .ok (t, false)
    | .ok unmangled, some (path, member) =>
      let e := target.edit unmangled
      .ok (t.edit path member e, member.kind.accepts e)
  | _, _ => .ok (t, false)

/-- The tree after all records in order, and how many of them were applied. -/
def linkAll (snapshot : Snapshot) (sections : SectionSettings)
    (classified : List ClassifiedSymbol) :
    ModuleTree → List RelocationRecord → Except Fault (ModuleTree × Nat)
  | t, [] => .ok (t, 0)
  | t, r :: records => do
    let (t, applied) ← t.link? snapshot sections classified r
    let (t, count) ← linkAll snapshot sections classified t records
    return (t, count + applied.toNat)

end ModuleTree

end FirmwareModel
