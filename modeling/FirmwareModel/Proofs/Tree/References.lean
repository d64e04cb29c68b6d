import Mathlib.Data.List.Nodup
import FirmwareModel.Proofs.Object.Spelling
import FirmwareModel.Proofs.Tree.Linking

/-!
# The last reference of an entity

Of the records that refer from a pointer field of an entity to code, each replaces the callable
that the one before gave to the entity. What the records leave behind is therefore the callable of
the last of them, and an entity that no record concerns keeps what it had.
-/

namespace FirmwareModel

/-- Of what is read from items, a further item in front gives the last only if nothing is read from
the others. -/
theorem getLast?_filterMap_cons {α β : Type} (read : α → Option β) (a : α) (items : List α) :
    ((a :: items).filterMap read).getLast? = (items.filterMap read).getLast?.or (read a) := by
  rw [List.filterMap_cons]
  cases read a with
  | none => simp
  | some b => cases hlast : (items.filterMap read).getLast? <;> simp [List.getLast?_cons, hlast]

/-- The symbol of a target in code. -/
def ReferenceTarget.codeSymbol? : ReferenceTarget → Option String
  | code symbol => some symbol
  | data _ _ => none

/-- The symbol and the offset of a target in data. -/
def ReferenceTarget.dataPlace? : ReferenceTarget → Option (String × UInt64)
  | code _ => none
  | data symbol offset => some (symbol, offset)

/-- What a record tells about its target, if it refers from a pointer field of an entity. -/
def RelocationRecord.reference? {α : Type} (pick : ReferenceTarget → Option α)
    (sections : SectionSettings) (classified : List ClassifiedSymbol) (path : List String)
    (member : Member) (r : RelocationRecord) : Option α :=
  if ∃ s ∈ classified, s.role.isPointer ∧ s.role.memberAt? path = some member ∧
      s.name.mangled = r.containerSymbol then
    (r.target? sections).bind pick
  else none

/-- What the last of the records that tell something tells about a target of an entity. -/
def lastReference? {α : Type} (pick : ReferenceTarget → Option α) (sections : SectionSettings)
    (classified : List ClassifiedSymbol) (records : List RelocationRecord) (path : List String)
    (member : Member) : Option α :=
  (records.filterMap fun r => r.reference? pick sections classified path member).getLast?

/-- The code symbol that the last of the records with one refers to from an entity. -/
def lastCodeReference? : SectionSettings → List ClassifiedSymbol → List RelocationRecord →
    List String → Member → Option String :=
  lastReference? ReferenceTarget.codeSymbol?

/-- The data symbol and the offset that the last record with one refers to from an entity. -/
def lastDataReference? : SectionSettings → List ClassifiedSymbol → List RelocationRecord →
    List String → Member → Option (String × UInt64) :=
  lastReference? ReferenceTarget.dataPlace?

/-! ## One record -/

section

variable {sections : SectionSettings} {classified : List ClassifiedSymbol} {r : RelocationRecord}
  {path : List String} {member : Member}

/-- When no two symbols are spelled alike, the role of a container is that of any pointer field
with its symbol. -/
theorem pointerRole?_eq_some_iff
    (hnodup : (classified.map fun s => s.name.mangled).Nodup) {role : Role} :
    r.pointerRole? classified = some role ↔
      ∃ s ∈ classified, s.role = role ∧ s.role.isPointer ∧
        s.name.mangled = r.containerSymbol := by
  constructor
  · exact ModuleTree.exists_of_pointerRole?
  · rintro ⟨s, hs, rfl, hpointer, hmangled⟩
    cases hrole : r.pointerRole? classified with
    | none =>
      have hnot := List.find?_eq_none.mp (Option.map_eq_none_iff.mp hrole) s hs
      simp [hpointer, hmangled] at hnot
    | some role =>
      obtain ⟨s', hs', rfl, -, hmangled'⟩ := ModuleTree.exists_of_pointerRole? hrole
      rw [List.inj_on_of_nodup_map hnodup hs' hs (hmangled'.trans hmangled.symm)]

/-- Whether a record concerns an entity is decided by the role of its container. -/
theorem exists_pointer_iff (hnodup : (classified.map fun s => s.name.mangled).Nodup) :
    (∃ s ∈ classified, s.role.isPointer ∧ s.role.memberAt? path = some member ∧
      s.name.mangled = r.containerSymbol) ↔
        (r.pointerRole? classified).bind (fun role => role.memberAt? path) = some member := by
  simp only [Option.bind_eq_some_iff, pointerRole?_eq_some_iff hnodup]
  constructor
  · rintro ⟨s, hs, hpointer, hmember, hmangled⟩
    exact ⟨s.role, ⟨s, hs, rfl, hpointer, hmangled⟩, hmember⟩
  · rintro ⟨_, ⟨s, hs, rfl, hpointer, hmangled⟩, hmember⟩
    exact ⟨s, hs, hpointer, hmember, hmangled⟩

variable {α : Type} (pick : ReferenceTarget → Option α)

/-- The record of a pointer field tells about its target to the entity of the field only. -/
theorem reference?_of_owner? (hnodup : (classified.map fun s => s.name.mangled).Nodup)
    {role : Role} {target : ReferenceTarget} {owner : ModulePath} {other : Member}
    (hrole : r.pointerRole? classified = some role) (htarget : r.target? sections = some target)
    (howner : role.owner? = some (owner, other)) (path : List String) (member : Member) :
    r.reference? pick sections classified path member =
      if path = owner.segments ∧ member = other then pick target else none := by
  simp only [RelocationRecord.reference?, exists_pointer_iff hnodup, hrole, htarget,
    Option.bind_some, Role.memberAt?_eq_some_iff_of_owner? howner]

/-- A record without a pointer field or without a target tells nothing. -/
theorem reference?_eq_none (hnodup : (classified.map fun s => s.name.mangled).Nodup)
    (hnone : r.pointerRole? classified = none ∨ r.target? sections = none)
    (path : List String) (member : Member) :
    r.reference? pick sections classified path member = none := by
  simp only [RelocationRecord.reference?, exists_pointer_iff hnodup]
  rcases hnone with hnone | hnone <;> simp [hnone]

/-- A further record in front counts only if no later one tells anything. -/
theorem lastReference?_cons (r : RelocationRecord) (records : List RelocationRecord)
    (path : List String) (member : Member) :
    lastReference? pick sections classified (r :: records) path member =
      (lastReference? pick sections classified records path member).or
        (r.reference? pick sections classified path member) :=
  getLast?_filterMap_cons _ r records

/-- A pointer gives an entity other than an argument a callable exactly when it leads to code. -/
theorem callableFor?_edit {snapshot : Snapshot} {target : ReferenceTarget} {unmangled : String}
    (hunmangled : snapshot.demangle target.symbol = .ok unmangled)
    (hmember : ∀ procedure name, member ≠ .argument procedure name) :
    (target.edit unmangled).callableFor? member =
      target.codeSymbol?.map snapshot.callable := by
  obtain ⟨rfl, -⟩ := Snapshot.demangle_eq_ok_iff.mp hunmangled
  cases target with
  | data symbol offset => cases member <;> rfl
  | code symbol =>
    cases member with
    | argument procedure name => exact absurd rfl (hmember procedure name)
    | self => rfl
    | input name => rfl
    | procedure name => rfl

namespace ModuleTree

variable {t t' : ModuleTree} {snapshot : Snapshot}

/-- A record replaces the callable of the entity that it concerns if it refers to code, and leaves
all others alone. -/
theorem Holds.callableAt?_link? (h : t.Holds classified)
    (hnodup : (classified.map fun s => s.name.mangled).Nodup) {applied : Bool}
    (hlink : t.link? snapshot sections classified r = .ok (t', applied)) :
    t'.callableAt? path member =
      ((r.reference? ReferenceTarget.codeSymbol? sections classified path member).map
        snapshot.callable).or (t.callableAt? path member) := by
  rcases link?_cases hlink with ⟨rfl, hnone⟩ |
    ⟨role, target, unmangled, owner, other, hrole, htarget, hunmangled, howner, rfl⟩
  · rw [reference?_eq_none _ hnodup hnone]
    rfl
  · obtain ⟨s, hs, rfl, hpointer, -⟩ := exists_of_pointerRole? hrole
    obtain ⟨owner', other', howner', hother⟩ := Role.owner?_of_isPointer hpointer
    obtain ⟨rfl, rfl⟩ := Prod.mk.inj (Option.some.inj (howner.symm.trans howner'))
    obtain ⟨m, hm, -⟩ := h.declares s hs owner other howner
    rw [reference?_of_owner? _ hnodup hrole htarget howner, h.wellFormed.callableAt?_edit hm,
      callableFor?_edit hunmangled hother]
    split <;> rfl

/-! ## All records -/

/-- After all records, the callable of an entity is that of the last reference to code, or the one
that the entity had if there is none. -/
theorem Holds.callableAt?_linkAll (h : t.Holds classified)
    (hnodup : (classified.map fun s => s.name.mangled).Nodup) {records : List RelocationRecord}
    {count : Nat}
    (hlink : ModuleTree.linkAll snapshot sections classified t records = .ok (t', count)) :
    t'.callableAt? path member =
      ((lastCodeReference? sections classified records path member).map snapshot.callable).or
        (t.callableAt? path member) := by
  induction records generalizing t count with
  | nil =>
    obtain ⟨rfl, -⟩ := Prod.mk.inj (Except.ok.inj hlink)
    rfl
  | cons r records ih =>
    obtain ⟨mid, applied, rest, hmid, hrest, -⟩ := linkAll_cons_eq_ok_iff.mp hlink
    rw [ih (h.link? hmid).1 hrest, h.callableAt?_link? hnodup hmid, lastCodeReference?,
      lastReference?_cons, Option.map_or, Option.or_assoc]

end ModuleTree

end

end FirmwareModel
