import FirmwareModel.Extraction
import FirmwareModel.Proofs.Tree.LiteralFields
import FirmwareModel.Proofs.Tree.Settling

/-!
# Offsets of arguments

The only number that becomes the offset of an argument is the first byte of a literal. Records of
the object file hold offsets of any size, but they are followed from pointer fields only, and no
argument has one. Every argument is therefore less than 256 bytes behind the start of its overlay,
from the first symbol on until arguments are laid out.
-/

namespace FirmwareModel

/-! ## Edits -/

/-- The offset fits in a byte. -/
def Argument.ByteOffset (a : Argument) : Prop :=
  a.data.offset.toNat ≤ 255

/-- The edit turns an offset that fits in a byte into one that does. -/
def Edit.KeepsByteOffset : Edit → Prop
  | .store change => ∀ s : Storage, s.offset.toNat ≤ 255 → (change s).offset.toNat ≤ 255
  | _ => True

/-- Every offset that bytes spell fits in a byte, and no other literal concerns offsets. -/
theorem Literal.keepsByteOffset_edit {table : List PrimitiveType} {kind : LiteralKind}
    {bytes : List UInt8} {literal : Literal} (h : decode table kind bytes = .ok literal) :
    literal.edit.KeepsByteOffset := by
  have hkind := kind_of_decode h
  cases literal with
  | description text => trivial
  | size count => exact fun s hs => hs
  | type primitive => exact fun s hs => hs
  | offset count =>
    obtain rfl : LiteralKind.offset = kind := hkind
    cases bytes with
    | nil => cases h
    | cons first rest =>
      obtain rfl : first.toUInt64 = count := by
        simpa [decode, decodeOffset, Except.map] using h
      intro s _
      have hbyte : first.toNat < 256 := first.toNat_lt
      have hsame : first.toUInt64.toNat = first.toNat := UInt8.toNat_toUInt64 first
      change first.toUInt64.toNat ≤ 255
      omega

/-! ## Modules -/

namespace Module

/-- The arguments of all procedures. -/
def arguments (m : Module) : List Argument :=
  m.procedures.values.flatMap fun p => p.arguments.values

/-- The offsets of all arguments fit in a byte. -/
def ByteOffsets (m : Module) : Prop :=
  m.procedures.All fun _ p => p.arguments.All fun _ a => a.ByteOffset

variable {m : Module}

/-- An edit keeps offsets within a byte if it does so for locations, or if it is no edit of an
argument. -/
theorem ByteOffsets.edit (h : m.ByteOffsets) {e : Edit} {member : Member}
    (he : e.KeepsByteOffset ∨ ∀ procedure name, member ≠ .argument procedure name) :
    (m.edit e member).ByteOffsets := by
  cases member with
  | self => cases e <;> exact h
  | input name => exact h
  | procedure name =>
    refine h.upsert .empty fun p hp => ?_
    cases e <;> exact hp
  | argument procedure name =>
    have hkeeps : e.KeepsByteOffset := he.resolve_right fun hne => hne procedure name rfl
    refine h.upsert .empty fun p hp => hp.upsert (Nat.zero_le 255) fun a ha => ?_
    cases e with
    | store change => exact hkeeps a.data ha
    | keep => exact ha
    | describe text => exact ha
    | call callable => exact ha

/-- Settling the addresses of a module keeps the offsets of its arguments within a byte. -/
theorem ByteOffsets.resolve (h : m.ByteOffsets) (table : AddressTable) (target : TargetSettings) :
    (m.resolve table target).ByteOffsets :=
  Table.All.map h fun _ _ hp => hp

/-- Where all offsets of a module fit in a byte, that of each argument does. -/
theorem ByteOffsets.of_mem_arguments (h : m.ByteOffsets) {a : Argument} (ha : a ∈ m.arguments) :
    a.ByteOffset := by
  obtain ⟨p, hp, hargument⟩ := List.mem_flatMap.mp ha
  obtain ⟨procedure, hprocedure⟩ := Table.mem_values_iff.mp hp
  obtain ⟨name, hname⟩ := Table.mem_values_iff.mp hargument
  exact h procedure p hprocedure name a hname

/-- Changing the arguments of a module changes them one by one. -/
theorem arguments_mapArguments (f : Argument → Argument) (m : Module) :
    (m.mapArguments f).arguments = m.arguments.map f := by
  simp [arguments, mapArguments, List.flatMap_map, List.map_flatMap]

end Module

/-! ## Trees -/

namespace ModuleTree

/-- The arguments of all modules. -/
def arguments (t : ModuleTree) : List Argument :=
  t.nodes.toList.flatMap Module.arguments

/-- A well-formed tree in which the offsets of all arguments fit in a byte. -/
structure ByteOffsets (t : ModuleTree) : Prop where
  wellFormed : t.WellFormed
  modules : ∀ id m, t.module? id = some m → m.ByteOffsets

variable {t t' : ModuleTree} {snapshot : Snapshot} {settings : Settings}
  {classified : List ClassifiedSymbol}

/-- Every module of a tree has an index. -/
theorem exists_module?_of_mem {m : Module} (hm : m ∈ t.nodes.toList) :
    ∃ id, t.module? id = some m := by
  simpa [module?] using List.mem_iff_getElem?.mp hm

/-- Changing the arguments of all modules changes them one by one. -/
theorem arguments_mapModules (f : Argument → Argument) (t : ModuleTree) :
    (t.mapModules fun _ => Module.mapArguments f).arguments = t.arguments.map f := by
  have hnodes : (t.mapModules fun _ => Module.mapArguments f).nodes.toList =
      t.nodes.toList.map (Module.mapArguments f) := by
    apply List.ext_getElem?
    simp [mapModules]
  simp [arguments, hnodes, List.flatMap_map, List.map_flatMap, Module.arguments_mapArguments]

/-- A tree with an argument has a procedure. -/
theorem hasProcedures_of_mem_arguments {a : Argument} (ha : a ∈ t.arguments) :
    t.hasProcedures = true := by
  obtain ⟨m, hm, hargument⟩ := List.mem_flatMap.mp ha
  obtain ⟨p, hp, -⟩ := List.mem_flatMap.mp hargument
  obtain ⟨id, hid⟩ := exists_module?_of_mem hm
  exact hasProcedures_of_module? hid hp

namespace ByteOffsets

/-- Where all offsets of a tree fit in a byte, that of each argument does. -/
theorem of_mem_arguments (h : t.ByteOffsets) {a : Argument} (ha : a ∈ t.arguments) :
    a.ByteOffset := by
  obtain ⟨m, hm, hargument⟩ := List.mem_flatMap.mp ha
  obtain ⟨id, hid⟩ := exists_module?_of_mem hm
  exact (h.modules id m hid).of_mem_arguments hargument

/-- The tree without modules has no offsets. -/
theorem empty : ByteOffsets .empty :=
  ⟨.empty, fun _ _ hm => by cases hm⟩

/-- Making sure of a path adds no arguments. -/
theorem ensure (h : t.ByteOffsets) (path : ModulePath) : (t.ensure path).1.ByteOffsets :=
  ⟨h.wellFormed.ensure path, h.wellFormed.forall_module_ensure (fun _ _ _ => .empty)
    (fun _ _ hm => hm) h.modules path⟩

/-- An edit keeps offsets within a byte if it does so for locations, or if it is no edit of an
argument. -/
theorem edit (h : t.ByteOffsets) (path : ModulePath) {member : Member} {e : Edit}
    (he : e.KeepsByteOffset ∨ ∀ procedure name, member ≠ .argument procedure name) :
    (t.edit path member e).ByteOffsets := by
  have hgrown := h.ensure path
  rw [edit_eq_mapModules]
  exact ⟨hgrown.wellFormed.mapModules (links_editAt _ e member),
    forall_module_editAt hgrown.modules (fun m hm => hm.edit he) _⟩

/-- An edit that keeps offsets within a byte does so whatever role it is for. -/
theorem editOwner (h : t.ByteOffsets) (role : Role) {e : Edit} (he : e.KeepsByteOffset) :
    (t.editOwner role e).ByteOffsets := by
  unfold ModuleTree.editOwner
  split
  · exact h.edit _ (Or.inl he)
  · exact h

/-- Whatever the survey of the symbols, nothing is stored in the tree that is built from it. -/
theorem ofSurvey (survey : SymbolSurvey) : ByteOffsets (.ofSurvey survey) :=
  List.foldlRecOn survey.classified _
    (List.foldlRecOn survey.modules _ empty fun _ ht path _ => ht.ensure path)
    fun _ ht s _ => ht.editOwner s.role trivial

/-- A record edits the entity of a pointer field, which is no argument. -/
theorem link? (h : t.ByteOffsets) {sections : SectionSettings} {r : RelocationRecord}
    {applied : Bool} (hlink : t.link? snapshot sections classified r = .ok (t', applied)) :
    t'.ByteOffsets := by
  rcases link?_cases hlink with ⟨rfl, -⟩ |
    ⟨role, target, unmangled, path, member, hrole, -, -, howner, rfl⟩
  · exact h
  · obtain ⟨s, -, rfl, hpointer, -⟩ := exists_of_pointerRole? hrole
    obtain ⟨_, _, howner', hmember⟩ := Role.owner?_of_isPointer hpointer
    obtain ⟨rfl, rfl⟩ := Prod.mk.inj (Option.some.inj (howner.symm.trans howner'))
    exact h.edit path (Or.inr hmember)

/-- Whatever offsets the records hold, following them brings none of them to an argument. -/
theorem linkAll (h : t.ByteOffsets) {sections : SectionSettings}
    {records : List RelocationRecord} {count : Nat}
    (hlink : ModuleTree.linkAll snapshot sections classified t records = .ok (t', count)) :
    t'.ByteOffsets := by
  induction records generalizing t count with
  | nil =>
    obtain ⟨rfl, -⟩ := Prod.mk.inj (Except.ok.inj hlink)
    exact h
  | cons r records ih =>
    obtain ⟨mid, applied, rest, hmid, hrest, -⟩ := linkAll_cons_eq_ok_iff.mp hlink
    exact ih (h.link? hmid) hrest

/-- Filling in a literal keeps offsets within a byte. -/
theorem fillLiteral (h : t.ByteOffsets) (s : ClassifiedSymbol) :
    (t.fillLiteral snapshot settings s).ByteOffsets := by
  unfold ModuleTree.fillLiteral
  cases hliteral : s.literal? snapshot settings with
  | none => exact h
  | some literal =>
    obtain ⟨_, _, -, hdecode⟩ := exists_decode_of_literal? hliteral
    exact h.editOwner s.role (Literal.keepsByteOffset_edit hdecode)

/-- Filling in all literals keeps offsets within a byte. -/
theorem fillLiterals (h : t.ByteOffsets) {filled : LiteralProgress}
    (hfilled : t.fillLiterals snapshot settings classified = .ok filled) :
    filled.tree.ByteOffsets := by
  rw [LiteralProgress.foldlM_eq hfilled]
  exact List.foldlRecOn classified _ h fun mid hmid s _ => hmid.fillLiteral s

/-- Settling the addresses of a tree keeps the offsets of all arguments within a byte. -/
theorem resolve (h : t.ByteOffsets) (table : AddressTable) (target : TargetSettings) :
    (t.resolve table target).1.ByteOffsets := by
  refine ⟨h.wellFormed.resolve, fun id m hm => ?_⟩
  obtain ⟨old, hold, rfl⟩ := Option.map_eq_some_iff.mp
    (module?_mapModules t (fun _ => Module.resolve table target) id ▸ hm)
  exact (h.modules id old hold).resolve table target

end ByteOffsets

end ModuleTree

end FirmwareModel
