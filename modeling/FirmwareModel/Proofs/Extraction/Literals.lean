import FirmwareModel.Proofs.Extraction.Diagnostics
import FirmwareModel.Proofs.Object.Literals
import FirmwareModel.Proofs.Tree.Changes
import FirmwareModel.Proofs.Tree.LiteralFields
import FirmwareModel.Proofs.Tree.References

/-!
# What literals leave behind

Literals are filled in one after the other, so a field ends up with the value of the last symbol
that is read for it. What is read is the first section of the symbol and no other, and a symbol
without a section, or with bytes that are no literal, is passed over. Pointers, addresses and marks
are not literals and stay as they are.
-/

namespace FirmwareModel

open FirmwareModel.Text

/-! ## Values for the fields of an entity -/

/-- Values for the literal fields of an entity, as far as they are given. -/
structure LiteralFields where
  description : Option String := none
  size : Option UInt64 := none
  type : Option PrimitiveType := none
  offset : Option UInt64 := none

/-- The later values, and the earlier ones where there is no later one. -/
def LiteralFields.or (later earlier : LiteralFields) : LiteralFields where
  description := later.description.or earlier.description
  size := later.size.or earlier.size
  type := later.type.or earlier.type
  offset := later.offset.or earlier.offset

/-- The field that a literal gives a value for. -/
def Literal.fields : Literal → LiteralFields
  | description text => { description := some text }
  | size bytes => { size := some bytes }
  | type primitive => { type := some primitive }
  | offset bytes => { offset := some bytes }

/-- The input with the given values. Inputs have no offset among their literals. -/
def Input.described (fields : LiteralFields) (i : Input) : Input :=
  { i with
    description := fields.description.getD i.description
    data := { i.data with
      size := fields.size.getD i.data.size
      type := fields.type.or i.data.type } }

/-- The argument with the given values. -/
def Argument.described (fields : LiteralFields) (a : Argument) : Argument :=
  { a with
    description := fields.description.getD a.description
    data := { a.data with
      size := fields.size.getD a.data.size
      type := fields.type.or a.data.type
      offset := fields.offset.getD a.data.offset } }

/-- The procedure with the values that are given for it and for its arguments. -/
def Procedure.described (fields : LiteralFields) (arguments : String → LiteralFields)
    (p : Procedure) : Procedure :=
  { p with
    description := fields.description.getD p.description
    arguments := p.arguments.mapNamed fun name a => a.described (arguments name) }

/-- The module with the values that are given for its entities. -/
def Module.described (fields : Member → LiteralFields) (m : Module) : Module :=
  { m with
    description := (fields .self).description.getD m.description
    inputs := m.inputs.mapNamed fun name i => i.described (fields (.input name))
    procedures := m.procedures.mapNamed fun name p =>
      p.described (fields (.procedure name)) fun argument => fields (.argument name argument) }

section

variable (later earlier : LiteralFields)

/-- Of literals that are filled in twice, the later ones count. -/
theorem Input.described_described (i : Input) :
    (i.described earlier).described later = i.described (later.or earlier) := by
  simp only [described, LiteralFields.or, Option.getD_or, Option.or_assoc]

/-- Of literals that are filled in twice, the later ones count. -/
theorem Argument.described_described (a : Argument) :
    (a.described earlier).described later = a.described (later.or earlier) := by
  simp only [described, LiteralFields.or, Option.getD_or, Option.or_assoc]

/-- Of literals that are filled in twice, the later ones count, for a procedure and for each of its
arguments. -/
theorem Procedure.described_described (later' earlier' : String → LiteralFields) (p : Procedure) :
    (p.described earlier earlier').described later later' =
      p.described (later.or earlier) fun name => (later' name).or (earlier' name) := by
  simp only [described, Table.mapNamed_mapNamed, Argument.described_described, LiteralFields.or,
    Option.getD_or]

end

/-- Values that are given later replace those that were given before. -/
theorem Module.described_described (later earlier : Member → LiteralFields) (m : Module) :
    (m.described earlier).described later =
      m.described fun member => (later member).or (earlier member) := by
  simp only [described, Table.mapNamed_mapNamed, Input.described_described,
    Procedure.described_described, LiteralFields.or, Option.getD_or]

/-- An input without literals stays as it is. -/
theorem Input.described_none (i : Input) : i.described {} = i := rfl

/-- An argument without literals stays as it is. -/
theorem Argument.described_none (a : Argument) : a.described {} = a := rfl

/-- A procedure without literals stays as it is. -/
theorem Procedure.described_none (p : Procedure) : (p.described {} fun _ => {}) = p := by
  simp only [described, Argument.described_none, Table.mapNamed_id, Option.getD_none]

/-- A module without literals stays as it is. -/
theorem Module.described_none (m : Module) : (m.described fun _ => {}) = m := by
  simp only [described, Input.described_none, Procedure.described_none, Table.mapNamed_id,
    Option.getD_none]

/-! ## One literal -/

/-- A literal fills in the field of an input that it is of, unless it is an offset. -/
theorem Input.edit_eq_described {literal : Literal} (h : literal.kind ≠ .offset) (i : Input) :
    i.edit literal.edit = i.described literal.fields := by
  cases literal with
  | offset bytes => exact absurd rfl h
  | description text => rfl
  | size bytes => rfl
  | type primitive => rfl

/-- A literal fills in the field of an argument that it is of. -/
theorem Argument.edit_eq_described (literal : Literal) (a : Argument) :
    a.edit literal.edit = a.described literal.fields := by
  cases literal <;> rfl

/-- A literal fills in the description of a procedure if it is one, and nothing else. -/
theorem Procedure.edit_eq_described (literal : Literal) (p : Procedure) :
    p.edit literal.edit = p.described literal.fields fun _ => {} := by
  simp only [described, Argument.described_none, Table.mapNamed_id]
  cases literal <;> rfl

/-- A literal of an argument that is there fills it in and leaves the others alone. -/
theorem Procedure.editArgument_eq_described (literal : Literal) {p : Procedure} {name : String}
    (hname : name ∈ p.arguments.keys) :
    p.editArgument name literal.edit =
      p.described {} fun other => if other = name then literal.fields else {} := by
  simp only [editArgument, described, Table.upsert_of_mem hname, Table.modify_eq_mapNamed,
    Option.getD_none]
  congr 2
  funext other a
  split
  · exact Argument.edit_eq_described literal a
  · rfl

/-- A literal of an entity that the module has gives a value to that entity and no other. -/
theorem Module.edit_eq_described {literal : Literal} {m : Module} {member : Member}
    (hmember : m.Has member) (hinput : ∀ name, member = .input name → literal.kind ≠ .offset) :
    m.edit literal.edit member =
      m.described fun other => if other = member then literal.fields else {} := by
  cases member with
  | self =>
    simp only [described, reduceCtorEq, if_false, if_true, Input.described_none,
      Procedure.described_none, Table.mapNamed_id]
    cases literal <;> rfl
  | input name =>
    simp only [described, edit, reduceCtorEq, if_false, Procedure.described_none,
      Table.mapNamed_id, Table.upsert_of_mem hmember, Table.modify_eq_mapNamed,
      Member.input.injEq, Option.getD_none]
    congr 2
    funext key i
    split
    · exact Input.edit_eq_described (hinput name rfl) i
    · rfl
  | procedure name =>
    simp only [described, edit, reduceCtorEq, if_false, Input.described_none, Table.mapNamed_id,
      Table.upsert_of_mem hmember, Table.modify_eq_mapNamed, Member.procedure.injEq,
      Option.getD_none]
    congr 2
    funext key p
    split
    · exact Procedure.edit_eq_described literal p
    · exact (Procedure.described_none p).symm
  | argument procedure name =>
    have hprocedure : procedure ∈ m.procedures.keys := by
      cases hfind : m.procedures.find? procedure with
      | none => simp [Has, argumentNames, hfind] at hmember
      | some p => simp [Table.mem_keys_iff, hfind]
    simp only [described, edit, reduceCtorEq, if_false, Input.described_none, Table.mapNamed_id,
      Table.upsert_of_mem hprocedure, Table.modify_eq_mapNamed, Member.argument.injEq,
      Option.getD_none]
    congr 1
    refine Table.mapNamed_congr fun key p hp => ?_
    by_cases hkey : key = procedure
    · subst hkey
      have hname : name ∈ p.arguments.keys := by simpa [Has, argumentNames, hp] using hmember
      simp only [if_true, true_and, Procedure.editArgument_eq_described literal hname]
    · simp only [hkey, false_and, if_false, Procedure.described_none]

/-! ## Symbols that are read -/

/-- What is read from the first section of a symbol, if its field is that of an entity for literals
of a kind. -/
def ClassifiedSymbol.read? {α : Type} (kind : LiteralKind) (read : List UInt8 → Option α)
    (snapshot : Snapshot) (settings : Settings) (path : List String) (member : Member)
    (s : ClassifiedSymbol) : Option α :=
  if s.role.literalKind? = some kind ∧ s.role.memberAt? path = some member then
    (snapshot.payload? s.name.mangled settings.sections.payloadPriority).bind read
  else none

/-- What is read from the last of the symbols from which something is read. -/
def lastRead? {α : Type} (kind : LiteralKind) (read : List UInt8 → Option α) (snapshot : Snapshot)
    (settings : Settings) (classified : List ClassifiedSymbol) (path : List String)
    (member : Member) : Option α :=
  (classified.filterMap fun s => s.read? kind read snapshot settings path member).getLast?

/-- The values that the last symbols for the fields of an entity give them. -/
def lastLiterals (snapshot : Snapshot) (settings : Settings) (classified : List ClassifiedSymbol)
    (path : List String) (member : Member) : LiteralFields where
  description := lastRead? .description (fun bytes => some (Literal.decodeDescription bytes))
    snapshot settings classified path member
  size := lastRead? .size Literal.sizeOf? snapshot settings classified path member
  type := lastRead? .type (Literal.typeOf? settings.target.typeTable) snapshot settings classified
    path member
  offset := lastRead? .offset Literal.offsetOf? snapshot settings classified path member

section

variable {snapshot : Snapshot} {settings : Settings} {path : List String} {member : Member}

/-- The last literal of a single symbol is the one of that symbol. -/
theorem lastRead?_singleton {α : Type} (kind : LiteralKind) (read : List UInt8 → Option α)
    (s : ClassifiedSymbol) :
    lastRead? kind read snapshot settings [s] path member =
      s.read? kind read snapshot settings path member := by
  rw [lastRead?, List.filterMap_cons, List.filterMap_nil]
  cases s.read? kind read snapshot settings path member <;> rfl

/-- A further symbol in front counts only if nothing is read from a later one. -/
theorem lastRead?_cons {α : Type} (kind : LiteralKind) (read : List UInt8 → Option α)
    (s : ClassifiedSymbol) (classified : List ClassifiedSymbol) :
    lastRead? kind read snapshot settings (s :: classified) path member =
      (lastRead? kind read snapshot settings classified path member).or
        (lastRead? kind read snapshot settings [s] path member) := by
  rw [lastRead?_singleton]
  exact getLast?_filterMap_cons _ s classified

/-- The literals of one more symbol in front count where no later ones do. -/
theorem lastLiterals_cons (s : ClassifiedSymbol) (classified : List ClassifiedSymbol) :
    lastLiterals snapshot settings (s :: classified) path member =
      (lastLiterals snapshot settings classified path member).or
        (lastLiterals snapshot settings [s] path member) := by
  simp only [lastLiterals, LiteralFields.or, ← lastRead?_cons]

/-- The literal of a symbol is decoded from its first section. -/
theorem ClassifiedSymbol.literal?_eq (s : ClassifiedSymbol) :
    s.literal? snapshot settings = s.role.literalKind?.bind fun kind =>
      (snapshot.payload? s.name.mangled settings.sections.payloadPriority).bind fun bytes =>
        (Literal.decode settings.target.typeTable kind bytes).toOption := by
  unfold literal?
  congr 1
  funext kind
  rw [Snapshot.literal, Snapshot.findPayload_eq, Snapshot.payload?]
  cases snapshot.firstSection? s.name.mangled settings.sections.payloadPriority with
  | none => rfl
  | some entry =>
    obtain ⟨place, hex⟩ := entry
    cases hbytes : bytesOfHex hex with
    | error why => simp [Snapshot.decodeHex, hbytes, Except.mapError, Except.map, Except.toOption]
    | ok bytes =>
      cases hdecode : Literal.decode settings.target.typeTable kind bytes <;>
        simp [Snapshot.decodeHex, hbytes, hdecode, Except.mapError, Except.map, Except.toOption]

/-- A symbol gives values to the fields of its own entity only, and those of its literal. -/
theorem lastLiterals_singleton (s : ClassifiedSymbol) :
    lastLiterals snapshot settings [s] path member =
      if s.role.memberAt? path = some member then
        (s.literal? snapshot settings).elim {} Literal.fields
      else {} := by
  simp only [lastLiterals, lastRead?_singleton, ClassifiedSymbol.read?,
    ClassifiedSymbol.literal?_eq]
  by_cases hmember : s.role.memberAt? path = some member
  · simp only [hmember, and_true, if_true]
    cases s.role.literalKind? with
    | none => simp
    | some kind =>
      cases snapshot.payload? s.name.mangled settings.sections.payloadPriority with
      | none => simp
      | some bytes =>
        simp only [Option.bind_some, Option.some.injEq]
        cases kind with
        | description => rfl
        | size =>
          rw [Literal.decode, toOption_map, Literal.toOption_decodeSize]
          cases Literal.sizeOf? bytes <;> simp [Literal.fields]
        | type =>
          rw [Literal.decode, toOption_map, Literal.toOption_decodeType]
          cases Literal.typeOf? settings.target.typeTable bytes <;> simp [Literal.fields]
        | offset =>
          rw [Literal.decode, toOption_map, Literal.toOption_decodeOffset]
          cases Literal.offsetOf? bytes <;> simp [Literal.fields]
  · simp [hmember]

end

/-! ## All symbols -/

namespace ModuleTree

variable {snapshot : Snapshot} {settings : Settings} {classified : List ClassifiedSymbol}
  {t : ModuleTree}

/-- Inputs have no field for offsets. -/
theorem kind_ne_offset_of_input {s : ClassifiedSymbol} {literal : Literal} {owner : ModulePath}
    {name : String} (hliteral : s.literal? snapshot settings = some literal)
    (howner : s.role.owner? = some (owner, .input name)) : literal.kind ≠ .offset := by
  intro hkind
  have hfield := Role.literalField?_eq howner (literalKind?_of_literal? hliteral)
  rw [hkind] at hfield
  cases hfield

/-- The literal of a symbol gives its value to the entity of its field. -/
theorem Holds.changedAt_fillLiteral (h : t.Holds classified) {s : ClassifiedSymbol}
    (hs : s ∈ classified) :
    ChangedAt (fun path m => m.described (lastLiterals snapshot settings [s] path)) t
      (t.fillLiteral snapshot settings s) := by
  have hfields : ∀ path, lastLiterals snapshot settings [s] path = fun member =>
      if s.role.memberAt? path = some member then
        (s.literal? snapshot settings).elim {} Literal.fields
      else {} := fun path => funext fun member => lastLiterals_singleton s
  simp only [hfields]
  unfold ModuleTree.fillLiteral
  cases hliteral : s.literal? snapshot settings with
  | none =>
    refine h.wellFormed.changedAt_refl.congr fun path _ m _ _ => ?_
    simp only [Option.elim_none, ite_self, Module.described_none]
  | some literal =>
    have hsome : s.role.owner?.isSome := Role.isSome_owner?_of_isLiteral <| by
      rw [Role.isLiteral, literalKind?_of_literal? hliteral]
      rfl
    obtain ⟨⟨owner, other⟩, howner⟩ := Option.isSome_iff_exists.mp hsome
    obtain ⟨n, hn, hother⟩ := h.declares s hs owner other howner
    have hinput : ∀ name, other = .input name → literal.kind ≠ .offset := by
      rintro name rfl
      exact kind_ne_offset_of_input hliteral howner
    simp only [Option.elim_some, editOwner, howner, Role.memberAt?_eq_some_iff_of_owner? howner]
    refine h.wellFormed.changedAt_edit_of_eq hn ?_ fun place hplace m => ?_
    · simp only [true_and, Module.edit_eq_described hother hinput]
    · simp only [hplace, false_and, if_false, Module.described_none]

/-- All literals together leave the last values of each entity. -/
theorem Holds.changedAt_foldl_fillLiteral (h : t.Holds classified)
    {items : List ClassifiedSymbol} (hitems : ∀ s ∈ items, s ∈ classified) :
    ChangedAt (fun path m => m.described (lastLiterals snapshot settings items path)) t
      (items.foldl (ModuleTree.fillLiteral snapshot settings) t) := by
  induction items generalizing t with
  | nil => exact h.wellFormed.changedAt_refl.congr fun _ _ m _ _ => m.described_none.symm
  | cons s items ih =>
    have hs : s ∈ classified := hitems s List.mem_cons_self
    obtain ⟨hstep, -⟩ : (t.fillLiteral snapshot settings s).Holds classified ∧ _ :=
      h.fillLiteral hs
    have hlater := ih hstep fun other hother => hitems other (List.mem_cons_of_mem s hother)
    refine ((h.changedAt_fillLiteral hs).trans hlater h.wellFormed fun _ _ => rfl).congr ?_
    intro path id m hplace hm
    rw [Module.described_described]
    simp only [← lastLiterals_cons]

/-- Literals are filled into a tree that has the entities of all symbols, and leave the rest of it
alone. Each literal field ends up with what is read from the last symbol of the field from which
something is read, in the first section that it has, and is as it was if there is none. The literals
that are stored and those that are reported are together all symbols of literal fields, and bytes
that are found are no literal exactly when there are too few or they give the index of no type. -/
theorem fillLiterals_fills_last_literals (hholds : t.Holds classified) {filled : LiteralProgress}
    (hfilled : t.fillLiterals snapshot settings classified = .ok filled) :
    ChangedAt (fun path m => m.described (lastLiterals snapshot settings classified path)) t
      filled.tree ∧
    filled.stored + filled.diagnostics.length = classified.countP (fun s => s.role.isLiteral) ∧
    ∀ kind bytes, (∃ fault, Literal.decode settings.target.typeTable kind bytes = .error fault) ↔
      Literal.Undecodable settings.target.typeTable kind bytes := by
  refine ⟨?_, ?_, fun _ _ => Literal.exists_decode_eq_error_iff⟩
  · rw [LiteralProgress.foldlM_eq hfilled]
    exact hholds.changedAt_foldl_fillLiteral fun _ hs => hs
  · simpa using LiteralProgress.foldlM_balance hfilled

/-- Of five symbols, two describe the lamp, and the later one counts. The first section of the type
holds the index of no type, so the one after it, which would do, is not read. -/
theorem lamp_keeps_last_literals :
    let lamp : ModulePath := ⟨"Lamp", by decide⟩
    let description := Role.moduleField lamp .description
    let size := Role.inputField lamp "level" .size
    let type := Role.inputField lamp "level" .type
    let classified : List ClassifiedSymbol := [⟨⟨"a", "a"⟩, description⟩, ⟨⟨"b", "b"⟩, size⟩,
      ⟨⟨"c", "c"⟩, type⟩, ⟨⟨"d", "d"⟩, description⟩, ⟨⟨"e", "e"⟩, size⟩]
    let t := (ModuleTree.empty.editOwner description .keep).editOwner size .keep
    let snapshot := ((((({} : Snapshot).addPayload .readOnly "a" [0x6f, 0x6e, 0]).addPayload
      .readOnly "b" [0x10, 0x01]).addPayload .readOnly "c" [200]).addPayload
      .initialized "c" [0]).addPayload .initialized "d" [0x6f, 0x66, 0x66]
    let read := lastLiterals snapshot {} classified ["Lamp"]
    t.Holds classified ∧ ∃ filled, t.fillLiterals snapshot {} classified = .ok filled ∧
      (read .self).description = some "off" ∧ (read (.input "level")).size = some 272 ∧
      (read (.input "level")).type = none ∧ filled.stored = 3 ∧
      ChangedAt (fun path m => m.described (lastLiterals snapshot {} classified path)) t
        filled.tree ∧
      filled.stored + filled.diagnostics.length = classified.countP (fun s => s.role.isLiteral) ∧
      ∀ kind bytes, (∃ fault, Literal.decode PrimitiveType.defaultTable kind bytes = .error fault) ↔
        Literal.Undecodable PrimitiveType.defaultTable kind bytes := by
  intro lamp description size type classified t snapshot read
  have hreachable : t.Reachable := .editOwner size .keep (.editOwner description .keep .empty)
  have hholds : t.Holds classified := by
    have hkeys : (t.moduleAt? ["Lamp"]).map (fun m => m.inputs.keys) = some ["level"] := by
      decide +kernel
    obtain ⟨m, hm, hinputs⟩ := Option.map_eq_some_iff.mp hkeys
    have hlamp : t.moduleAt? lamp.segments = some m := by
      rw [show lamp.segments = ["Lamp"] by decide, hm]
    have howners : ∀ s ∈ classified,
        s.role.owner? = some (lamp, .self) ∨ s.role.owner? = some (lamp, .input "level") := by
      decide
    refine ⟨hreachable.wellFormed, fun s hs path member howner => ?_⟩
    rcases howners s hs with hself | hlevel
    · obtain ⟨rfl, rfl⟩ := Prod.mk.inj (Option.some.inj (howner.symm.trans hself))
      exact ⟨m, hlamp, trivial⟩
    · obtain ⟨rfl, rfl⟩ := Prod.mk.inj (Option.some.inj (howner.symm.trans hlevel))
      exact ⟨m, hlamp, by simp [Module.Has, hinputs]⟩
  obtain ⟨filled, hfilled, hstored⟩ :
      ∃ filled, t.fillLiterals snapshot {} classified = .ok filled ∧ filled.stored = 3 :=
    exists_ok_of (by decide +kernel)
  exact ⟨hholds, filled, hfilled, by decide +kernel, by decide +kernel, by decide +kernel, hstored,
    fillLiterals_fills_last_literals hholds hfilled⟩

end ModuleTree

end FirmwareModel
