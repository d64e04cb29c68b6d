import FirmwareModel.Proofs.Tree.InPlace

/-!
# Outlines

The outline of a tree is the tree with nothing filled in: it tells which modules, inputs,
procedures and arguments there are, what they are called and in which order they are listed. An
edit of an entity that is there leaves the outline alone; an edit of another lets its name arrive.
-/

namespace FirmwareModel

/-! ## Names of the entities of a module -/

/-- The name of the input that a member is. -/
def Member.inputName? : Member → Option String
  | input name => some name
  | _ => none

/-- The name of the procedure that a member is or belongs to. -/
def Member.procedureName? : Member → Option String
  | procedure name => some name
  | argument owner _ => some owner
  | _ => none

/-- The name of the argument of the given procedure that a member is. -/
def Member.argumentName? (procedure : String) : Member → Option String
  | argument owner name => if owner = procedure then some name else none
  | _ => none

namespace Module

/-- The names of the arguments of a procedure, in order of arrival. -/
def argumentNames (m : Module) (procedure : String) : List String :=
  ((m.procedures.find? procedure).map fun p => p.arguments.keys).getD []

/-- The module has the entity. -/
def Has (m : Module) : Member → Prop
  | .self => True
  | .input name => name ∈ m.inputs.keys
  | .procedure name => name ∈ m.procedures.keys
  | .argument procedure name => name ∈ m.argumentNames procedure

/-- An edit of an input lets its name arrive, and any other edit keeps the names of inputs. -/
theorem keys_inputs_edit (e : Edit) (m : Module) (member : Member) :
    (m.edit e member).inputs.keys =
      member.inputName?.elim m.inputs.keys (arrive m.inputs.keys) := by
  cases member with
  | self => cases e <;> rfl
  | input name => exact Table.keys_upsert _ _ _ _
  | procedure name => rfl
  | argument procedure name => rfl

/-- An edit of a procedure or of an argument lets the name of the procedure arrive, and any other
edit keeps the names of procedures. -/
theorem keys_procedures_edit (e : Edit) (m : Module) (member : Member) :
    (m.edit e member).procedures.keys =
      member.procedureName?.elim m.procedures.keys (arrive m.procedures.keys) := by
  cases member with
  | self => cases e <;> rfl
  | input name => rfl
  | procedure name => exact Table.keys_upsert _ _ _ _
  | argument procedure name => exact Table.keys_upsert _ _ _ _

/-- An edit of a procedure itself leaves its arguments alone. -/
theorem arguments_edit (e : Edit) (p : Procedure) : (p.edit e).arguments = p.arguments := by
  cases e <;> rfl

/-- An edit of an argument lets its name arrive in its procedure, and any other edit keeps the names
of arguments. -/
theorem argumentNames_edit (e : Edit) (m : Module) (member : Member) (procedure : String) :
    (m.edit e member).argumentNames procedure =
      (member.argumentName? procedure).elim (m.argumentNames procedure)
        (arrive (m.argumentNames procedure)) := by
  cases member with
  | self => cases e <;> rfl
  | input name => rfl
  | procedure name =>
    simp only [argumentNames, Module.edit, Table.find?_upsert, Member.argumentName?]
    split
    case isTrue hname =>
      subst hname
      cases m.procedures.find? procedure <;> simp [arguments_edit]
    · rfl
  | argument owner name =>
    simp only [argumentNames, Module.edit, Table.find?_upsert, Member.argumentName?,
      eq_comm (a := owner)]
    split
    case isTrue howner =>
      subst howner
      cases m.procedures.find? procedure <;> simp [Procedure.editArgument, Table.keys_upsert]
    · rfl

end Module

/-! ## Nothing filled in -/

/-- An input of which only the name is kept. -/
def Input.outline (i : Input) : Input :=
  { name := i.name }

/-- An argument of which only the name is kept. -/
def Argument.outline (a : Argument) : Argument :=
  { name := a.name }

/-- A procedure of which only the name and the names of the arguments are kept. -/
def Procedure.outline (p : Procedure) : Procedure :=
  { name := p.name, arguments := p.arguments.map Argument.outline }

/-- A module of which only its place and the names of its entities are kept. -/
def Module.outline (m : Module) : Module :=
  { name := m.name, path := m.path, parent := m.parent, modules := m.modules
    inputs := m.inputs.map Input.outline
    procedures := m.procedures.map Procedure.outline }

/-- The tree with nothing filled in. -/
def ModuleTree.outline (t : ModuleTree) : ModuleTree :=
  t.mapModules fun _ => Module.outline

/-- An edit does not show in the outline of an input. -/
theorem Input.outline_edit (e : Edit) (i : Input) : (i.edit e).outline = i.outline := by
  cases e <;> rfl

/-- An edit does not show in the outline of an argument. -/
theorem Argument.outline_edit (e : Edit) (a : Argument) : (a.edit e).outline = a.outline := by
  cases e <;> rfl

/-- An edit does not show in the outline of a procedure. -/
theorem Procedure.outline_edit (e : Edit) (p : Procedure) : (p.edit e).outline = p.outline := by
  cases e <;> rfl

/-- An edit of an argument that is there does not show in the outline of its procedure. -/
theorem Procedure.outline_editArgument {p : Procedure} {name : String}
    (hname : name ∈ p.arguments.keys) (e : Edit) :
    (p.editArgument name e).outline = p.outline := by
  have harguments : (p.arguments.upsert name { name } (Argument.edit e)).map Argument.outline =
      p.arguments.map Argument.outline := by
    rw [Table.upsert_of_mem hname]
    exact Table.map_modify fun a _ => Argument.outline_edit e a
  simp only [Procedure.outline, editArgument, harguments]

namespace Module

variable {m n : Module}

/-- An edit of an entity that the module has shows nothing in the outline. -/
theorem outline_edit {member : Member} (hmember : m.Has member) (e : Edit) :
    (m.edit e member).outline = m.outline := by
  cases member with
  | self => cases e <;> rfl
  | input name =>
    have hinputs : (m.inputs.upsert name { name } (Input.edit e)).map Input.outline =
        m.inputs.map Input.outline := by
      rw [Table.upsert_of_mem hmember]
      exact Table.map_modify fun i _ => Input.outline_edit e i
    simp only [Module.outline, Module.edit, hinputs]
  | procedure name =>
    have hprocedures : (m.procedures.upsert name { name } (Procedure.edit e)).map
        Procedure.outline = m.procedures.map Procedure.outline := by
      rw [Table.upsert_of_mem hmember]
      exact Table.map_modify fun p _ => Procedure.outline_edit e p
    simp only [Module.outline, Module.edit, hprocedures]
  | argument procedure name =>
    have hfound : procedure ∈ m.procedures.keys := by
      cases hfind : m.procedures.find? procedure with
      | none => simp [Has, argumentNames, hfind] at hmember
      | some p => simp [Table.mem_keys_iff, hfind]
    have hprocedures : (m.procedures.upsert procedure { name := procedure }
        (Procedure.editArgument name e)).map Procedure.outline =
          m.procedures.map Procedure.outline := by
      rw [Table.upsert_of_mem hfound]
      refine Table.map_modify fun p hp => Procedure.outline_editArgument ?_ e
      simpa [Has, argumentNames, hp] using hmember
    simp only [Module.outline, Module.edit, hprocedures]

/-- The outline of a module shows the names of its inputs. -/
@[simp] theorem keys_inputs_outline (m : Module) : m.outline.inputs.keys = m.inputs.keys := by
  simp [outline]

/-- The outline of a module shows the names of its procedures. -/
@[simp] theorem keys_procedures_outline (m : Module) :
    m.outline.procedures.keys = m.procedures.keys := by
  simp [outline]

/-- The outline of a module shows the names of arguments. -/
@[simp] theorem argumentNames_outline (m : Module) (procedure : String) :
    m.outline.argumentNames procedure = m.argumentNames procedure := by
  simp only [argumentNames, outline, Table.find?_map, Option.map_map]
  congr 2
  funext p
  simp [Procedure.outline]

section

variable (h : m.outline = n.outline)

include h

/-- Modules of the same outline have the same names of inputs. -/
theorem keys_inputs_of_outline_eq : m.inputs.keys = n.inputs.keys := by
  rw [← keys_inputs_outline m, h, keys_inputs_outline]

/-- Modules of the same outline have the same names of procedures. -/
theorem keys_procedures_of_outline_eq : m.procedures.keys = n.procedures.keys := by
  rw [← keys_procedures_outline m, h, keys_procedures_outline]

/-- Modules of the same outline have the same names of arguments. -/
theorem argumentNames_of_outline_eq (procedure : String) :
    m.argumentNames procedure = n.argumentNames procedure := by
  rw [← argumentNames_outline m, h, argumentNames_outline]

/-- Modules with one outline have the same entities. -/
theorem has_of_outline_eq {member : Member} (hm : m.Has member) : n.Has member := by
  cases member with
  | self => trivial
  | input name => simpa only [Has, keys_inputs_of_outline_eq h] using hm
  | procedure name => simpa only [Has, keys_procedures_of_outline_eq h] using hm
  | argument procedure name => simpa only [Has, argumentNames_of_outline_eq h] using hm

end

/-- The entities of a module are kept under their own names. -/
structure Keyed (m : Module) : Prop where
  inputs : m.inputs.All fun key i => i.name = key
  procedures : m.procedures.All fun key p =>
    p.name = key ∧ p.arguments.All fun name a => a.name = name

/-- Being kept under their own names shows in the outline. -/
theorem keyed_outline_iff : m.outline.Keyed ↔ m.Keyed := by
  constructor
  · intro h
    constructor
    · intro key i hi
      exact h.inputs key i.outline (by simp [outline, hi])
    · intro key p hp
      obtain ⟨hname, harguments⟩ := h.procedures key p.outline (by simp [outline, hp])
      refine ⟨hname, fun name a ha => ?_⟩
      exact harguments name a.outline (by simp [Procedure.outline, ha])
  · intro h
    constructor
    · exact h.inputs.map fun _ _ hname => hname
    · exact h.procedures.map fun _ _ hp => ⟨hp.1, hp.2.map fun _ _ hname => hname⟩

/-- An edit keeps the entities of a module under their own names. -/
theorem Keyed.edit (h : m.Keyed) (e : Edit) (member : Member) : (m.edit e member).Keyed := by
  cases member with
  | self => cases e <;> exact ⟨h.inputs, h.procedures⟩
  | input name =>
    exact ⟨h.inputs.upsert rfl fun i hi => by cases e <;> exact hi, h.procedures⟩
  | procedure name =>
    refine ⟨h.inputs, h.procedures.upsert ⟨rfl, Table.All.empty⟩ fun p hp => ?_⟩
    cases e <;> exact hp
  | argument procedure name =>
    refine ⟨h.inputs, h.procedures.upsert ⟨rfl, Table.All.empty⟩ fun p hp => ⟨hp.1, ?_⟩⟩
    exact hp.2.upsert rfl fun a ha => by cases e <;> exact ha

end Module

/-! ## Outlines of trees -/

namespace ModuleTree

variable {t u : ModuleTree}

/-- The tree has the entity. -/
def Declares (t : ModuleTree) (path : List String) (member : Member) : Prop :=
  ∃ m, t.moduleAt? path = some m ∧ m.Has member

/-- At each path the outline of a tree has the outline of the module there. -/
theorem moduleAt?_outline (t : ModuleTree) (path : List String) :
    t.outline.moduleAt? path = (t.moduleAt? path).map Module.outline :=
  moduleAt?_mapModules_const (f := Module.outline) (fun _ => rfl) path

/-- The outline of a tree shows the names below each path. -/
theorem childNames_outline (t : ModuleTree) (path : List String) :
    t.outline.childNames path = t.childNames path :=
  childNames_mapModules (f := fun _ => Module.outline) (fun _ _ => rfl) path

/-- A change of modules that shows in none of their outlines does not show in that of the tree. -/
theorem outline_mapModules {f : Nat → Module → Module}
    (h : ∀ id m, t.module? id = some m → (f id m).outline = m.outline) :
    (t.mapModules f).outline = t.outline := by
  rw [outline, mapModules_mapModules, outline]
  exact mapModules_congr h

/-- Trees with one outline have modules of one outline at each path. -/
theorem exists_moduleAt?_of_outline_eq (h : t.outline = u.outline) {path : List String} {m : Module}
    (hm : t.moduleAt? path = some m) :
    ∃ n, u.moduleAt? path = some n ∧ n.outline = m.outline := by
  have hmap : (u.moduleAt? path).map Module.outline = some m.outline := by
    rw [← moduleAt?_outline, ← h, moduleAt?_outline, hm, Option.map_some]
  exact Option.map_eq_some_iff.mp hmap

/-- Trees with one outline have the same entities. -/
theorem declares_of_outline_eq (h : t.outline = u.outline) {path : List String} {member : Member}
    (hdeclares : t.Declares path member) : u.Declares path member := by
  obtain ⟨m, hm, hmember⟩ := hdeclares
  obtain ⟨n, hn, houtline⟩ := exists_moduleAt?_of_outline_eq h hm
  exact ⟨n, hn, Module.has_of_outline_eq houtline.symm hmember⟩

/-- A tree has procedures when one of its modules does. -/
theorem hasProcedures_iff : t.hasProcedures = true ↔
    ∃ id m, t.module? id = some m ∧ m.procedures.size ≠ 0 := by
  rw [hasProcedures, Array.any_eq_true']
  simp only [Array.mem_iff_getElem?, module?, decide_eq_true_eq]
  constructor
  · rintro ⟨m, ⟨id, hid⟩, hsize⟩
    exact ⟨id, m, hid, hsize⟩
  · rintro ⟨id, m, hid, hsize⟩
    exact ⟨m, ⟨id, hid⟩, hsize⟩

/-- Whether there are procedures shows in the outline. -/
theorem hasProcedures_of_outline_eq (h : t.outline = u.outline) :
    t.hasProcedures = u.hasProcedures := by
  have houtline : ∀ t : ModuleTree, t.outline.hasProcedures = true ↔ t.hasProcedures = true := by
    intro t
    simp [hasProcedures_iff, outline, Module.outline, Table.size, Table.map]
  rw [Bool.eq_iff_iff, ← houtline t, h, houtline u]

/-- An edit of an entity that the tree has shows nothing in the outline. -/
theorem outline_edit {path : ModulePath} {member : Member}
    (hdeclares : t.Declares path.segments member) (e : Edit) :
    (t.edit path member e).outline = t.outline := by
  obtain ⟨m, hm, hmember⟩ := hdeclares
  obtain ⟨id, hfind, hplace⟩ := exists_find?_of_moduleAt? hm
  obtain ⟨id', hplace', hid⟩ := moduleAt?_eq_some_iff.mp hm
  obtain rfl : id = id' := Option.some.inj (Option.some.inj (hplace.symm.trans hplace'))
  rw [edit_of_find? hfind]
  refine outline_mapModules fun i m' hm' => ?_
  split
  case isTrue hi =>
    subst hi
    obtain rfl := Option.some.inj (hid.symm.trans hm')
    exact Module.outline_edit hmember e
  · rfl

end ModuleTree

end FirmwareModel
