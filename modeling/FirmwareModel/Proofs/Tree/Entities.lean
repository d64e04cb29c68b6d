import FirmwareModel.Proofs.Tree.Linking

/-!
# The entities of a tree

A tree can be looked at entity by entity: at the path of its module and by its place there, each
without the entities that it owns. This view tells neither the indices of modules nor the order of
siblings, and an edit of an entity that the tree has changes the view at that entity only.
-/

namespace FirmwareModel

/-- An entity without the entities that it owns. -/
inductive Entity where
  | module (m : Module)
  | input (i : Input)
  | procedure (p : Procedure)
  | argument (a : Argument)

/-- A module without the entities that it owns and without its place among the modules. -/
def Module.bare (m : Module) : Module :=
  { m with parent := none, modules := .empty, inputs := .empty, procedures := .empty }

/-- A procedure without its arguments. -/
def Procedure.bare (p : Procedure) : Procedure :=
  { p with arguments := .empty }

/-- The entity after an edit. -/
def Entity.edit (e : Edit) : Entity → Entity
  | module m => module (m.edit e .self)
  | input i => input (i.edit e)
  | procedure p => procedure (p.edit e)
  | argument a => argument (a.edit e)

namespace Module

variable {m n : Module}

/-- The entity at a place in a module. -/
def entity? (m : Module) : Member → Option Entity
  | .self => some (.module m.bare)
  | .input name => (m.inputs.find? name).map .input
  | .procedure name => (m.procedures.find? name).map fun p => .procedure p.bare
  | .argument procedure name =>
    (m.procedures.find? procedure).bind fun p => (p.arguments.find? name).map .argument

/-- There is an entity at the places of the entities that a module has. -/
theorem isSome_entity?_iff {member : Member} : (m.entity? member).isSome ↔ m.Has member := by
  cases member with
  | self => simp [entity?, Has]
  | input name => simp [entity?, Has, Table.mem_keys_iff]
  | procedure name => simp [entity?, Has, Table.mem_keys_iff]
  | argument procedure name =>
    cases hfind : m.procedures.find? procedure with
    | none => simp [entity?, Has, argumentNames, hfind]
    | some p => simp [entity?, Has, argumentNames, hfind, Table.mem_keys_iff]

/-- An edit of an entity that the module has changes that entity and no other. -/
theorem entity?_edit {member : Member} (hmember : m.Has member) (e : Edit) (other : Member) :
    (m.edit e member).entity? other =
      if other = member then (m.entity? other).map (Entity.edit e) else m.entity? other := by
  cases member with
  | self => cases other <;> cases e <;> rfl
  | input name =>
    have hinputs : ∀ key, ((m.edit e (.input name)).inputs.find? key) =
        if key = name then (m.inputs.find? key).map (Input.edit e) else m.inputs.find? key := by
      intro key
      rw [Module.edit, Table.upsert_of_mem hmember, Table.find?_modify]
    cases other with
    | input key =>
      simp only [entity?, hinputs, Member.input.injEq]
      split <;> simp [Function.comp_def, Entity.edit]
    | self => rfl
    | procedure key => rfl
    | argument procedure key => rfl
  | procedure name =>
    have hprocedures : ∀ key, ((m.edit e (.procedure name)).procedures.find? key) =
        if key = name then (m.procedures.find? key).map (Procedure.edit e)
        else m.procedures.find? key := by
      intro key
      rw [Module.edit, Table.upsert_of_mem hmember, Table.find?_modify]
    have hbare : ∀ p : Procedure, (p.edit e).bare = p.bare.edit e := by
      intro p
      cases e <;> rfl
    cases other with
    | procedure key =>
      simp only [entity?, hprocedures, Member.procedure.injEq]
      split <;> simp [Function.comp_def, Entity.edit, hbare]
    | argument procedure key =>
      simp only [entity?, hprocedures, reduceCtorEq, if_false]
      split
      · cases m.procedures.find? procedure <;> simp [arguments_edit]
      · rfl
    | self => rfl
    | input key => rfl
  | argument procedure name =>
    obtain ⟨p, hp⟩ : ∃ p, m.procedures.find? procedure = some p := by
      cases hfind : m.procedures.find? procedure with
      | none => simp [Has, argumentNames, hfind] at hmember
      | some p => exact ⟨p, rfl⟩
    have hname : name ∈ p.arguments.keys := by simpa [Has, argumentNames, hp] using hmember
    have hprocedures : ∀ key, ((m.edit e (.argument procedure name)).procedures.find? key) =
        if key = procedure then some (p.editArgument name e) else m.procedures.find? key := by
      intro key
      rw [Module.edit, Table.find?_upsert, hp]
      rfl
    cases other with
    | procedure key =>
      simp only [entity?, hprocedures, reduceCtorEq, if_false]
      split
      case isTrue hkey =>
        subst hkey
        rw [hp]
        rfl
      · rfl
    | argument owner key =>
      simp only [entity?, hprocedures, Member.argument.injEq]
      by_cases howner : owner = procedure
      · subst howner
        rw [if_pos rfl, hp, Option.bind_some, Option.bind_some, Procedure.editArgument,
          Table.upsert_of_mem hname, Table.find?_modify]
        by_cases hkey : key = name <;> simp [hkey, Function.comp_def, Entity.edit]
      · simp [howner]
    | self => rfl
    | input key => rfl

end Module

namespace ModuleTree

variable {t : ModuleTree}

/-- The entity at a place in the module at a path. -/
def entityAt? (t : ModuleTree) (path : List String) (member : Member) : Option Entity :=
  (t.moduleAt? path).bind fun m => m.entity? member

/-- An edit of an entity that the tree has changes that entity and no other. -/
theorem WellFormed.entityAt?_edit (h : t.WellFormed) {path : ModulePath} {member : Member}
    (hdeclares : t.Declares path.segments member) (e : Edit) (place : List String)
    (other : Member) :
    (t.edit path member e).entityAt? place other =
      if place = path.segments ∧ other = member then
        (t.entityAt? place other).map (Entity.edit e)
      else t.entityAt? place other := by
  obtain ⟨m, hm, hmember⟩ := hdeclares
  rw [entityAt?, h.moduleAt?_edit hm, entityAt?]
  by_cases hplace : place = path.segments
  · subst hplace
    simp [hm, Module.entity?_edit hmember]
  · simp [hplace]

end ModuleTree

end FirmwareModel
