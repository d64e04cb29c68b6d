import FirmwareModel.Proofs.Tree.Entities
import FirmwareModel.Proofs.Tree.Reachable
import FirmwareModel.Proofs.Tree.Settling
import FirmwareModel.Proofs.UpToOrder

/-!
# Trees with the same entities

Trees are alike when they have the same entities at the same places. They can differ in the indices
of modules and in the order of siblings. Editing an entity of both gives trees that are alike, and
so does settling them.
-/

namespace FirmwareModel

variable {table : AddressTable} {target : TargetSettings}

/-! ## Modules -/

/-- The procedures are the same but for the order of their arguments. -/
structure Procedure.Alike (p q : Procedure) : Prop where
  bare : p.bare = q.bare
  arguments : ∀ name, p.arguments.find? name = q.arguments.find? name

/-- The modules have the same entities. -/
def Module.Alike (m n : Module) : Prop :=
  ∀ member, m.entity? member = n.entity? member

namespace Module.Alike

variable {m n : Module} (h : m.Alike n)

include h

/-- Modules that are alike are the same apart from their members. -/
theorem bare_eq : m.bare = n.bare := by
  simpa [entity?] using h .self

/-- Modules that are alike agree in all that they show of themselves. -/
theorem shown_eq : m.name = n.name ∧ m.path = n.path ∧ m.description = n.description ∧
    m.callable = n.callable ∧ m.updateSuppressed = n.updateSuppressed := by
  simpa [bare] using h.bare_eq

/-- Modules that are alike have the same inputs. -/
theorem inputs_eq (name : String) : m.inputs.find? name = n.inputs.find? name :=
  Option.map_injective (fun _ _ => Entity.input.inj) (h (.input name))

/-- Modules that are alike have procedures of the same names, which are alike. -/
theorem procedures_rel (name : String) :
    Option.Rel Procedure.Alike (m.procedures.find? name) (n.procedures.find? name) := by
  have hprocedure := h (.procedure name)
  have hargument := fun key => h (.argument name key)
  simp only [entity?] at hprocedure hargument
  cases hp : m.procedures.find? name with
  | none =>
    cases hq : n.procedures.find? name with
    | none => exact .none
    | some q => simp [hp, hq] at hprocedure
  | some p =>
    cases hq : n.procedures.find? name with
    | none => simp [hp, hq] at hprocedure
    | some q =>
      simp only [hp, hq, Option.map_some, Option.some.injEq, Entity.procedure.injEq,
        Option.bind_some] at hprocedure hargument
      refine .some ⟨hprocedure, fun key => ?_⟩
      exact Option.map_injective (fun _ _ => Entity.argument.inj) (hargument key)

/-- A view of inputs lists the same for both modules, up to order. -/
theorem perm_inputs {α : Type} (f : Input → α) :
    (m.inputs.values.map f).Perm (n.inputs.values.map f) :=
  Table.perm_map_values fun name => by rw [h.inputs_eq]

/-- A view of procedures that does not show the order of arguments lists the same for both modules,
up to order. -/
theorem perm_procedures {α : Type} {f : Procedure → α} (hf : ∀ p q, p.Alike q → f p = f q) :
    (m.procedures.values.map f).Perm (n.procedures.values.map f) := by
  exact Table.perm_map_values fun name => map_eq_of_rel (h.procedures_rel name) hf

/-- Modules that are alike have as many inputs. -/
theorem size_inputs_eq : m.inputs.size = n.inputs.size := by
  simpa [Table.values, Table.size] using (h.perm_inputs id).length_eq

/-- Modules that are alike have as many procedures. -/
theorem size_procedures_eq : m.procedures.size = n.procedures.size := by
  have hperm := h.perm_procedures (f := fun _ => ()) fun _ _ _ => rfl
  simpa [Table.values, Table.size] using hperm.length_eq

end Module.Alike

/-- Procedures that are alike have as many arguments. -/
theorem Procedure.Alike.size_arguments_eq {p q : Procedure} (h : p.Alike q) :
    p.arguments.size = q.arguments.size := by
  have hperm := Table.perm_map_values (f := id) (g := id) fun name =>
    congrArg (Option.map id) (h.arguments name)
  simpa [Table.values, Table.size] using hperm.length_eq

/-! ## Entities through the passes -/

/-- The entity once the linker map is known, arguments apart. -/
def Entity.resolve (table : AddressTable) (target : TargetSettings) : Entity → Entity
  | module m => module (m.resolve table target)
  | input i => input (i.resolve table target)
  | procedure p => procedure (p.resolve table target)
  | argument a => argument a

/-- The entity after a change of all arguments. -/
def Entity.mapArguments (f : Argument → Argument) : Entity → Entity
  | argument a => argument (f a)
  | other => other

/-- The entity after inputs have taken over a callable. -/
def Entity.inherit (source : Option Callable) : Entity → Entity
  | input i => input (i.inherit source)
  | other => other

namespace Module

/-- Settling the addresses of a module settles those of each of its entities. -/
theorem entity?_resolve (m : Module) (member : Member) :
    (m.resolve table target).entity? member = (m.entity? member).map (.resolve table target) := by
  cases member with
  | self => rfl
  | input name => simp [entity?, resolve, Function.comp_def, Entity.resolve]
  | procedure name =>
    simp only [entity?, resolve, Table.find?_map, Option.map_map]
    rfl
  | argument procedure name =>
    simp only [entity?, resolve, Table.find?_map]
    cases m.procedures.find? procedure with
    | none => rfl
    | some p => simp [Procedure.resolve, Function.comp_def, Entity.resolve]

/-- Changing the arguments of a module changes each entity that is one. -/
theorem entity?_mapArguments (f : Argument → Argument) (m : Module) (member : Member) :
    (m.mapArguments f).entity? member = (m.entity? member).map (.mapArguments f) := by
  cases member with
  | self => rfl
  | input name => simp [entity?, mapArguments, Function.comp_def, Entity.mapArguments]
  | procedure name =>
    simp only [entity?, mapArguments, Table.find?_map, Option.map_map]
    rfl
  | argument procedure name =>
    simp only [entity?, mapArguments, Table.find?_map]
    cases m.procedures.find? procedure with
    | none => rfl
    | some p => simp [Function.comp_def, Entity.mapArguments]

/-- When a module takes over a callable, each entity that needs one does. -/
theorem entity?_inherit (source : Option Callable) (m : Module) (member : Member) :
    (m.inherit source).entity? member = (m.entity? member).map (.inherit source) := by
  cases member with
  | self => rfl
  | input name => simp [entity?, inherit, Function.comp_def, Entity.inherit]
  | procedure name => simp [entity?, inherit, Function.comp_def, Entity.inherit]
  | argument procedure name =>
    simp only [entity?, inherit]
    cases m.procedures.find? procedure with
    | none => rfl
    | some p => simp [Function.comp_def, Entity.inherit]

end Module

/-! ## Trees -/

namespace ModuleTree

variable {t u t' u' : ModuleTree}

/-- The trees have the same entities. -/
def Alike (t u : ModuleTree) : Prop :=
  ∀ path member, t.entityAt? path member = u.entityAt? path member

/-- Trees that are alike have modules that are alike at the same paths. -/
theorem Alike.moduleAt?_rel (h : t.Alike u) (path : List String) :
    Option.Rel Module.Alike (t.moduleAt? path) (u.moduleAt? path) := by
  have hpath := h path
  simp only [entityAt?] at hpath
  cases hm : t.moduleAt? path with
  | none =>
    cases hn : u.moduleAt? path with
    | none => exact .none
    | some n => simpa [hm, hn, Module.entity?] using hpath .self
  | some m =>
    cases hn : u.moduleAt? path with
    | none => simpa [hm, hn, Module.entity?] using hpath .self
    | some n =>
      simp only [hm, hn, Option.bind_some] at hpath
      exact .some hpath

/-- Trees are alike when they have modules at the same paths, which are alike. -/
theorem alike_of_moduleAt?_rel
    (h : ∀ path, Option.Rel Module.Alike (t.moduleAt? path) (u.moduleAt? path)) : t.Alike u := by
  intro path member
  have hpath := h path
  rw [entityAt?, entityAt?]
  generalize t.moduleAt? path = m, u.moduleAt? path = n at hpath
  cases hpath with
  | none => rfl
  | some hmn => exact hmn member

/-- Changes of modules that come to a change of each entity for itself keep trees alike. -/
theorem Alike.mapModules (h : t.Alike u) {f : Module → Module} {g : Entity → Entity}
    (hmodules : ∀ m, (f m).modules = m.modules)
    (hentity : ∀ m member, (f m).entity? member = (m.entity? member).map g) :
    (t.mapModules fun _ => f).Alike (u.mapModules fun _ => f) := by
  have hentityAt : ∀ (t : ModuleTree) path member,
      (t.mapModules fun _ => f).entityAt? path member = (t.entityAt? path member).map g := by
    intro t path member
    rw [entityAt?, moduleAt?_mapModules_const hmodules, entityAt?]
    cases t.moduleAt? path <;> simp [hentity]
  intro path member
  rw [hentityAt, hentityAt, h path member]

/-- Trees that are alike stay alike when addresses are settled. -/
theorem Alike.resolve (h : t.Alike u) :
    (t.resolve table target).1.Alike (u.resolve table target).1 :=
  h.mapModules (f := Module.resolve table target) (fun _ => rfl) Module.entity?_resolve

/-- Trees that are alike both have procedures or both have none. -/
theorem Alike.hasProcedures_eq (h : t.Alike u) (ht : t.WellFormed) (hu : u.WellFormed) :
    t.hasProcedures = u.hasProcedures := by
  have hsub : ∀ {t u : ModuleTree}, t.Alike u → t.WellFormed →
      t.hasProcedures = true → u.hasProcedures = true := by
    intro t u h ht hprocedures
    obtain ⟨id, m, hm, hsize⟩ := hasProcedures_iff.mp hprocedures
    obtain ⟨path, -, hplace⟩ := ht.exists_placeAt? hm
    have hrel := h.moduleAt?_rel (path ++ [m.name])
    rw [moduleAt?_eq_some_iff.mpr ⟨id, hplace, hm⟩] at hrel
    cases hn : u.moduleAt? (path ++ [m.name]) with
    | none => simp [hn] at hrel
    | some n =>
      rw [hn] at hrel
      cases hrel with
      | some hmn =>
        obtain ⟨id', -, hid'⟩ := moduleAt?_eq_some_iff.mp hn
        exact hasProcedures_iff.mpr ⟨id', n, hid', hmn.size_procedures_eq ▸ hsize⟩
  rw [Bool.eq_iff_iff]
  exact ⟨hsub h ht, hsub (fun path member => (h path member).symm) hu⟩

/-- Arguments are placed alike in trees that are alike. -/
theorem Alike.placeArguments (h : t.Alike u) (hprocedures : t.hasProcedures = u.hasProcedures)
    (ht' : t.placeArguments table target = .ok t') (hu' : u.placeArguments table target = .ok u') :
    t'.Alike u' := by
  cases hu : u.hasProcedures with
  | false =>
    rw [hu] at hprocedures
    simp only [ModuleTree.placeArguments, hu, hprocedures, Bool.false_eq_true, if_false] at ht' hu'
    obtain rfl := Except.ok.inj ht'
    obtain rfl := Except.ok.inj hu'
    exact h
  | true =>
    rw [hu] at hprocedures
    simp only [ModuleTree.placeArguments, hu, hprocedures, if_true] at ht' hu'
    cases hplacement : table.placement? target.argumentBase with
    | none => simp [hplacement] at ht'
    | some p =>
      simp only [hplacement] at ht' hu'
      split at ht'
      · cases ht'
      case isFalse hram =>
        rw [if_neg hram] at hu'
        obtain rfl := Except.ok.inj ht'
        obtain rfl := Except.ok.inj hu'
        exact h.mapModules (f := Module.placeArguments p.symbol (p.load - target.ramBase))
          (fun _ => rfl) (Module.entity?_mapArguments _)

/-- What can be taken over is told by the entities. -/
theorem Alike.nearestCallable?_eq (h : t.Alike u) (paths : List (List String)) :
    nearestCallable? (paths.filterMap t.moduleAt?) =
      nearestCallable? (paths.filterMap u.moduleAt?) := by
  induction paths with
  | nil => rfl
  | cons path paths ih =>
    have hrel := h.moduleAt?_rel path
    rw [List.filterMap_cons, List.filterMap_cons]
    generalize t.moduleAt? path = m, u.moduleAt? path = n at hrel
    cases hrel with
    | none => exact ih
    | some hmn =>
      obtain ⟨-, -, -, hcallable, hsuppressed⟩ := hmn.shown_eq
      simp only [nearestCallable?, hcallable, hsuppressed, ih]

/-- Inputs take over the same callables in trees that are alike. -/
theorem Alike.inherit (h : t.Alike u) (ht : t.WellFormed) (hu : u.WellFormed) :
    t.inherit.1.Alike u.inherit.1 := by
  have hentityAt : ∀ {t : ModuleTree}, t.WellFormed → ∀ path member,
      t.inherit.1.entityAt? path member = (t.entityAt? path member).map
        (.inherit (nearestCallable? ((enclosingPaths path).filterMap t.moduleAt?))) := by
    intro t ht path member
    rw [entityAt?, ht.moduleAt?_inherit, entityAt?]
    cases t.moduleAt? path <;> simp [Module.entity?_inherit]
  intro path member
  rw [hentityAt ht, hentityAt hu, h path member, h.nearestCallable?_eq]

end ModuleTree

end FirmwareModel
