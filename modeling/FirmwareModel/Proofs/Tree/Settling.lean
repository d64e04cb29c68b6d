import FirmwareModel.Proofs.Memory.Placements
import FirmwareModel.Proofs.Tree.Ancestors
import FirmwareModel.Proofs.Tree.Filling
import FirmwareModel.Tree.Addresses

/-!
# Settling trees

Once records and literals are filled in, a tree is settled in three passes: addresses by the linker
map, arguments by their overlay, and callables that inputs take over. The passes change modules in
place and none of them shows in the outline. Taken together they turn each module into one that
depends on the callables around it only.
-/

namespace FirmwareModel

variable {table : AddressTable} {target : TargetSettings}

/-! ## Modules -/

/-- What settling makes of an input, given the callable that it can take over. -/
def Input.settle (table : AddressTable) (target : TargetSettings) (source : Option Callable)
    (i : Input) : Input :=
  (i.resolve table target).inherit source

/-- What settling makes of a procedure, given what it does to arguments. -/
def Procedure.settle (table : AddressTable) (target : TargetSettings) (f : Argument → Argument)
    (p : Procedure) : Procedure :=
  { p.resolve table target with arguments := p.arguments.map f }

namespace Module

/-- The module whose procedure arguments have all been changed alike. -/
def mapArguments (f : Argument → Argument) (m : Module) : Module :=
  { m with procedures := m.procedures.map fun p => { p with arguments := p.arguments.map f } }

/-- Changing no argument changes nothing. -/
theorem mapArguments_id (m : Module) : m.mapArguments id = m := by
  simp [mapArguments]

/-- The module whose inputs take over a callable. -/
def inherit (source : Option Callable) (m : Module) : Module :=
  { m with inputs := m.inputs.map (Input.inherit source) }

/-- What the three passes make of a module, given what they do to arguments and the callable that
its inputs can take over. -/
def settle (table : AddressTable) (target : TargetSettings) (f : Argument → Argument)
    (source : Option Callable) (m : Module) : Module :=
  ((m.resolve table target).mapArguments f).inherit source

/-- Settling a module settles its inputs one by one. -/
theorem inputs_settle (f : Argument → Argument) (source : Option Callable) (m : Module) :
    (m.settle table target f source).inputs = m.inputs.map (Input.settle table target source) :=
  Table.map_map _ _ _

/-- Settling a module settles its procedures one by one. -/
theorem procedures_settle (f : Argument → Argument) (source : Option Callable) (m : Module) :
    (m.settle table target f source).procedures =
      m.procedures.map (Procedure.settle table target f) := by
  simp only [settle, inherit, mapArguments, resolve, Table.map_map]
  rfl

/-- Settling addresses does not show in the outline of a module. -/
theorem outline_resolve (m : Module) : (m.resolve table target).outline = m.outline := by
  simp only [outline, resolve, Table.map_map]
  rfl

/-- A change of arguments that keeps their names does not show in the outline of a module. -/
theorem outline_mapArguments {f : Argument → Argument} (hf : ∀ a, (f a).name = a.name)
    (m : Module) : (m.mapArguments f).outline = m.outline := by
  have houtline : Argument.outline ∘ f = Argument.outline := by
    funext a
    simp [Argument.outline, hf]
  have hprocedure : Procedure.outline ∘ (fun p => { p with arguments := p.arguments.map f }) =
      Procedure.outline := by
    funext p
    simp only [Function.comp_apply, Procedure.outline, Table.map_map, houtline]
  simp only [outline, mapArguments, Table.map_map, hprocedure]

/-- Taking over callables does not show in the outline of a module. -/
theorem outline_inherit (source : Option Callable) (m : Module) :
    (m.inherit source).outline = m.outline := by
  have houtline : Input.outline ∘ Input.inherit source = Input.outline := by
    funext i
    simp only [Function.comp_apply, Input.inherit]
    split <;> rfl
  simp only [outline, inherit, Table.map_map, houtline]

end Module

/-- An input that declares a callable keeps what becomes of it; one that declares none takes over
what there is to take over. -/
theorem Input.callable_settle {i : Input} (hi : i.updateSuppressed = false)
    (source : Option Callable) :
    (i.settle table target source).callable =
      i.callable.elim (source.map Callable.inheritedCopy)
        fun c => Callable.resolve table target (some c) := by
  cases hcallable : i.callable with
  | none =>
    simp [settle, resolve, inherit, isOrphan, Callable.resolve, Callable.isNoop, hi, hcallable]
  | some c =>
    -- A discarded callable has suppressed the input, so nothing takes its place.
    have horphan : (i.resolve table target).isOrphan = false := by
      cases hresolve : Callable.resolve table target (some c) with
      | none =>
        have hnoop := Callable.resolve_some_eq_none_iff.mp hresolve
        simp [resolve, isOrphan, hcallable, hnoop]
      | some settled => simp [resolve, isOrphan, hcallable, hresolve]
    rw [settle, inherit, if_neg (by simp [horphan])]
    simp [resolve, hcallable]

/-- Taking over a callable leaves the storage of an input alone. -/
theorem Input.data_settle (source : Option Callable) (i : Input) :
    (i.settle table target source).data = i.data.resolve table target := by
  unfold settle inherit
  split <;> rfl

/-- Settling an input keeps its name. -/
theorem Input.name_settle (source : Option Callable) (i : Input) :
    (i.settle table target source).name = i.name := by
  unfold settle inherit
  split <;> rfl

namespace ModuleTree

variable {t t' : ModuleTree}

/-! ## The passes one by one -/

/-- Settling addresses settles those of the module at each path. -/
theorem moduleAt?_resolve (t : ModuleTree) (path : List String) :
    (t.resolve table target).1.moduleAt? path =
      (t.moduleAt? path).map (Module.resolve table target) :=
  moduleAt?_mapModules_const (f := Module.resolve table target) (fun _ => rfl) path

/-- Settling addresses does not show in the outline of a tree. -/
theorem outline_resolve (t : ModuleTree) : (t.resolve table target).1.outline = t.outline :=
  outline_mapModules fun _ m _ => m.outline_resolve

/-- When arguments can be placed, all of them are changed alike, and if there are any, they are put
in the overlay, which lies in data memory. -/
theorem placeArguments_eq_ok (h : t.placeArguments table target = .ok t') :
    ∃ f, t' = t.mapModules (fun _ => Module.mapArguments f) ∧ (∀ a, (f a).name = a.name) ∧
      (t.hasProcedures = true → ∃ p, table.placement? target.argumentBase = some p ∧
        target.ramBase ≤ p.load ∧ f = Argument.place p.symbol (p.load - target.ramBase)) := by
  unfold placeArguments at h
  split at h
  case isTrue hprocedures =>
    cases hplacement : table.placement? target.argumentBase with
    | none => simp [hplacement] at h
    | some p =>
      simp only [hplacement] at h
      split at h
      · cases h
      case isFalse hram =>
        obtain rfl := Except.ok.inj h
        exact ⟨Argument.place p.symbol (p.load - target.ramBase), rfl, fun _ => rfl,
          fun _ => ⟨p, rfl, UInt64.not_lt.mp hram, rfl⟩⟩
  case isFalse hprocedures =>
    obtain rfl := Except.ok.inj h
    refine ⟨id, ?_, fun _ => rfl, fun htrue => absurd htrue hprocedures⟩
    have hmodule : (fun _ : Nat => Module.mapArguments id) = fun _ m => m := by
      funext _ m
      exact Module.mapArguments_id m
    rw [hmodule, mapModules_id]

/-- Placing arguments does not show in the outline of a tree. -/
theorem outline_placeArguments (h : t.placeArguments table target = .ok t') :
    t'.outline = t.outline := by
  obtain ⟨f, rfl, hname, -⟩ := placeArguments_eq_ok h
  exact outline_mapModules fun _ m _ => m.outline_mapArguments hname

/-- A tree stays well-formed when addresses are settled. -/
theorem WellFormed.resolve (h : t.WellFormed) : (t.resolve table target).1.WellFormed :=
  h.mapModules (f := fun _ => Module.resolve table target) fun _ _ => rfl

/-- A tree stays well-formed when arguments are placed. -/
theorem WellFormed.placeArguments (h : t.WellFormed)
    (hplaced : t.placeArguments table target = .ok t') : t'.WellFormed := by
  obtain ⟨f, rfl, -, -⟩ := placeArguments_eq_ok hplaced
  exact h.mapModules (f := fun _ => Module.mapArguments f) fun _ _ => rfl

/-- A tree stays well-formed when inputs take over callables. -/
theorem WellFormed.inherit (h : t.WellFormed) : t.inherit.1.WellFormed :=
  h.mapModules (f := fun id => Module.inherit (t.inheritable? id)) fun _ _ => rfl

/-- The inputs of a module take over the nearest callable at the paths around that module. -/
theorem WellFormed.moduleAt?_inherit (h : t.WellFormed) (path : List String) :
    t.inherit.1.moduleAt? path = (t.moduleAt? path).map
      (Module.inherit (nearestCallable? ((enclosingPaths path).filterMap t.moduleAt?))) := by
  have hinherit : t.inherit.1 = t.mapModules fun id => Module.inherit (t.inheritable? id) := rfl
  rw [hinherit, moduleAt?_mapModules (f := fun id => Module.inherit (t.inheritable? id))
    (fun _ _ => rfl), moduleAt?, findFrom?_eq_join, ← placeAt?, Option.map_bind]
  refine Option.bind_congr fun id hid => ?_
  rw [Option.join_eq_some_iff] at hid
  rw [inheritable?, h.ancestors_eq hid]
  rfl

/-- Taking over callables does not show in the outline of a tree. -/
theorem outline_inherit (t : ModuleTree) : t.inherit.1.outline = t.outline :=
  outline_mapModules fun id m _ => m.outline_inherit (t.inheritable? id)

/-! ## The passes together -/

/-- The callable that inputs of the module at a path can take over: what becomes of the one that
the closest module around them declares. -/
def inheritedAt? (table : AddressTable) (target : TargetSettings) (t : ModuleTree)
    (path : List String) : Option Callable :=
  ((enclosingPaths path).findSome? fun p => t.callableAt? p .self).bind fun c =>
    Callable.resolve table target (some c)

/-- After addresses and arguments, the nearest callable is what becomes of the one declared
closest: if that is discarded, its module is suppressed. -/
theorem Unsettled.nearestCallable?_eq {snapshot : Snapshot} (h : t.Unsettled snapshot)
    (f : Argument → Argument) (paths : List (List String)) :
    nearestCallable? (paths.filterMap
        (t.mapModules fun _ m => (m.resolve table target).mapArguments f).moduleAt?) =
      (paths.findSome? fun p => t.callableAt? p .self).bind fun c =>
        Callable.resolve table target (some c) := by
  induction paths with
  | nil => rfl
  | cons path paths ih =>
    rw [List.filterMap_cons, List.findSome?_cons, moduleAt?_mapModules_const
      (f := fun m => (m.resolve table target).mapArguments f) (fun _ => rfl)]
    cases hm : t.moduleAt? path with
    | none => simpa [callableAt?, hm] using ih
    | some m =>
      have hcallableAt : t.callableAt? path .self = m.callable := by
        simp [callableAt?, hm, Module.callable?]
      have hunsuppressed := (h.moduleAt? hm).unsuppressed
      rw [hcallableAt, Option.map_some, nearestCallable?]
      cases hcallable : m.callable with
      | none =>
        simpa [Module.mapArguments, Module.resolve, Callable.resolve, Callable.isNoop, hcallable,
          hunsuppressed] using ih
      | some c =>
        cases hresolve : Callable.resolve table target (some c) with
        | none =>
          have hnoop := Callable.resolve_some_eq_none_iff.mp hresolve
          simp [Module.mapArguments, Module.resolve, hcallable, hresolve, hnoop]
        | some settled => simp [Module.mapArguments, Module.resolve, hcallable, hresolve]

/-- A tree with a procedure in one of its modules has procedures. -/
theorem hasProcedures_of_module? {id : Nat} {m : Module} {p : Procedure}
    (hm : t.module? id = some m) (hp : p ∈ m.procedures.values) : t.hasProcedures = true := by
  have hlength : 0 < m.procedures.values.length := List.length_pos_of_mem hp
  rw [Table.values, List.length_map] at hlength
  exact hasProcedures_iff.mpr ⟨id, m, hm, Nat.ne_of_gt hlength⟩

/-- What settling makes of a tree, given what it does to arguments: each module is settled for
itself, and arguments, if there are any, lie in an overlay in data memory. -/
structure SettledFrom (table : AddressTable) (target : TargetSettings) (f : Argument → Argument)
    (t t' : ModuleTree) : Prop where
  wellFormed : t'.WellFormed
  outline : t'.outline = t.outline
  moduleAt? : ∀ path, t'.moduleAt? path =
    (t.moduleAt? path).map (Module.settle table target f (t.inheritedAt? table target path))
  placement : ∀ path m, t.moduleAt? path = some m → m.procedures.values ≠ [] →
    ∃ p, table.placement? target.argumentBase = some p ∧ target.ramBase ≤ p.load ∧
      f = Argument.place p.symbol (p.load - target.ramBase)

/-- The three passes together settle a tree of which nothing has been settled. -/
theorem WellFormed.settledFrom {snapshot : Snapshot} (h : t.WellFormed)
    (hunsettled : t.Unsettled snapshot)
    (hplaced : (t.resolve table target).1.placeArguments table target = .ok t') :
    ∃ f, SettledFrom table target f t t'.inherit.1 := by
  obtain ⟨f, heq, -, hplacement⟩ := placeArguments_eq_ok hplaced
  have htree : t' = t.mapModules fun _ m => (m.resolve table target).mapArguments f := by
    rw [heq, ModuleTree.resolve, mapModules_mapModules]
  have houtline : t'.outline = t.outline :=
    (outline_placeArguments hplaced).trans (outline_resolve t)
  subst htree
  have hwellFormed := h.mapModules (f := fun _ m => (m.resolve table target).mapArguments f)
    fun _ _ => rfl
  refine ⟨f, hwellFormed.inherit, (outline_inherit _).trans houtline, fun path => ?_, ?_⟩
  · rw [hwellFormed.moduleAt?_inherit, hunsettled.nearestCallable?_eq, moduleAt?_mapModules_const
      (f := fun m => (m.resolve table target).mapArguments f) (fun _ => rfl), Option.map_map]
    rfl
  · intro path m hm hne
    apply hplacement
    obtain ⟨p, hp⟩ := List.exists_mem_of_ne_nil _ hne
    have hresolved : (t.resolve table target).1.moduleAt? path = some (m.resolve table target) := by
      rw [moduleAt?_resolve, hm, Option.map_some]
    obtain ⟨id, -, hid⟩ := moduleAt?_eq_some_iff.mp hresolved
    refine hasProcedures_of_module? hid (p := p.resolve table target) ?_
    simpa [Module.resolve] using ⟨p, hp, rfl⟩

end ModuleTree

end FirmwareModel
