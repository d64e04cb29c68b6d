import FirmwareModel.Proofs.Extraction.Stages

/-!
# The records of a document

Each record of a document shows an entity of the tree with pointers and literals, as settling has
left it. This tells its callable by the last reference of the entity to code, its storage by the
linker map, and the storage of arguments by the overlay.
-/

namespace FirmwareModel

/-- All callables that the record of a module shows, those of other modules apart. -/
def Document.ModuleRecord.callables (r : ModuleRecord) : List CallableRecord :=
  r.callable.toList ++ r.inputs.filterMap InputRecord.callable ++
    r.procedures.filterMap ProcedureRecord.callable

namespace Extraction.Stages

open Document

variable {settings : Settings} {snapshot : Snapshot} {map : List MapEntry} {x : Extraction}
  (stages : Stages settings snapshot map x)

/-- The code symbol that the last record with one refers to from an entity. -/
def reference? (path : List String) (member : Member) : Option String :=
  lastCodeReference? settings.sections stages.survey.classified snapshot.relocations path member

/-- What becomes of the callable that an entity declares. -/
def declared? (path : List String) (member : Member) : Option Callable :=
  (stages.reference? path member).bind (settledCallable snapshot map settings.target)

/-- What becomes of the callable that is declared closest around the module at a path. -/
def enclosing? (path : List String) : Option Callable :=
  ((enclosingPaths path).findSome? fun p => stages.reference? p .self).bind
    (settledCallable snapshot map settings.target)

/-- What becomes of a reference to code is what becomes of the callable of its symbol. -/
theorem resolve_reference (reference : Option String) :
    Callable.resolve stages.table settings.target (reference.map snapshot.callable) =
      reference.bind (settledCallable snapshot map settings.target) := by
  cases reference with
  | none => rfl
  | some symbol => exact Callable.resolve_callable stages.tabled symbol

/-- The callable of an entity with pointers filled in is that of its reference. -/
theorem callable?_filled {path : List String} {m : Module}
    (hm : stages.filled.tree.moduleAt? path = some m) (member : Member) :
    m.callable? member = (stages.reference? path member).map snapshot.callable := by
  rw [reference?, ← stages.callableAt?_filled, ModuleTree.callableAt?, hm, Option.bind_some]

/-- The callable of an entity with pointers filled in becomes the one that it declares. -/
theorem resolve_callable? {path : List String} {m : Module}
    (hm : stages.filled.tree.moduleAt? path = some m) (member : Member) :
    Callable.resolve stages.table settings.target (m.callable? member) =
      stages.declared? path member := by
  rw [stages.callable?_filled hm, stages.resolve_reference, declared?]

/-- What inputs of a module can take over is what the closest module around them declares. -/
theorem inheritedAt?_filled (path : List String) :
    stages.filled.tree.inheritedAt? stages.table settings.target path =
      stages.enclosing? path := by
  have hfind : ((enclosingPaths path).findSome? fun p =>
      stages.filled.tree.callableAt? p .self) =
        ((enclosingPaths path).findSome? fun p => stages.reference? p .self).map
          snapshot.callable := by
    simp only [stages.callableAt?_filled, reference?, List.map_findSome?]
    rfl
  rw [ModuleTree.inheritedAt?, hfind, enclosing?, ← stages.resolve_reference]
  cases (enclosingPaths path).findSome? fun p => stages.reference? p .self <;> rfl

/-! ## Listed records -/

/-- A listed record shows the module at its path, as settling has left it. Its arguments lie in the
overlay. -/
structure Shows (path : List String) (r : ModuleRecord) (m : Module) (f : Argument → Argument) :
    Prop where
  moduleAt? : stages.filled.tree.moduleAt? path = some m
  keyed : m.Keyed
  unsettled : m.Unsettled snapshot
  record_eq : r = .ofModule
    (m.settle stages.table settings.target f (stages.enclosing? path)) r.modules
  placement : m.procedures.values ≠ [] →
    ∃ p, stages.table.placement? settings.target.argumentBase = some p ∧
      settings.target.ramBase ≤ p.load ∧
      f = Argument.place p.symbol (p.load - settings.target.ramBase)

/-- Every listed record shows a module of the tree. -/
theorem exists_shows {path : List String} {r : ModuleRecord}
    (hr : (path, r) ∈ x.document.listing) : ∃ m f, stages.Shows path r m f := by
  obtain ⟨f, hsettled⟩ := stages.exists_settledFrom
  rw [stages.document_eq] at hr
  obtain ⟨n, hn, hrecord⟩ := hsettled.wellFormed.exists_moduleAt?_of_mem_listing hr
  rw [hsettled.moduleAt?, stages.inheritedAt?_filled, Option.map_eq_some_iff] at hn
  obtain ⟨m, hm, rfl⟩ := hn
  have houtline : stages.filled.tree.outline = (ModuleTree.ofSurvey stages.survey).outline :=
    stages.filledFrom.outline.trans stages.outline_linked
  exact ⟨m, f, hm, stages.builtFrom.keyed_of_outline_eq houtline hm,
    stages.filledFrom.unsettled.moduleAt? hm, hrecord, hsettled.placement path m hm⟩

namespace Shows

variable {stages} {path : List String} {r : ModuleRecord} {m : Module} {f : Argument → Argument}
  (h : stages.Shows path r m f)

include h

/-- The record of a module shows what becomes of its reference. -/
theorem callable_eq : r.callable = (stages.declared? path .self).map .ofCallable := by
  rw [h.record_eq, ← stages.resolve_callable? h.moduleAt? .self]
  rfl

/-- Every procedure of a record shows a procedure of the module. -/
theorem exists_procedure {p : ProcedureRecord} (hp : p ∈ r.procedures) :
    ∃ procedure ∈ m.procedures.values,
      p = .ofProcedure (procedure.settle stages.table settings.target f) ∧
      m.procedures.find? p.name = some procedure := by
  rw [h.record_eq, ModuleRecord.ofModule, Module.procedures_settle, Table.values_map] at hp
  obtain ⟨_, hsettled, rfl⟩ := List.mem_map.mp hp
  obtain ⟨procedure, hprocedure, rfl⟩ := List.mem_map.mp hsettled
  obtain ⟨key, hfind⟩ := Table.mem_values_iff.mp hprocedure
  obtain ⟨rfl, -⟩ := h.keyed.procedures key procedure hfind
  exact ⟨procedure, hprocedure, rfl, hfind⟩

/-- Every input of a record shows an input of the module. -/
theorem exists_input {i : InputRecord} (hi : i ∈ r.inputs) :
    ∃ input, i = .ofInput (input.settle stages.table settings.target (stages.enclosing? path)) ∧
      m.inputs.find? i.name = some input := by
  rw [h.record_eq, ModuleRecord.ofModule, Module.inputs_settle, Table.values_map] at hi
  obtain ⟨_, hsettled, rfl⟩ := List.mem_map.mp hi
  obtain ⟨input, hinput, rfl⟩ := List.mem_map.mp hsettled
  obtain ⟨key, hfind⟩ := Table.mem_values_iff.mp hinput
  obtain rfl := h.keyed.inputs key input hfind
  refine ⟨input, rfl, ?_⟩
  rw [InputRecord.ofInput, Input.name_settle]
  exact hfind

end Shows

/-- The callable of a listed module is what becomes of the one that it declares. -/
theorem callable_of_mem_listing {path : List String} {r : ModuleRecord}
    (hr : (path, r) ∈ x.document.listing) :
    r.callable = (stages.declared? path .self).map .ofCallable := by
  obtain ⟨m, f, hshows⟩ := stages.exists_shows hr
  exact hshows.callable_eq

/-- The callable of a listed procedure is what becomes of the one that it declares. -/
theorem callable_of_mem_procedures {path : List String} {r : ModuleRecord}
    (hr : (path, r) ∈ x.document.listing) {p : ProcedureRecord} (hp : p ∈ r.procedures) :
    p.callable = (stages.declared? path (.procedure p.name)).map .ofCallable := by
  obtain ⟨m, f, hshows⟩ := stages.exists_shows hr
  obtain ⟨procedure, -, heq, hfind⟩ := hshows.exists_procedure hp
  have hcallable := stages.resolve_callable? hshows.moduleAt? (.procedure p.name)
  rw [Module.callable?, hfind] at hcallable
  rw [← hcallable, heq]
  rfl

/-- The callable of a listed input is what becomes of the one that it declares, or a copy of what
becomes of the one declared closest around it if it declares none. -/
theorem callable_of_mem_inputs {path : List String} {r : ModuleRecord}
    (hr : (path, r) ∈ x.document.listing) {i : InputRecord} (hi : i ∈ r.inputs) :
    i.callable = ((stages.reference? path (.input i.name)).elim
      ((stages.enclosing? path).map Callable.inheritedCopy)
        (settledCallable snapshot map settings.target)).map .ofCallable := by
  obtain ⟨m, f, hshows⟩ := stages.exists_shows hr
  obtain ⟨input, heq, hfind⟩ := hshows.exists_input hi
  have hunsuppressed := (hshows.unsettled.inputs i.name input hfind).1
  have hcallable : input.callable =
      (stages.reference? path (.input i.name)).map snapshot.callable := by
    rw [← stages.callable?_filled hshows.moduleAt?, Module.callable?, hfind, Option.bind_some]
  have hrecord : i.callable = (input.settle stages.table settings.target
      (stages.enclosing? path)).callable.map .ofCallable := by
    rw [heq]
    rfl
  rw [hrecord, Input.callable_settle hunsuppressed, hcallable]
  cases stages.reference? path (.input i.name) with
  | none => rfl
  | some symbol => exact congrArg _ (Callable.resolve_callable stages.tabled symbol)

include stages in
/-- Every callable of a document is a settled one, as declared or taken over. -/
theorem exists_settledCallable_of_mem_callables {path : List String} {r : ModuleRecord}
    (hr : (path, r) ∈ x.document.listing) {c : CallableRecord} (hc : c ∈ r.callables) :
    ∃ symbol settled, settledCallable snapshot map settings.target symbol = some settled ∧
      (c = .ofCallable settled ∨ c = .ofCallable settled.inheritedCopy) := by
  have hdeclared : ∀ {member : Member}, c ∈ (stages.declared? path member).map
      CallableRecord.ofCallable → ∃ symbol settled,
        settledCallable snapshot map settings.target symbol = some settled ∧
          (c = .ofCallable settled ∨ c = .ofCallable settled.inheritedCopy) := by
    intro member hmem
    obtain ⟨settled, hsettled, rfl⟩ := Option.map_eq_some_iff.mp hmem
    obtain ⟨symbol, -, hsymbol⟩ := Option.bind_eq_some_iff.mp hsettled
    exact ⟨symbol, settled, hsymbol, Or.inl rfl⟩
  rw [ModuleRecord.callables, List.mem_append, List.mem_append] at hc
  rcases hc with (hmodule | hinput) | hprocedure
  · rw [Option.mem_toList, stages.callable_of_mem_listing hr] at hmodule
    exact hdeclared hmodule
  · obtain ⟨i, hi, hcallable⟩ := List.mem_filterMap.mp hinput
    rw [stages.callable_of_mem_inputs hr hi] at hcallable
    obtain ⟨settled, hsettled, rfl⟩ := Option.map_eq_some_iff.mp hcallable
    cases hreference : stages.reference? path (.input i.name) with
    | some symbol =>
      rw [hreference, Option.elim_some] at hsettled
      exact ⟨symbol, settled, hsettled, Or.inl rfl⟩
    | none =>
      rw [hreference, Option.elim_none] at hsettled
      obtain ⟨source, hsource, rfl⟩ := Option.map_eq_some_iff.mp hsettled
      obtain ⟨symbol, -, hsymbol⟩ := Option.bind_eq_some_iff.mp hsource
      exact ⟨symbol, source, hsymbol, Or.inr rfl⟩
  · obtain ⟨p, hp, hcallable⟩ := List.mem_filterMap.mp hprocedure
    rw [stages.callable_of_mem_procedures hr hp] at hcallable
    exact hdeclared hcallable

/-! ## Storage -/

/-- The storage of a listed input is settled from one in the spelling of the snapshot. -/
theorem exists_storage_of_mem_inputs {path : List String} {r : ModuleRecord}
    (hr : (path, r) ∈ x.document.listing) {i : InputRecord} (hi : i ∈ r.inputs) :
    ∃ s : Storage, s.Spelled snapshot ∧
      i.data = .ofStorage (s.resolve stages.table settings.target) := by
  obtain ⟨m, f, hshows⟩ := stages.exists_shows hr
  obtain ⟨input, heq, hfind⟩ := hshows.exists_input hi
  refine ⟨input.data, (hshows.unsettled.inputs i.name input hfind).2, ?_⟩
  rw [heq, ← input.data_settle (stages.enclosing? path)]
  rfl

/-- The storage of a listed argument lies in the overlay of all arguments. -/
theorem exists_placement_of_mem_arguments {path : List String} {r : ModuleRecord}
    (hr : (path, r) ∈ x.document.listing) {p : ProcedureRecord} (hp : p ∈ r.procedures)
    {a : ArgumentRecord} (ha : a ∈ p.arguments) :
    ∃ placement, ∃ argument : Argument,
      stages.table.placement? settings.target.argumentBase = some placement ∧
      settings.target.ramBase ≤ placement.load ∧
      a = .ofArgument
        (argument.place placement.symbol (placement.load - settings.target.ramBase)) := by
  obtain ⟨m, f, hshows⟩ := stages.exists_shows hr
  obtain ⟨procedure, hmem, heq, -⟩ := hshows.exists_procedure hp
  obtain ⟨placement, hplacement, hram, rfl⟩ := hshows.placement (List.ne_nil_of_mem hmem)
  rw [heq, ProcedureRecord.ofProcedure, Procedure.settle, Table.values_map, List.map_map] at ha
  obtain ⟨argument, -, rfl⟩ := List.mem_map.mp ha
  exact ⟨placement, argument, hplacement, hram, rfl⟩

end Extraction.Stages

end FirmwareModel
