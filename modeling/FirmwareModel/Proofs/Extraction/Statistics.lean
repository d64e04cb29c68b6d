import FirmwareModel.Proofs.Document.Recount
import FirmwareModel.Proofs.Extraction.Entities
import FirmwareModel.Proofs.Extraction.Records
import FirmwareModel.Proofs.Tree.Tallies

/-!
# The statistics of an extraction

References are counted when addresses are settled, callables that are taken over after that, and
entities at the end. All the same, each number can be recounted in the document.
-/

namespace FirmwareModel

open Document

/-! ## Counting in records -/

namespace Document

/-- All callables of a document, at any depth. -/
def callables (document : Document) : List CallableRecord :=
  document.listing.flatMap fun entry => entry.2.callables

/-- The entities that the record of a module shows and that can refer to code. -/
def ModuleRecord.callers (r : ModuleRecord) : List Member :=
  .self :: (r.inputs.map (fun i => .input i.name) ++ r.procedures.map fun p => .procedure p.name)

/-- All modules, inputs and procedures of a document, each with the path of its module. -/
def callers (document : Document) : List (List String × Member) :=
  document.listing.flatMap fun entry => entry.2.callers.map (Prod.mk entry.1)

/-- The callables of a record are those of the module, of its inputs and of its procedures. -/
theorem ModuleRecord.callables_eq (r : ModuleRecord) : r.callables =
    (r.callable :: (r.inputs.map InputRecord.callable ++
      r.procedures.map ProcedureRecord.callable)).filterMap id := by
  rw [callables]
  cases r.callable <;> simp [List.filterMap_map]

end Document

/-- The record of a settled callable that has not been taken over is not marked as taken over. -/
theorem any_inherited_record {table : AddressTable} {target : TargetSettings}
    {s : Option Callable} (hs : s.any Callable.inherited = false) :
    ((Callable.resolve table target s).map CallableRecord.ofCallable).any
      CallableRecord.inherited = false := by
  rw [Option.any_map]
  exact Callable.any_inherited_resolve hs

/-- The record of a settled callable counts as one that has not been taken over. -/
theorem filter_record {table : AddressTable} {target : TargetSettings} {s : Option Callable}
    (hs : s.any Callable.inherited = false) :
    ((Callable.resolve table target s).map CallableRecord.ofCallable).filter
        (fun c => !c.inherited) =
      (Callable.resolve table target s).map .ofCallable := by
  have hany : ((Callable.resolve table target s).map CallableRecord.ofCallable).any
      CallableRecord.inherited = false :=
    any_inherited_record hs
  cases hrecord : (Callable.resolve table target s).map CallableRecord.ofCallable with
  | none => rfl
  | some c =>
    rw [hrecord, Option.any_some] at hany
    simp [Option.filter, hany]

namespace Extraction

variable {settings : Settings} {snapshot : Snapshot} {map : List MapEntry} {x : Extraction}

namespace Stages

variable {stages : Stages settings snapshot map x}

namespace Shows

variable {path : List String} {r : ModuleRecord} {m : Module} {f : Argument → Argument}
  (h : stages.Shows path r m f)

include h

/-- The slots of a module hold the callables that its entities refer to. -/
theorem slots_eq : m.slots =
    r.callers.map fun member => (stages.reference? path member).map snapshot.callable := by
  simp only [← stages.callable?_filled h.moduleAt?]
  have hinputs : r.inputs.map (fun i => m.callable? (.input i.name)) =
      m.inputs.values.map Input.callable := by
    rw [h.record_eq, ModuleRecord.ofModule, Module.inputs_settle, Table.values_map, List.map_map,
      List.map_map]
    refine List.map_congr_left fun i hi => ?_
    obtain ⟨key, hfind⟩ := Table.mem_values_iff.mp hi
    obtain rfl := h.keyed.inputs key i hfind
    simp [InputRecord.ofInput, Input.name_settle, Module.callable?, hfind]
  have hprocedures : r.procedures.map (fun p => m.callable? (.procedure p.name)) =
      m.procedures.values.map Procedure.callable := by
    rw [h.record_eq, ModuleRecord.ofModule, Module.procedures_settle, Table.values_map,
      List.map_map, List.map_map]
    refine List.map_congr_left fun p hp => ?_
    obtain ⟨key, hfind⟩ := Table.mem_values_iff.mp hp
    obtain ⟨rfl, -⟩ := h.keyed.procedures key p hfind
    simp [ProcedureRecord.ofProcedure, Procedure.settle, Procedure.resolve, Module.callable?,
      hfind]
  rw [ModuleRecord.callers, List.map_cons, List.map_append, List.map_map, List.map_map,
    Module.slots, ← hinputs, ← hprocedures]
  rfl

/-- Before inputs take over callables, none is marked as taken over. -/
theorem own : ∀ s ∈ m.slots, s.any Callable.inherited = false := by
  intro s hs
  rw [h.slots_eq] at hs
  obtain ⟨member, -, rfl⟩ := List.mem_map.mp hs
  cases stages.reference? path member <;> rfl

/-- The callable that a module declares has not been taken over. -/
theorem own_callable : m.callable.any Callable.inherited = false :=
  h.own _ (by simp [Module.slots])

/-- The callable that an input declares has not been taken over. -/
theorem own_input {i : Input} (hi : i ∈ m.inputs.values) :
    i.callable.any Callable.inherited = false :=
  h.own _ (by simpa [Module.slots] using Or.inr (Or.inl ⟨i, hi, rfl⟩))

/-- The callable that a procedure declares has not been taken over. -/
theorem own_procedure {p : Procedure} (hp : p ∈ m.procedures.values) :
    p.callable.any Callable.inherited = false :=
  h.own _ (by simpa [Module.slots] using Or.inr (Or.inr ⟨p, hp, rfl⟩))

/-- The record of a module shows its callable as the linker map settles it. -/
theorem callable_eq_resolve : r.callable =
    (Callable.resolve stages.table settings.target m.callable).map .ofCallable := by
  rw [h.record_eq]
  rfl

/-- The record of a module shows the callables of its inputs as they are settled. -/
theorem map_callable_inputs : r.inputs.map InputRecord.callable =
    m.inputs.values.map fun i => (i.settle stages.table settings.target
      (stages.enclosing? path)).callable.map CallableRecord.ofCallable := by
  rw [h.record_eq, ModuleRecord.ofModule, Module.inputs_settle, Table.values_map, List.map_map,
    List.map_map]
  rfl

/-- The record of a module shows the callables of its procedures as the linker map settles them. -/
theorem map_callable_procedures : r.procedures.map ProcedureRecord.callable =
    m.procedures.values.map fun p =>
      (Callable.resolve stages.table settings.target p.callable).map .ofCallable := by
  rw [h.record_eq, ModuleRecord.ofModule, Module.procedures_settle, Table.values_map, List.map_map,
    List.map_map]
  rfl

/-- The callables of a record that have not been taken over are what becomes of those in the slots
of the module. -/
theorem filter_callables : r.callables.filter (fun c => !c.inherited) =
    (m.slots.filterMap (Callable.resolve stages.table settings.target)).map .ofCallable := by
  have hinputs : (r.inputs.map InputRecord.callable).map (Option.filter fun c => !c.inherited) =
      m.inputs.values.map fun i =>
        (Callable.resolve stages.table settings.target i.callable).map .ofCallable := by
    rw [h.map_callable_inputs, List.map_map]
    refine List.map_congr_left fun i hi => ?_
    obtain ⟨key, hfind⟩ := Table.mem_values_iff.mp hi
    rw [Function.comp_apply, Input.callable_settle (h.unsettled.inputs key i hfind).1]
    have hown := h.own_input hi
    -- An input without a callable of its own shows nothing, or a copy that is marked.
    cases hcallable : i.callable with
    | some c => exact filter_record (hcallable ▸ hown)
    | none => cases stages.enclosing? path <;> rfl
  have hprocedures :
      (r.procedures.map ProcedureRecord.callable).map (Option.filter fun c => !c.inherited) =
        m.procedures.values.map fun p =>
          (Callable.resolve stages.table settings.target p.callable).map .ofCallable := by
    rw [h.map_callable_procedures, List.map_map]
    exact List.map_congr_left fun p hp => filter_record (h.own_procedure hp)
  have hslots : (r.callable :: (r.inputs.map InputRecord.callable ++
        r.procedures.map ProcedureRecord.callable)).map (Option.filter fun c => !c.inherited) =
      m.slots.map fun s => (Callable.resolve stages.table settings.target s).map .ofCallable := by
    rw [List.map_cons, List.map_append, hinputs, hprocedures, h.callable_eq_resolve,
      filter_record h.own_callable, Module.slots, List.map_cons, List.map_append,
      List.map_map, List.map_map]
    rfl
  have hnone := congrArg (List.filterMap id) hslots
  rw [List.filterMap_map, List.filterMap_map] at hnone
  rw [r.callables_eq, List.filter_filterMap, List.map_filterMap]
  exact hnone

/-- The callables of a record that have been taken over belong to inputs. -/
theorem countP_inherited : r.callables.countP CallableRecord.inherited =
    r.inputs.countP fun i => i.callable.any CallableRecord.inherited := by
  have hself : r.callable.any CallableRecord.inherited = false := by
    rw [h.callable_eq_resolve]
    exact any_inherited_record h.own_callable
  have hprocedures : (r.procedures.map ProcedureRecord.callable).countP
      (Option.any CallableRecord.inherited) = 0 := by
    rw [h.map_callable_procedures, List.countP_map]
    refine List.countP_eq_zero.mpr fun p hp => ?_
    rw [Function.comp_apply, any_inherited_record (h.own_procedure hp)]
    exact Bool.false_ne_true
  have hany : ∀ slots : List (Option CallableRecord),
      (slots.filterMap id).countP CallableRecord.inherited =
        slots.countP (Option.any CallableRecord.inherited) := by
    intro slots
    rw [List.countP_filterMap]
    refine List.countP_congr fun s _ => ?_
    cases s <;> simp
  rw [r.callables_eq, hany, List.countP_cons, List.countP_append, hprocedures, hself,
    List.countP_map]
  rfl

/-- Callables in slots are recounted by the addresses of the callables in the record. -/
theorem countP_slots (sort : ResolvedAddress → Bool) :
    (m.slots.countP fun s => (Callable.resolve stages.table settings.target s).any fun c =>
      c.address.any sort) =
    r.callables.countP fun c => !c.inherited && c.address.any sort := by
  have hown := congrArg (List.countP fun c => c.address.any sort) h.filter_callables
  rw [List.countP_filter, List.countP_map, List.countP_filterMap] at hown
  simp only [Bool.and_comm] at hown
  rw [hown]
  refine List.countP_congr fun s _ => ?_
  cases Callable.resolve stages.table settings.target s <;> simp [CallableRecord.ofCallable]

/-- Inputs whose storage is settled in some way are counted alike in the tree and in the record. -/
theorem countP_inputs (sort : ResolvedAddress → Bool) :
    (m.inputs.values.countP fun i =>
      (i.data.resolve stages.table settings.target).address.any sort) =
    r.inputs.countP fun i => i.data.address.any sort := by
  rw [h.record_eq, ModuleRecord.ofModule, Module.inputs_settle, Table.values_map, List.map_map,
    List.countP_map]
  refine List.countP_congr fun i _ => ?_
  rw [Function.comp_apply, Function.comp_apply, InputRecord.ofInput, Input.data_settle]
  rfl

/-- The callables that stand for "no update" are counted alike in the tree and by the references of
the entities that the record shows. -/
theorem countP_isNoop : m.slots.countP (Callable.isNoop settings.target) =
    r.callers.countP fun member => (stages.reference? path member).any fun symbol =>
      snapshot.unmangled symbol = settings.target.noopCallable := by
  rw [h.slots_eq, List.countP_map]
  refine List.countP_congr fun member _ => ?_
  rw [Function.comp_apply]
  cases stages.reference? path member <;> rfl

end Shows

variable (stages)

/-! ## Counting in the document -/

/-- Every module with pointers and literals is shown by a listed record. -/
theorem exists_shows_of_moduleAt? {path : List String} {m : Module}
    (hm : stages.filled.tree.moduleAt? path = some m) :
    ∃ r f, (path, r) ∈ x.document.listing ∧ stages.Shows path r m f := by
  obtain ⟨_, hsettled⟩ := stages.exists_settledFrom
  have hfinished := hsettled.moduleAt? path
  rw [hm, Option.map_some] at hfinished
  obtain ⟨modules, hr⟩ :=
    hsettled.wellFormed.exists_mem_listing_of_moduleAt? stages.checksum hfinished
  rw [← stages.document_eq] at hr
  obtain ⟨n, f, hshows⟩ := stages.exists_shows hr
  obtain rfl := Option.some.inj (hm.symm.trans hshows.moduleAt?)
  exact ⟨_, f, hr, hshows⟩

/-- What is counted at the modules with pointers and literals is counted in the records. -/
theorem sum_filled {f : Module → Nat} {g : List String × ModuleRecord → Nat}
    (hshown : ∀ path r m place, stages.Shows path r m place → f m = g (path, r)) :
    (stages.filled.tree.nodes.toList.map f).sum = (x.document.listing.map g).sum := by
  refine (stages.wellFormed_filled.perm_map_entries stages.listsModules.nodup ?_ ?_).sum_nat
  · intro path m hm
    obtain ⟨r, _, hr, -⟩ := stages.exists_shows_of_moduleAt? hm
    exact List.mem_map_of_mem hr
  · intro entry hentry
    obtain ⟨m, place, hshows⟩ := stages.exists_shows hentry
    exact ⟨m, hshows.moduleAt?, hshown _ _ m place hshows⟩

/-- What is counted at the finished modules is counted in the records. -/
theorem count_finished {f : Module → Nat} {g : List String × ModuleRecord → Nat}
    (hshown : ∀ path r m, (path, r) ∈ x.document.listing → r = .ofModule m r.modules →
      f m = g (path, r)) :
    stages.placed.inherit.1.count f = (x.document.listing.map g).sum := by
  have hwellFormed := stages.wellFormed_inherit
  rw [ModuleTree.count, ← List.sum_eq_foldr]
  refine (hwellFormed.perm_map_entries stages.listsModules.nodup ?_ ?_).sum_nat
  · intro path m hm
    obtain ⟨modules, hmem⟩ := hwellFormed.exists_mem_listing_of_moduleAt? stages.checksum hm
    rw [stages.document_eq]
    exact List.mem_map_of_mem hmem
  · intro entry hentry
    have hrecord := hentry
    rw [stages.document_eq] at hrecord
    obtain ⟨m, hm, heq⟩ := hwellFormed.exists_moduleAt?_of_mem_listing hrecord
    exact ⟨m, hm, hshown _ _ m hentry heq⟩

/-- Callables with an address of some sort are recounted in the document. -/
theorem countP_callables {number : AddressCounts → Nat} {sort : ResolvedAddress → Bool}
    (hnumber : AddressCounts.Tallies stages.table settings.target number
      (fun s => (Callable.resolve stages.table settings.target s).any fun c => c.address.any sort)
      fun _ => false) :
    number x.statistics.addresses =
      x.document.callables.countP fun c => !c.inherited && c.address.any sort := by
  rw [stages.statistics_eq, hnumber.resolve, callables, List.countP_flatMap]
  refine stages.sum_filled fun path r m place hshows => ?_
  rw [hshows.countP_slots, List.countP_false]
  rfl

/-- Inputs with an address of some sort are recounted in the document. -/
theorem countP_data {number : AddressCounts → Nat} {sort : ResolvedAddress → Bool}
    (hnumber : AddressCounts.Tallies stages.table settings.target number (fun _ => false)
      fun s => (s.resolve stages.table settings.target).address.any sort) :
    number x.statistics.addresses =
      x.document.inputs.countP fun i => i.data.address.any sort := by
  rw [stages.statistics_eq, hnumber.resolve, inputs, List.countP_flatMap]
  refine stages.sum_filled fun path r m place hshows => ?_
  rw [hshows.countP_inputs, List.countP_false]
  exact Nat.zero_add _

/-- References to the callable that stands for "no update" are recounted in the document. -/
theorem countP_noop : x.statistics.addresses.noopDiscarded =
    x.document.callers.countP fun caller =>
      (stages.reference? caller.1 caller.2).any fun symbol =>
        snapshot.unmangled symbol = settings.target.noopCallable := by
  rw [stages.statistics_eq, AddressCounts.tallies_noopDiscarded.resolve, callers,
    List.countP_flatMap]
  refine stages.sum_filled fun path r m place hshows => ?_
  rw [hshows.countP_isNoop, List.countP_false, Function.comp_apply, List.countP_map]
  rfl

/-- Once arguments are placed, no input has a callable that is marked as taken over. -/
theorem own_placed (id : Nat) (m : Module) (hm : stages.placed.module? id = some m) :
    ∀ i ∈ m.inputs.values, i.callable.any Callable.inherited = false := by
  obtain ⟨f, hplaced, -, -⟩ := ModuleTree.placeArguments_eq_ok stages.placedAll
  rw [hplaced, ModuleTree.module?_mapModules, ModuleTree.resolve, ModuleTree.module?_mapModules,
    Option.map_map, Option.map_eq_some_iff] at hm
  obtain ⟨n, hn, rfl⟩ := hm
  intro i hi
  have hinputs : i ∈ (n.inputs.map (Input.resolve stages.table settings.target)).values := hi
  rw [Table.values_map] at hinputs
  obtain ⟨input, hinput, rfl⟩ := List.mem_map.mp hinputs
  -- The callable is what becomes of the one before, and that module has a path of its own.
  obtain ⟨path, -, hplace⟩ := stages.wellFormed_filled.exists_placeAt? hn
  obtain ⟨r, _, -, hshows⟩ :=
    stages.exists_shows_of_moduleAt? (ModuleTree.moduleAt?_eq_some_iff.mpr ⟨id, hplace, hn⟩)
  exact Callable.any_inherited_resolve (hshows.own_input hinput)

include stages in
/-- Callables that have been taken over are recounted in the document. -/
theorem countP_inherited : x.statistics.callablesInherited =
    x.document.callables.countP CallableRecord.inherited := by
  rw [stages.statistics_eq, callables, List.countP_flatMap]
  refine (ModuleTree.inherit_snd_eq stages.own_placed).trans ?_
  refine stages.count_finished fun path r m hr hrecord => ?_
  obtain ⟨_, _, hshows⟩ := stages.exists_shows hr
  rw [Function.comp_apply, hshows.countP_inherited, hrecord, ModuleRecord.ofModule, List.countP_map,
    Module.heirCount]
  refine List.countP_congr fun i _ => ?_
  rw [Function.comp_apply, InputRecord.ofInput, Option.any_map]
  rfl

include stages in
/-- The storage of every input is either placed or dropped. -/
theorem countP_placed_add_countP_dropped :
    (x.document.inputs.countP fun i => i.data.address.any ResolvedAddress.isLocated) +
        (x.document.inputs.countP fun i => i.data.address.any ResolvedAddress.isUnexported) =
      x.document.inputs.length := by
  rw [List.length_eq_countP_add_countP fun i : InputRecord =>
    i.data.address.any ResolvedAddress.isLocated]
  refine congrArg _ (List.countP_congr fun i hi => ?_)
  obtain ⟨⟨path, r⟩, hr, hinput⟩ := List.mem_flatMap.mp hi
  obtain ⟨s, -, hdata⟩ := stages.exists_storage_of_mem_inputs hr hinput
  have haddress : i.data.address = (s.resolve stages.table settings.target).address := by
    rw [hdata]
    rfl
  rw [haddress, Storage.any_isUnexported_resolve]
  simp

/-! ## Entities -/

include stages in
/-- The number of modules is that of the listed modules. -/
theorem modules_eq : x.statistics.modules = x.document.listing.length := by
  have hcount := stages.count_finished (f := fun _ => 1) (g := fun _ => 1) fun _ _ _ _ _ => rfl
  rw [stages.statistics_eq]
  simpa [ModuleTree.count, ModuleTree.size, ← List.sum_eq_foldr] using hcount

/-- What every module has as many of as its record is recounted in the document. -/
theorem count_eq_length {α : Type} {f : Module → Nat} (items : ModuleRecord → List α)
    (hitems : ∀ m below, f m = (items (.ofModule m below)).length) :
    stages.placed.inherit.1.count f =
      (x.document.listing.flatMap fun entry => items entry.2).length := by
  rw [List.length_flatMap]
  refine stages.count_finished fun path r m _ hrecord => ?_
  rw [hrecord]
  exact hitems m r.modules

include stages in
/-- The number of inputs is that of the inputs in the document. -/
theorem inputs_eq : x.statistics.inputs = x.document.inputs.length := by
  rw [stages.statistics_eq]
  refine stages.count_eq_length ModuleRecord.inputs fun m below => ?_
  simp [ModuleRecord.ofModule, Table.values, Table.size]

include stages in
/-- The number of procedures is that of the procedures in the document. -/
theorem procedures_eq : x.statistics.procedures = x.document.procedures.length := by
  rw [stages.statistics_eq]
  refine stages.count_eq_length ModuleRecord.procedures fun m below => ?_
  simp [ModuleRecord.ofModule, Table.values, Table.size]

include stages in
/-- The number of arguments is that of the arguments in the document. -/
theorem arguments_eq : x.statistics.arguments = x.document.arguments.length := by
  rw [stages.statistics_eq, arguments, procedures, List.flatMap_assoc]
  refine stages.count_eq_length (fun r => r.procedures.flatMap ProcedureRecord.arguments)
    fun m below => ?_
  rw [List.length_flatMap, ← List.sum_eq_foldr, ModuleRecord.ofModule, List.map_map]
  refine congrArg List.sum (List.map_congr_left fun p _ => ?_)
  simp [ProcedureRecord.ofProcedure, Table.values, Table.size]

end Stages

/-- The statistics of an extraction are a recount of its document. -/
structure Recounts (snapshot : Snapshot) (target : TargetSettings)
    (reference? : List String → Member → Option String) (x : Extraction) : Prop where
  modules : x.statistics.modules = x.document.listing.length
  inputs : x.statistics.inputs = x.document.inputs.length
  procedures : x.statistics.procedures = x.document.procedures.length
  arguments : x.statistics.arguments = x.document.arguments.length
  callablesResolved : x.statistics.addresses.callablesResolved =
    x.document.callables.countP fun c => !c.inherited && c.address.any ResolvedAddress.isLocated
  callablesUnexported : x.statistics.addresses.callablesUnexported =
    x.document.callables.countP fun c => !c.inherited && c.address.any ResolvedAddress.isUnexported
  callablesInherited : x.statistics.callablesInherited =
    x.document.callables.countP CallableRecord.inherited
  dataResolved : x.statistics.addresses.dataResolved =
    x.document.inputs.countP fun i => i.data.address.any ResolvedAddress.isLocated
  dataUnexported : x.statistics.addresses.dataUnexported =
    x.document.inputs.countP fun i => i.data.address.any ResolvedAddress.isUnexported
  data : x.statistics.addresses.dataResolved + x.statistics.addresses.dataUnexported =
    x.statistics.inputs
  noopDiscarded : x.statistics.addresses.noopDiscarded =
    x.document.callers.countP fun caller =>
      (reference? caller.1 caller.2).any fun symbol =>
        snapshot.unmangled symbol = target.noopCallable
  diagnostics : x.statistics.diagnostics = x.diagnostics.length

/-- The statistics of a successful extraction are an exact recount of its document. -/
theorem run_statistics_recount (hrun : run settings snapshot map = .ok x) :
    ∃ survey, SymbolSurvey.ofSnapshot settings.markers snapshot = .ok survey ∧
      Recounts snapshot settings.target
        (lastCodeReference? settings.sections survey.classified snapshot.relocations) x := by
  obtain ⟨stages⟩ := exists_stages hrun
  have hlocated := stages.countP_data AddressCounts.tallies_dataResolved
  have hdropped := stages.countP_data AddressCounts.tallies_dataUnexported
  refine ⟨stages.survey, stages.surveyed, ?_⟩
  constructor
  case modules => exact stages.modules_eq
  case inputs => exact stages.inputs_eq
  case procedures => exact stages.procedures_eq
  case arguments => exact stages.arguments_eq
  case callablesResolved =>
    exact stages.countP_callables AddressCounts.tallies_callablesResolved
  case callablesUnexported =>
    exact stages.countP_callables AddressCounts.tallies_callablesUnexported
  case callablesInherited => exact stages.countP_inherited
  case dataResolved => exact hlocated
  case dataUnexported => exact hdropped
  case data =>
    rw [hlocated, hdropped, stages.countP_placed_add_countP_dropped, stages.inputs_eq]
  case noopDiscarded => exact stages.countP_noop
  case diagnostics => rw [stages.statistics_eq, stages.diagnostics_eq]

/-- The statistics of the lamp: its level takes over the update of the module, and its mode, which
is not updated, has no callable. -/
theorem lamp_statistics_recount :
    ∃ x survey, run Lamp.settings Lamp.snapshot Lamp.map = .ok x ∧
      SymbolSurvey.ofSnapshot Lamp.settings.markers Lamp.snapshot = .ok survey ∧
        Recounts Lamp.snapshot Lamp.settings.target (lastCodeReference? Lamp.settings.sections
            survey.classified Lamp.snapshot.relocations) x ∧
          x.document.callables.countP CallableRecord.inherited = 1 ∧
            x.statistics.addresses.noopDiscarded = 1 := by
  obtain ⟨x, hx, hinherited, hnoop⟩ : ∃ x, run Lamp.settings Lamp.snapshot Lamp.map = .ok x ∧
      x.statistics.callablesInherited = 1 ∧ x.statistics.addresses.noopDiscarded = 1 :=
    exists_ok_of (by decide +kernel)
  obtain ⟨survey, hsurvey, hrecounts⟩ := run_statistics_recount hx
  exact ⟨x, survey, hx, hsurvey, hrecounts,
    hrecounts.callablesInherited.symm.trans hinherited, hnoop⟩

end Extraction

end FirmwareModel
