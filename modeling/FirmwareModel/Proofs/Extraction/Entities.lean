import FirmwareModel.Proofs.Extraction.Stages

/-!
# The entities of a document

The document of an extraction lists exactly the entities that the symbols declare, once each and in
the order in which they are first seen. They are settled when the tree is built from the survey:
none of the stages after that adds, removes, renames or reorders an entity.
-/

namespace FirmwareModel

open Document

/-! ## Names in records -/

namespace Module

variable {m : Module} (h : m.Keyed) (below : List ModuleRecord)

include h

/-- The record of a module lists its inputs by their names, in their order. -/
theorem Keyed.names_inputs :
    (ModuleRecord.ofModule m below).inputs.map InputRecord.name = m.inputs.keys := by
  rw [← Table.map_values_eq_keys h.inputs, ModuleRecord.ofModule, List.map_map]
  rfl

/-- The record of a module lists its procedures by their names, in their order. -/
theorem Keyed.names_procedures :
    (ModuleRecord.ofModule m below).procedures.map ProcedureRecord.name = m.procedures.keys := by
  rw [← Table.map_values_eq_keys (f := Procedure.name) fun key p hp => (h.procedures key p hp).1,
    ModuleRecord.ofModule, List.map_map]
  rfl

/-- The record of a module lists the arguments of each procedure by their names, in their order. -/
theorem Keyed.names_arguments {p : ProcedureRecord}
    (hp : p ∈ (ModuleRecord.ofModule m below).procedures) :
    p.arguments.map ArgumentRecord.name = m.argumentNames p.name := by
  obtain ⟨procedure, hprocedure, rfl⟩ := List.mem_map.mp hp
  obtain ⟨key, hfind⟩ := Table.mem_values_iff.mp hprocedure
  obtain ⟨hname, harguments⟩ := h.procedures key procedure hfind
  subst hname
  have hkeys := Table.map_values_eq_keys harguments
  simp only [ProcedureRecord.ofProcedure, List.map_map, argumentNames, hfind, Option.map_some,
    Option.getD_some, ← hkeys]
  rfl

end Module

namespace Extraction

/-! ## What a document lists -/

/-- The document lists the modules on the way to the paths, each once, with siblings in the order
of the first path that leads to them. Different modules have different qualified names. -/
structure ListsModules (document : Document) (paths : List ModulePath) : Prop where
  nodup : (document.listing.map Prod.fst).Nodup
  nodup_qualified : (document.listing.map fun entry => Text.qualified entry.1).Nodup
  mem_iff : ∀ path, path ∈ document.listing.map Prod.fst ↔
    path ≠ [] ∧ ∃ p ∈ paths, path <+: p.segments
  outermost : document.modules.map ModuleRecord.name = nextNames paths []
  siblings : ∀ path r, (path, r) ∈ document.listing →
    r.modules.map ModuleRecord.name = nextNames paths path

/-- The record of the module at a path lists the inputs, procedures and arguments that symbols
speak of, each once and in the order of the first symbol. -/
structure ListsMembers (classified : List ClassifiedSymbol) (path : List String)
    (r : ModuleRecord) : Prop where
  inputs : r.inputs.map InputRecord.name = memberNames classified path Member.inputName?
  procedures : r.procedures.map ProcedureRecord.name =
    memberNames classified path Member.procedureName?
  arguments : ∀ p ∈ r.procedures,
    p.arguments.map ArgumentRecord.name = memberNames classified path (Member.argumentName? p.name)

variable {settings : Settings} {snapshot : Snapshot} {map : List MapEntry} {x : Extraction}

/-- No stage after the survey changes which entities there are, what they are called and in which
order they are listed. -/
structure Stages.KeepsEntities (stages : Stages settings snapshot map x) : Prop where
  linked : stages.linked.outline = (ModuleTree.ofSurvey stages.survey).outline
  filled : stages.filled.tree.outline = stages.linked.outline
  resolved : (stages.filled.tree.resolve stages.table settings.target).1.outline =
    stages.filled.tree.outline
  placed : stages.placed.outline =
    (stages.filled.tree.resolve stages.table settings.target).1.outline
  inherited : stages.placed.inherit.1.outline = stages.placed.outline

namespace Stages

variable (stages : Stages settings snapshot map x)

/-- The passes after the survey leave the outline of the tree alone. -/
theorem keepsEntities : stages.KeepsEntities where
  linked := stages.outline_linked
  filled := stages.filledFrom.outline
  resolved := stages.filled.tree.outline_resolve
  placed := ModuleTree.outline_placeArguments stages.placedAll
  inherited := stages.placed.outline_inherit

/-- The last tree shows the outline of the tree of the survey. -/
theorem outline_inherit :
    stages.placed.inherit.1.outline = (ModuleTree.ofSurvey stages.survey).outline := by
  obtain ⟨hlinked, hfilled, hresolved, hplaced, hinherited⟩ := stages.keepsEntities
  rw [hinherited, hplaced, hresolved, hfilled, hlinked]

/-- The tree of the document is well-formed. -/
theorem wellFormed_inherit : stages.placed.inherit.1.WellFormed := by
  obtain ⟨f, hsettled⟩ := stages.exists_settledFrom
  exact hsettled.wellFormed

/-- The modules right below a path are those that declared paths go on with, in order of arrival. -/
theorem childNames_inherit (path : List String) :
    stages.placed.inherit.1.childNames path = nextNames stages.survey.modules path := by
  rw [← ModuleTree.childNames_outline, stages.outline_inherit, ModuleTree.childNames_outline,
    stages.builtFrom.childNames]

/-- The listed paths are those of the modules of the survey and of all modules around them. -/
theorem mem_listing_iff (path : List String) :
    path ∈ x.document.listing.map Prod.fst ↔
      path ≠ [] ∧ ∃ p ∈ stages.survey.modules, path <+: p.segments := by
  have hwellFormed := stages.wellFormed_inherit
  rw [stages.document_eq, ← stages.builtFrom.exists_moduleAt?_iff, List.mem_map]
  constructor
  · rintro ⟨⟨path, r⟩, hr, rfl⟩
    obtain ⟨m, hm, -⟩ := hwellFormed.exists_moduleAt?_of_mem_listing hr
    obtain ⟨n, hn, -⟩ := ModuleTree.exists_moduleAt?_of_outline_eq stages.outline_inherit hm
    exact ⟨n, hn⟩
  · rintro ⟨n, hn⟩
    obtain ⟨m, hm, -⟩ := ModuleTree.exists_moduleAt?_of_outline_eq stages.outline_inherit.symm hn
    obtain ⟨modules, hmem⟩ := hwellFormed.exists_mem_listing_of_moduleAt? stages.checksum hm
    exact ⟨_, hmem, rfl⟩

include stages in
/-- The modules around a listed module are listed. -/
theorem exists_mem_listing_of_mem_enclosingPaths {path above : List String} {r : ModuleRecord}
    (hr : (path, r) ∈ x.document.listing) (habove : above ∈ enclosingPaths path) :
    ∃ m, (above, m) ∈ x.document.listing := by
  obtain ⟨hne, hpre⟩ := mem_enclosingPaths_iff.mp habove
  have hpath : path ∈ x.document.listing.map Prod.fst := List.mem_map.mpr ⟨_, hr, rfl⟩
  obtain ⟨-, p, hp, hpathPre⟩ := (stages.mem_listing_iff path).mp hpath
  obtain ⟨⟨_, m⟩, hm, rfl⟩ := List.mem_map.mp
    ((stages.mem_listing_iff above).mpr ⟨hne, p, hp, hpre.trans hpathPre⟩)
  exact ⟨m, hm⟩

include stages in
/-- A listed path can be told from the qualified name that it makes up. -/
theorem segments_qualified_of_mem_listing {path : List String}
    (hpath : path ∈ x.document.listing.map Prod.fst) :
    Text.segments (Text.qualified path) = path := by
  obtain ⟨hne, p, -, hpre⟩ := (stages.mem_listing_iff path).mp hpath
  exact Text.segments_qualified_of_prefix hne hpre

/-- The document lists the declared modules and those around them. -/
theorem listsModules : ListsModules x.document stages.survey.modules := by
  have hwellFormed := stages.wellFormed_inherit
  have houtermost : x.document.modules.map ModuleRecord.name =
      nextNames stages.survey.modules [] := by
    rw [stages.document_eq, hwellFormed.names_modules_ofTree, stages.childNames_inherit]
  have hsiblings : ∀ path r, (path, r) ∈ x.document.listing →
      r.modules.map ModuleRecord.name = nextNames stages.survey.modules path := by
    intro path r hr
    rw [stages.document_eq] at hr
    rw [hwellFormed.names_modules_of_mem_listing hr, stages.childNames_inherit]
  have hnodup : (x.document.listing.map Prod.fst).Nodup := by
    refine ModuleRecord.nodup_listings [] _ ?_ fun entry hentry => ?_
    · rw [houtermost]
      exact nodup_eraseDups _
    · rw [hsiblings entry.1 entry.2 hentry]
      exact nodup_eraseDups _
  constructor
  case nodup => exact hnodup
  case nodup_qualified =>
    have hqualified : (x.document.listing.map Prod.fst).Pairwise fun path other =>
        Text.qualified path ≠ Text.qualified other := by
      refine hnodup.imp_of_mem fun {path other} hpath hother hne heq => hne ?_
      rw [← stages.segments_qualified_of_mem_listing hpath, heq,
        stages.segments_qualified_of_mem_listing hother]
    have hnames := List.pairwise_map.mpr hqualified
    rwa [List.map_map] at hnames
  case mem_iff => exact stages.mem_listing_iff
  case outermost => exact houtermost
  case siblings => exact hsiblings

/-- Each listed module has the members that symbols declare for it. -/
theorem listsMembers {path : List String} {r : ModuleRecord}
    (hr : (path, r) ∈ x.document.listing) : ListsMembers stages.survey.classified path r := by
  rw [stages.document_eq] at hr
  obtain ⟨m, hm, heq⟩ := stages.wellFormed_inherit.exists_moduleAt?_of_mem_listing hr
  obtain ⟨n, hn, houtline⟩ := ModuleTree.exists_moduleAt?_of_outline_eq stages.outline_inherit hm
  have hkeyed := stages.builtFrom.keyed_of_outline_eq stages.outline_inherit hm
  rw [heq]
  constructor
  case inputs =>
    rw [hkeyed.names_inputs, ← stages.builtFrom.inputs path n hn]
    exact (Module.keys_inputs_of_outline_eq houtline).symm
  case procedures =>
    rw [hkeyed.names_procedures, ← stages.builtFrom.procedures path n hn]
    exact (Module.keys_procedures_of_outline_eq houtline).symm
  case arguments =>
    intro p hp
    rw [hkeyed.names_arguments _ hp, ← stages.builtFrom.arguments path n p.name hn]
    exact (Module.argumentNames_of_outline_eq houtline p.name).symm

end Stages

/-- A document lists exactly the modules, inputs, procedures and arguments that the symbols of the
snapshot declare, once each and in the order in which they are first seen; and no stage of the
extraction changes the entities that the survey declares. -/
theorem run_lists_declared_entities (h : run settings snapshot map = .ok x) :
    ∃ stages : Stages settings snapshot map x,
      ListsModules x.document stages.survey.modules ∧
      (∀ path r, (path, r) ∈ x.document.listing →
        ListsMembers stages.survey.classified path r) ∧
      stages.KeepsEntities := by
  obtain ⟨stages⟩ := exists_stages h
  exact ⟨stages, stages.listsModules, fun _ _ hr => stages.listsMembers hr, stages.keepsEntities⟩

/-- The entities of the lamp: a module within another that no symbol declares by itself, with two
inputs and a procedure with an argument. -/
theorem lamp_lists_declared_entities :
    ∃ x, run Lamp.settings Lamp.snapshot Lamp.map = .ok x ∧
      (x.document.listing.map fun (path, r) =>
        (path, r.inputs.map InputRecord.name, r.procedures.map fun p =>
          (p.name, p.arguments.map ArgumentRecord.name))) =
        [(["Lamp"], [], []), (["Lamp", "Glow"], ["level", "mode"], [("reset", ["delay"])])] ∧
      ∃ stages : Stages Lamp.settings Lamp.snapshot Lamp.map x,
        stages.survey.modules.map ModulePath.segments = [["Lamp", "Glow"]] ∧
        ListsModules x.document stages.survey.modules ∧
        (∀ path r, (path, r) ∈ x.document.listing →
          ListsMembers stages.survey.classified path r) ∧
        stages.KeepsEntities := by
  refine Lamp.exists_run_and (by decide +kernel) fun x hx => ?_
  obtain ⟨stages, hlaws⟩ := run_lists_declared_entities hx
  refine ⟨stages, ?_, hlaws⟩
  rw [stages.survey_eq]
  decide +kernel

end Extraction

end FirmwareModel
