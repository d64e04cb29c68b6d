import FirmwareModel.Proofs.Document.OfTree
import FirmwareModel.Proofs.Extraction.Survey
import FirmwareModel.Proofs.Tree.Built
import FirmwareModel.Proofs.Tree.Loops
import FirmwareModel.Proofs.Tree.References
import FirmwareModel.Proofs.Tree.Settling

/-!
# The stages of an extraction

A successful extraction has gone through all its stages: the survey of the symbols, the trees with
pointers and with literals filled in, and the tree with arguments placed. The document is that of
the last tree, after inputs have taken over their callables.
-/

namespace FirmwareModel.Extraction

open Document

/-- The results of the stages of an extraction. -/
structure Stages (settings : Settings) (snapshot : Snapshot) (map : List MapEntry)
    (x : Extraction) where
  survey : SymbolSurvey
  linked : ModuleTree
  applied : Nat
  filled : LiteralProgress
  table : AddressTable
  placed : ModuleTree
  checksum : Option String
  surveyed : SymbolSurvey.ofSnapshot settings.markers snapshot = .ok survey
  linkedAll : ModuleTree.linkAll snapshot settings.sections survey.classified
    (.ofSurvey survey) snapshot.relocations = .ok (linked, applied)
  filledAll : linked.fillLiterals snapshot settings survey.classified = .ok filled
  tabled : AddressTable.ofMap snapshot map = .ok table
  placedAll : (filled.tree.resolve table settings.target).1.placeArguments table settings.target =
    .ok placed
  checksummed : (checksum? snapshot).map (Option.map Checksum.display) = .ok checksum
  document_eq : x.document = .ofTree placed.inherit.1 checksum
  diagnostics_eq : x.diagnostics = survey.diagnostics ++ filled.diagnostics
  statistics_eq : x.statistics = {
    symbols := survey.names.length
    modules := placed.inherit.1.size
    inputs := placed.inherit.1.count fun m => m.inputs.size
    procedures := placed.inherit.1.count fun m => m.procedures.size
    arguments := placed.inherit.1.count fun m =>
      (m.procedures.values.map fun p => p.arguments.size).foldr (· + ·) 0
    relocationsApplied := applied
    payloadsDecoded := filled.stored
    addresses := (filled.tree.resolve table settings.target).2
    callablesInherited := placed.inherit.2
    diagnostics := (survey.diagnostics ++ filled.diagnostics).length }

section

variable {settings : Settings} {snapshot : Snapshot} {map : List MapEntry} {x : Extraction}

/-- An extraction that succeeds has gone through all stages. -/
theorem exists_stages (h : run settings snapshot map = .ok x) :
    Nonempty (Stages settings snapshot map x) := by
  unfold run at h
  split at h
  · cases h
  obtain ⟨survey, hsurvey, h⟩ := bind_eq_ok_iff.mp h
  obtain ⟨⟨linked, applied⟩, hlinked, h⟩ := bind_eq_ok_iff.mp h
  obtain ⟨filled, hfilled, h⟩ := bind_eq_ok_iff.mp h
  obtain ⟨table, htable, h⟩ := bind_eq_ok_iff.mp h
  obtain ⟨placed, hplaced, h⟩ := bind_eq_ok_iff.mp h
  obtain ⟨checksum, hchecksum, h⟩ := bind_eq_ok_iff.mp h
  obtain rfl := pure_eq_ok_iff.mp h
  exact ⟨{
    survey, linked, applied, filled, table, placed
    checksum := checksum.map Checksum.display
    surveyed := hsurvey
    linkedAll := hlinked
    filledAll := hfilled
    tabled := mapError_eq_ok_iff.mp htable
    placedAll := hplaced
    checksummed := by rw [hchecksum]; rfl
    document_eq := rfl
    diagnostics_eq := rfl
    statistics_eq := rfl }⟩

namespace Stages

variable (stages : Stages settings snapshot map x)

/-- The tree of the survey has the modules and entities that it declares. -/
theorem builtFrom : ModuleTree.BuiltFrom stages.survey.modules stages.survey.classified
    (.ofSurvey stages.survey) :=
  ModuleTree.BuiltFrom.foldl_editOwner (SymbolSurvey.owner_mem_modules stages.surveyed)

/-- The survey is the one of the symbols in the spelling of the snapshot. -/
theorem survey_eq : stages.survey = .ofSpelled settings.markers snapshot :=
  SymbolSurvey.eq_ofSpelled stages.surveyed

/-- The tree of the survey has all entities that symbols speak of. -/
theorem holds_ofSurvey :
    (ModuleTree.ofSurvey stages.survey).Holds stages.survey.classified :=
  stages.builtFrom.holds (SymbolSurvey.owner_mem_modules stages.surveyed)

/-- Filling in pointers leaves the outline of the tree alone. -/
theorem outline_linked : stages.linked.outline = (ModuleTree.ofSurvey stages.survey).outline :=
  (stages.holds_ofSurvey.linkAll stages.linkedAll).2

/-- What the literals have kept of the tree with pointers. -/
theorem filledFrom : ModuleTree.FilledFrom snapshot stages.survey.classified stages.linked
    stages.filled.tree :=
  (stages.holds_ofSurvey.linkAll stages.linkedAll).1.fillLiterals
    ((stages.builtFrom.unsettled snapshot).linkAll stages.holds_ofSurvey stages.linkedAll)
    stages.filledAll

/-- The tree is well-formed when pointers and literals have been filled in. -/
theorem wellFormed_filled : stages.filled.tree.WellFormed :=
  stages.filledFrom.holds.wellFormed

/-- The tree is well-formed when addresses and arguments have been settled. -/
theorem wellFormed_placed : stages.placed.WellFormed :=
  stages.wellFormed_filled.resolve.placeArguments stages.placedAll

/-- How the tree with pointers and literals has been settled. -/
theorem exists_settledFrom : ∃ f, ModuleTree.SettledFrom stages.table settings.target f
    stages.filled.tree stages.placed.inherit.1 :=
  stages.filledFrom.holds.wellFormed.settledFrom stages.filledFrom.unsettled stages.placedAll

/-- The tree whose addresses have been settled, arguments apart. -/
def resolved : ModuleTree :=
  (stages.filled.tree.resolve stages.table settings.target).1

/-- The passes that follow the literals are loops over the modules in the order of documents: one
that settles addresses and counts them, one that puts arguments in the overlay if there are
procedures, one that lists what inputs take over, and one for each number that is summed over the
modules in the end. -/
theorem passes_eq_loops :
    stages.filled.tree.resolve stages.table settings.target =
        stages.filled.tree.loop (fun _ => Module.resolve stages.table settings.target)
          (fun counts m => counts + m.addressCounts stages.table settings.target) {} ∧
      (stages.resolved.hasProcedures = true →
        ∃ p, stages.table.placement? settings.target.argumentBase = some p ∧
          settings.target.ramBase ≤ p.load ∧
          stages.placed = stages.resolved.preorder.foldl (fun t id => t.modifyModule id
            (Module.placeArguments p.symbol (p.load - settings.target.ramBase)))
            stages.resolved) ∧
      stages.placed.inherit =
        (stages.placed.takeovers.foldl ModuleTree.takeOver stages.placed,
          stages.placed.takeovers.length) ∧
      ∀ value, (stages.placed.inherit.1, stages.placed.inherit.1.count value) =
        stages.placed.inherit.1.loop (fun _ m => m) (fun n m => n + value m) 0 :=
  ⟨stages.wellFormed_filled.resolve_eq_loop,
    fun hprocedures => stages.wellFormed_filled.resolve.placeArguments_eq_loop hprocedures
      stages.placedAll,
    stages.wellFormed_placed.inherit_eq_loop,
    fun value => stages.wellFormed_placed.inherit.count_eq_loop value⟩

/-- With pointers and literals filled in, the callable of an entity is that of its last reference
to code. -/
theorem callableAt?_filled (path : List String) (member : Member) :
    stages.filled.tree.callableAt? path member =
      (lastCodeReference? settings.sections stages.survey.classified snapshot.relocations path
        member).map snapshot.callable := by
  rw [stages.filledFrom.callableAt?, stages.holds_ofSurvey.callableAt?_linkAll
    (SymbolSurvey.nodup_mangled_classified stages.surveyed) stages.linkedAll,
    stages.builtFrom.callableAt?, Option.or_none]

end Stages

end

/-! ## A lamp -/

namespace Lamp

/-- Settings for the names of the lamp. -/
def settings : Settings where
  target := { noopCallable := "idle", argumentBase := "overlay" }
  markers :=
    { namespaceText := "n::", module := "unit", info := "info", inputs := "in", procedure := "proc",
      arguments := "arg" }

/-- A lamp whose glow has a level that it updates, a mode that is not updated, and a reset after a
delay. -/
def snapshot : Snapshot where
  symbols := ["a", "b", "c", "d", "e", "f"]
  demangled := .ofList [
    ("a", "n::Lamp::Glow::unit"),
    ("b", "n::Lamp::Glow::info::callable"),
    ("c", "n::Lamp::Glow::in::level::info::address"),
    ("d", "n::Lamp::Glow::in::mode::info::callable"),
    ("e", "n::Lamp::Glow::proc::reset::info::callable"),
    ("f", "n::Lamp::Glow::proc::reset::arg::delay::info::size")]
  relocations := [
    ⟨".rodata.b", ".text.update"⟩, ⟨".rodata.c", ".bss.store+0x2"⟩, ⟨".rodata.d", ".text.idle"⟩]

/-- Where the linker put the lamp. -/
def map : List MapEntry :=
  [⟨.text, "update", 0x100⟩, ⟨.bss, "store", 0x800010⟩, ⟨.bss, "overlay", 0x800020⟩]

/-- What has been computed of the model of the lamp, together with what holds of every run. -/
theorem exists_run_and {p q : Extraction → Prop} [DecidablePred p]
    (hp : (run settings snapshot map).toOption.any (fun x => p x) = true)
    (hq : ∀ x, run settings snapshot map = .ok x → q x) :
    ∃ x, run settings snapshot map = .ok x ∧ p x ∧ q x := by
  obtain ⟨x, hx, hpx⟩ := exists_ok_of hp
  exact ⟨x, hx, hpx, hq x hx⟩

/-- The model of the lamp can be extracted, and is not empty. -/
theorem exists_run : ∃ x, run settings snapshot map = .ok x ∧
    x.document.listing.map Prod.fst = [["Lamp"], ["Lamp", "Glow"]] :=
  exists_ok_of (by decide +kernel)

end Lamp

end FirmwareModel.Extraction
