import FirmwareModel.Proofs.Extraction.SymbolOrder

/-!
# Symbols outside the grammar

A symbol whose name declares no module and is no field of one has no part in the model, wherever it
stands in the symbol table and whatever the object file holds under its name. The survey with such
a symbol finds the same modules and the same fields as the one without it, and the later stages ask
the symbol table no more.
-/

namespace FirmwareModel

variable {snapshot : Snapshot} {markers : Markers} {settings : Settings} {map : List MapEntry}
  {front back symbols : List String} {symbol : String}

/-- A symbol that the table does not list, and whose name declares no module and is read as no field
of the given ones. -/
structure Snapshot.Unread (s : Snapshot) (markers : Markers) (modules : List ModulePath)
    (symbol name : String) : Prop where
  unlisted : symbol ∉ s.symbols
  spelled : s.demangle symbol = .ok name
  undeclared : declaredModule? markers name = none
  irrelevant : ∀ role, classify markers modules name = .ok role → role = .irrelevant

/-! ## Surveys -/

/-- What one item more in a list adds to what is made of the items. -/
theorem filterMap_insert {α β : Type} (f : α → Option β) (before after : List α) (item : α) :
    (before ++ item :: after).filterMap f =
      before.filterMap f ++ (f item).toList ++ after.filterMap f := by
  cases hitem : f item <;> simp [hitem]

namespace SymbolSurvey

/-- The survey `survey'` has one name more than `survey`, of which it tells at most that it is at
fault. -/
structure Gains (markers : Markers) (name : SymbolName) (survey survey' : SymbolSurvey) :
    Prop where
  names : survey'.names.length = survey.names.length + 1
  modules : survey'.modules = survey.modules
  classified : survey'.classified = survey.classified
  diagnostics : ∃ before after, survey.diagnostics = before ++ after ∧
    survey'.diagnostics = before ++ (diagnostic? markers survey.modules name).toList ++ after

/-- A symbol that is not read is no field of an entity. -/
theorem field?_eq_none {modules : List ModulePath}
    (h : snapshot.Unread markers modules symbol (snapshot.unmangled symbol)) :
    field? markers modules (snapshot.spell symbol) = none := by
  refine Option.eq_none_iff_forall_ne_some.mpr fun s hs => ?_
  obtain ⟨-, hread, howner⟩ := field?_eq_some_iff.mp hs
  rw [h.irrelevant _ hread] at howner
  cases howner

/-- An unread symbol comes into the survey as one name more. -/
theorem gains_ofSpelled (hsymbols : snapshot.symbols = front ++ back)
    (h : snapshot.Unread markers (ofSpelled markers snapshot).modules symbol
      (snapshot.unmangled symbol)) :
    Gains markers (snapshot.spell symbol) (ofSpelled markers snapshot)
      (ofSpelled markers (snapshot.withSymbols (front ++ symbol :: back))) := by
  obtain ⟨before, after, hdistinct, hdistinct'⟩ := eraseDups_insert (hsymbols ▸ h.unlisted)
  have hnames : (ofSpelled markers snapshot).names =
      before.map snapshot.spell ++ after.map snapshot.spell := by
    rw [ofSpelled, hsymbols, hdistinct, List.map_append]
  have hnames' : (ofSpelled markers (snapshot.withSymbols (front ++ symbol :: back))).names =
      before.map snapshot.spell ++ snapshot.spell symbol :: after.map snapshot.spell := by
    change (front ++ symbol :: back).eraseDups.map snapshot.spell = _
    rw [hdistinct', List.map_append, List.map_cons]
  have hmodules : (ofSpelled markers (snapshot.withSymbols (front ++ symbol :: back))).modules =
      (ofSpelled markers snapshot).modules := by
    have hundeclared : declaredModule? markers (snapshot.spell symbol).unmangled = none :=
      h.undeclared
    rw [modules_ofSpelled, modules_ofSpelled, hnames, hnames', declaredModules, declaredModules,
      filterMap_insert, hundeclared, Option.toList_none, List.append_nil, List.filterMap_append]
  -- With the same modules every other name is read as before.
  refine ⟨?_, hmodules, ?_, ?_⟩
  case refine_1 => simp [hnames, hnames', Nat.add_assoc]
  case refine_2 =>
    rw [classified_ofSpelled, classified_ofSpelled, hmodules, hnames, hnames', filterMap_insert,
      field?_eq_none h, Option.toList_none, List.append_nil, List.filterMap_append]
  case refine_3 =>
    rw [diagnostics_ofSpelled, diagnostics_ofSpelled, hmodules, hnames, hnames', filterMap_insert,
      List.filterMap_append]
    exact ⟨_, _, rfl, rfl⟩

end SymbolSurvey

/-! ## What ends an extraction -/

/-- An unread symbol adds no fatal condition. -/
theorem FatalCondition.holds_of_holds_withSymbols (hsymbols : snapshot.symbols = front ++ back)
    (h : snapshot.Unread settings.markers
      (SymbolSurvey.ofSpelled settings.markers snapshot).modules symbol
      (snapshot.unmangled symbol))
    {c : FatalCondition}
    (hc : c.Holds settings (snapshot.withSymbols (front ++ symbol :: back)) map) :
    c.Holds settings snapshot map := by
  have hsurvey := SymbolSurvey.gains_ofSpelled hsymbols h
  obtain ⟨fault, hcause⟩ := hc
  refine ⟨fault, ?_⟩
  -- The symbol is spelled, and no later condition looks at symbols that are not classified.
  cases c with
  | noSymbols => exact absurd hcause.1 (by simp [Snapshot.withSymbols])
  | unspelledSymbol =>
    obtain ⟨other, hother, hunspelled⟩ := hcause
    have hne : other ≠ symbol := by
      rintro rfl
      exact (Snapshot.demangle_eq_ok_iff.mp h.spelled).2 hunspelled.1
    refine ⟨other, ?_, hunspelled⟩
    rw [hsymbols]
    simpa [Snapshot.withSymbols, hne] using hother
  | unspelledTarget =>
    unfold Causes at hcause ⊢
    rw [hsurvey.classified] at hcause
    exact hcause
  | foreignPayload =>
    unfold Causes at hcause ⊢
    rw [hsurvey.classified] at hcause
    exact hcause
  | unspelledEntry => exact hcause
  | unplacedArguments =>
    unfold Causes ModuleTree.ofSurvey at hcause ⊢
    rw [hsurvey.classified, hsurvey.modules] at hcause
    exact hcause
  | foreignImage => exact hcause

/-! ## The stages side by side -/

namespace ModuleTree

/-- Records are followed without the symbol table. -/
theorem linkAll_withSymbols (sections : SectionSettings) (classified : List ClassifiedSymbol)
    (t : ModuleTree) (records : List RelocationRecord) :
    linkAll (snapshot.withSymbols symbols) sections classified t records =
      linkAll snapshot sections classified t records := by
  induction records generalizing t with
  | nil => rfl
  | cons r records ih =>
    rw [linkAll, linkAll]
    simp only [ih]
    rfl

/-- Filling in literals does not depend on which symbols the snapshot lists. -/
theorem fillLiterals_withSymbols (t : ModuleTree) (classified : List ClassifiedSymbol) :
    t.fillLiterals (snapshot.withSymbols symbols) settings classified =
      t.fillLiterals snapshot settings classified := by
  have hstep : LiteralProgress.step (snapshot.withSymbols symbols) settings =
      LiteralProgress.step snapshot settings := by
    funext p s
    simp only [LiteralProgress.step, Snapshot.literal_withSymbols]
  rw [fillLiterals, fillLiterals, hstep]

end ModuleTree

namespace Extraction

variable {x y : Extraction}

/-- The extraction `y` is `x` with one symbol more counted. If the symbol is at fault, that has been
counted and reported as well. -/
def Gains (symbol : String) (reading : Except DeclarationFault Role) (x y : Extraction) : Prop :=
  match reading with
  | .ok _ => y = { x with statistics := { x.statistics with symbols := x.statistics.symbols + 1 } }
  | .error fault =>
    let reported : Diagnostic :=
      .ofReport .classify symbol (Fault.declaration symbol fault).report
    ∃ before after, x.diagnostics = before ++ after ∧
      y = {
        document := x.document
        statistics := { x.statistics with
          symbols := x.statistics.symbols + 1
          diagnostics := x.statistics.diagnostics + 1 }
        diagnostics := before ++ reported :: after }

/-- Both cases at once: the diagnostic of the symbol, if it has one, is counted and reported. -/
theorem gains_of_diagnostic? {modules : List ModulePath} {name : SymbolName}
    {report : Option Diagnostic} (hreport : SymbolSurvey.diagnostic? markers modules name = report)
    {before after : List Diagnostic} (hdiagnostics : x.diagnostics = before ++ after)
    (hy : y = {
      document := x.document
      statistics := { x.statistics with
        symbols := x.statistics.symbols + 1
        diagnostics := x.statistics.diagnostics + report.toList.length }
      diagnostics := before ++ (report.toList ++ after) }) :
    Gains name.mangled (classify markers modules name.unmangled) x y := by
  unfold Gains
  cases hread : classify markers modules name.unmangled with
  | ok role =>
    obtain rfl : none = report := by
      simpa only [SymbolSurvey.diagnostic?, hread] using hreport
    rw [hy, Option.toList_none, List.nil_append, ← hdiagnostics]
    rfl
  | error fault =>
    obtain rfl : some (.ofReport .classify name.mangled
        (Fault.declaration name.mangled fault).report) = report := by
      simpa only [SymbolSurvey.diagnostic?, hread] using hreport
    exact ⟨before, after, hdiagnostics, hy⟩

namespace Stages

variable (stages : Stages settings snapshot map x)
  (stages' : Stages settings (snapshot.withSymbols symbols) map y)

include stages stages'

/-- When the surveys tell the same modules and fields, all later stages come to the same. -/
theorem eq_of_survey (hmodules : stages'.survey.modules = stages.survey.modules)
    (hclassified : stages'.survey.classified = stages.survey.classified) :
    stages'.applied = stages.applied ∧ stages'.filled = stages.filled ∧
      stages'.placed = stages.placed := by
  have hbuilt : ModuleTree.ofSurvey stages'.survey = .ofSurvey stages.survey := by
    rw [ModuleTree.ofSurvey, ModuleTree.ofSurvey, hmodules, hclassified]
  have hlinked := stages'.linkedAll
  rw [ModuleTree.linkAll_withSymbols, hclassified, hbuilt] at hlinked
  obtain ⟨hlinkedEq, happlied⟩ := Prod.mk.inj (Except.ok.inj (hlinked.symm.trans stages.linkedAll))
  have hfilled := stages'.filledAll
  rw [ModuleTree.fillLiterals_withSymbols, hclassified, hlinkedEq] at hfilled
  have hfilledEq := Except.ok.inj (hfilled.symm.trans stages.filledAll)
  have hplaced := stages'.placedAll
  rw [hfilledEq, ← stages.table_eq stages'] at hplaced
  exact ⟨happlied, hfilledEq, Except.ok.inj (hplaced.symm.trans stages.placedAll)⟩

/-- What one name more in the survey comes to in the end. -/
theorem gains {name : SymbolName}
    (hsurvey : SymbolSurvey.Gains settings.markers name stages.survey stages'.survey) :
    Gains name.mangled (classify settings.markers stages.survey.modules name.unmangled) x y := by
  obtain ⟨happlied, hfilled, hplaced⟩ :=
    stages.eq_of_survey stages' hsurvey.modules hsurvey.classified
  have hchecksum : stages'.checksum = stages.checksum :=
    Except.ok.inj (stages'.checksummed.symm.trans stages.checksummed)
  have hdocument : y.document = x.document := by
    rw [stages'.document_eq, stages.document_eq, hplaced, hchecksum]
  obtain ⟨before, after, hbefore, hafter⟩ := hsurvey.diagnostics
  have hdiagnostics : x.diagnostics = before ++ (after ++ stages.filled.diagnostics) := by
    rw [stages.diagnostics_eq, hbefore, List.append_assoc]
  have hdiagnostics' : y.diagnostics =
      before ++ ((SymbolSurvey.diagnostic? settings.markers stages.survey.modules name).toList ++
        (after ++ stages.filled.diagnostics)) := by
    rw [stages'.diagnostics_eq, hafter, hfilled]
    simp only [List.append_assoc]
  have hstatistics : y.statistics = { x.statistics with
      symbols := x.statistics.symbols + 1
      diagnostics := x.statistics.diagnostics +
        (SymbolSurvey.diagnostic? settings.markers stages.survey.modules name).toList.length } := by
    rw [stages'.statistics_eq, stages.statistics_eq, ← stages.table_eq stages', happlied, hfilled,
      hplaced, hsurvey.names, hbefore, hafter]
    simp only [Statistics.mk.injEq, List.length_append, true_and]
    omega
  refine gains_of_diagnostic? rfl hdiagnostics ?_
  rw [← hdocument, ← hdiagnostics', ← hstatistics]

end Stages

/-- A symbol outside the grammar has no part in the model. With one more such symbol anywhere in the
symbol table an extraction still succeeds, with the same document: it only counts the symbol and, if
its name is at fault, says so in one more diagnostic. -/
theorem run_unread_symbol (hrun : run settings snapshot map = .ok x) :
    ∃ survey, SymbolSurvey.ofSnapshot settings.markers snapshot = .ok survey ∧
      ∀ front back symbol name, snapshot.symbols = front ++ back →
        snapshot.Unread settings.markers survey.modules symbol name →
          ∃ y, run settings (snapshot.withSymbols (front ++ symbol :: back)) map = .ok y ∧
            Gains symbol (classify settings.markers survey.modules name) x y := by
  obtain ⟨stages⟩ := exists_stages hrun
  refine ⟨stages.survey, stages.surveyed, fun front back symbol name hsymbols hunread => ?_⟩
  obtain ⟨rfl, -⟩ := Snapshot.demangle_eq_ok_iff.mp hunread.spelled
  rw [stages.survey_eq] at hunread
  obtain ⟨hvalid, hnone⟩ := exists_run_eq_ok_iff.mp ⟨x, hrun⟩
  have hruns : ∃ y, run settings (snapshot.withSymbols (front ++ symbol :: back)) map = .ok y :=
    exists_run_eq_ok_iff.mpr ⟨hvalid, fun c hc =>
      hnone c (FatalCondition.holds_of_holds_withSymbols hsymbols hunread hc)⟩
  obtain ⟨y, hy⟩ := hruns
  obtain ⟨stages'⟩ := exists_stages hy
  have hsurvey := SymbolSurvey.gains_ofSpelled hsymbols hunread
  rw [← stages.survey_eq, ← stages'.survey_eq] at hsurvey
  exact ⟨y, hy, stages.gains stages' hsurvey⟩

/-- The lamp with a colour, which no module has: the name is at fault, and that is all. -/
theorem lamp_unread_colour :
    let symbol := "n::Lamp::Glow::info::colour"
    ∃ x survey, run Lamp.settings Lamp.snapshot Lamp.map = .ok x ∧
      SymbolSurvey.ofSnapshot Lamp.settings.markers Lamp.snapshot = .ok survey ∧
        Lamp.snapshot.Unread Lamp.settings.markers survey.modules symbol symbol ∧
          ∃ y, run Lamp.settings
              (Lamp.snapshot.withSymbols ["a", "b", symbol, "c", "d", "e", "f"]) Lamp.map = .ok y ∧
            Gains symbol (.error (.unknownField .module "colour")) x y := by
  intro symbol
  obtain ⟨x, hx, -⟩ := Lamp.exists_run
  obtain ⟨survey, hsurvey, hgains⟩ := run_unread_symbol hx
  have hread : classify Lamp.settings.markers survey.modules symbol =
      .error (.unknownField .module "colour") := by
    obtain rfl := SymbolSurvey.eq_ofSpelled hsurvey
    decide +kernel
  have hunread : Lamp.snapshot.Unread Lamp.settings.markers survey.modules symbol symbol := {
    unlisted := by decide
    spelled := rfl
    undeclared := by decide +kernel
    irrelevant := fun role hrole => by simp [hread] at hrole }
  obtain ⟨y, hy, hxy⟩ := hgains ["a", "b"] ["c", "d", "e", "f"] symbol symbol rfl hunread
  exact ⟨x, survey, hx, hsurvey, hunread, y, hy, hread ▸ hxy⟩

end Extraction

end FirmwareModel
