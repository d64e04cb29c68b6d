import FirmwareModel.Proofs.Document.Reordering
import FirmwareModel.Proofs.Extraction.Failures
import FirmwareModel.Proofs.Grammar.Candidates
import FirmwareModel.Proofs.Tree.LiteralFields

/-!
# The order of symbols

Extractions from snapshots that list the same symbols in different orders go through the stages
side by side. The surveys tell the same up to order, the trees of all stages are alike, and what is
counted comes to the same numbers. The conditions that end an extraction do not depend on the order
either.
-/

namespace FirmwareModel

variable {snapshot : Snapshot} {symbols : List String} {markers : Markers} {settings : Settings}
  {map : List MapEntry}

/-- The snapshot with another list of symbols. -/
def Snapshot.withSymbols (s : Snapshot) (symbols : List String) : Snapshot :=
  { s with symbols }

/-- Literals are read without the symbol table. -/
theorem Snapshot.literal_withSymbols (settings : Settings) (symbol : String) (kind : LiteralKind) :
    (snapshot.withSymbols symbols).literal settings symbol kind =
      snapshot.literal settings symbol kind := by
  unfold literal
  rw [findPayload_eq, findPayload_eq]
  rfl

/-- The literal of a symbol does not depend on the other symbols. -/
theorem ClassifiedSymbol.literal?_withSymbols (s : ClassifiedSymbol) :
    s.literal? (snapshot.withSymbols symbols) settings = s.literal? snapshot settings := by
  simp only [literal?, Snapshot.literal_withSymbols]

/-- The diagnostic of a literal does not depend on the other symbols. -/
theorem ClassifiedSymbol.literalDiagnostic?_withSymbols (s : ClassifiedSymbol) :
    s.literalDiagnostic? (snapshot.withSymbols symbols) settings =
      s.literalDiagnostic? snapshot settings := by
  simp only [literalDiagnostic?, Snapshot.literal_withSymbols]

/-- What a symbol fills in does not depend on the other symbols. -/
theorem ModuleTree.fillLiteral_withSymbols :
    ModuleTree.fillLiteral (snapshot.withSymbols symbols) settings =
      ModuleTree.fillLiteral snapshot settings := by
  funext t s
  simp only [fillLiteral, ClassifiedSymbol.literal?_withSymbols]

/-- No two symbols of the table have the same unmangled spelling. -/
def Snapshot.SpelledApart (s : Snapshot) : Prop :=
  ∀ a ∈ s.symbols, ∀ b ∈ s.symbols, ∀ text, s.demangle a = .ok text → s.demangle b = .ok text →
    a = b

/-! ## Surveys -/

namespace SymbolSurvey

/-- The surveys tell the same, up to order. -/
structure Reordered (survey survey' : SymbolSurvey) : Prop where
  names : survey.names.Perm survey'.names
  modules : ∀ path, path ∈ survey.modules ↔ path ∈ survey'.modules
  classified : survey.classified.Perm survey'.classified
  diagnostics : survey.diagnostics.Perm survey'.diagnostics

/-- The order of the symbols makes no difference to what each of them is read as. -/
theorem reordered_ofSpelled (markers : Markers) (hperm : snapshot.symbols.Perm symbols) :
    (ofSpelled markers snapshot).Reordered (ofSpelled markers (snapshot.withSymbols symbols)) := by
  have hnames : (ofSpelled markers snapshot).names.Perm
      (ofSpelled markers (snapshot.withSymbols symbols)).names :=
    (perm_eraseDups fun _ => hperm.mem_iff).map snapshot.spell
  have hmodules : ∀ path, path ∈ (ofSpelled markers snapshot).modules ↔
      path ∈ (ofSpelled markers (snapshot.withSymbols symbols)).modules := by
    intro path
    have hdeclared := (hnames.filterMap fun name => declaredModule? markers name.unmangled).mem_iff
      (a := path)
    simpa [ofSpelled, declaredModules] using hdeclared
  -- The modules are the same ones, so each name is read in the same way.
  have hread := classify_congr hmodules markers
  have hfield : field? markers (ofSpelled markers snapshot).modules =
      field? markers (ofSpelled markers (snapshot.withSymbols symbols)).modules := by
    funext name
    simp only [field?, hread]
  have hdiagnostic : diagnostic? markers (ofSpelled markers snapshot).modules =
      diagnostic? markers (ofSpelled markers (snapshot.withSymbols symbols)).modules := by
    funext name
    simp only [diagnostic?, hread]
  refine ⟨hnames, hmodules, ?_, ?_⟩
  · exact (hnames.filterMap _).trans (.of_eq (congrArg (List.filterMap · _) hfield))
  · exact (hnames.filterMap _).trans (.of_eq (congrArg (List.filterMap · _) hdiagnostic))

/-- When the symbols are spelled apart, no two classified symbols have the same role: the role
determines the spelling. -/
theorem eq_of_role_eq (hapart : snapshot.SpelledApart) {survey : SymbolSurvey}
    (h : ofSnapshot markers snapshot = .ok survey) :
    ∀ s ∈ survey.classified, ∀ s' ∈ survey.classified, s.role = s'.role → s = s' := by
  intro s hs s' hs' hrole
  -- The survey has succeeded, so every symbol of the table has a spelling.
  have hspelled := (failsBy_ofSnapshot markers).not_of_ok h
  obtain rfl := eq_ofSpelled h
  have hdemangle : ∀ symbol ∈ snapshot.symbols,
      snapshot.demangle symbol = .ok (snapshot.unmangled symbol) := by
    intro symbol hsymbol
    refine Snapshot.demangle_eq_ok_iff.mpr ⟨rfl, fun hempty => ?_⟩
    exact hspelled _ (List.mem_cons_of_mem _ (List.mem_singleton_self _)) _
      ⟨symbol, hsymbol, hempty, rfl⟩
  obtain ⟨symbol, hsymbol, hname, hread, hsome⟩ := exists_of_mem_classified hs
  obtain ⟨symbol', hsymbol', hname', hread', hsome'⟩ := exists_of_mem_classified hs'
  have htext : snapshot.unmangled symbol = snapshot.unmangled symbol' := by
    have hdeclaration := (eq_declaration_of_classify hread hsome).2
    have hdeclaration' := (eq_declaration_of_classify hread' hsome').2
    rw [← hrole, ← hdeclaration, hname, hname'] at hdeclaration'
    exact hdeclaration'.symm
  obtain rfl := hapart symbol hsymbol symbol' hsymbol' _ (hdemangle symbol hsymbol)
    (htext ▸ hdemangle symbol' hsymbol')
  cases s
  cases s'
  exact congrArg₂ ClassifiedSymbol.mk (hname.trans hname'.symm) hrole

end SymbolSurvey

namespace ModuleTree

open SymbolSurvey

/-- The tree of a survey has the modules and entities that it declares. -/
theorem builtFrom_ofSpelled (markers : Markers) (snapshot : Snapshot) :
    BuiltFrom (ofSpelled markers snapshot).modules (ofSpelled markers snapshot).classified
      (.ofSurvey (ofSpelled markers snapshot)) :=
  .foldl_editOwner owner_mem_modules_ofSpelled

/-- Whatever the order of the symbols, the trees of their surveys are alike. -/
theorem alike_ofSurvey (markers : Markers) (hperm : snapshot.symbols.Perm symbols) :
    (ModuleTree.ofSurvey (ofSpelled markers snapshot)).Alike
      (.ofSurvey (ofSpelled markers (snapshot.withSymbols symbols))) :=
  have hsurvey := reordered_ofSpelled markers hperm
  (builtFrom_ofSpelled markers snapshot).alike
    (builtFrom_ofSpelled markers (snapshot.withSymbols symbols))
    (unfilled_foldl_editOwner _ _) (unfilled_foldl_editOwner _ _) hsurvey.modules
    fun _ => hsurvey.classified.mem_iff

end ModuleTree

/-! ## What ends an extraction -/

/-- Whatever the order of the symbols, the same conditions end the extraction. -/
theorem FatalCondition.causes_withSymbols_iff (hperm : snapshot.symbols.Perm symbols)
    (c : FatalCondition) (fault : Fault) :
    c.Causes settings (snapshot.withSymbols symbols) map fault ↔
      c.Causes settings snapshot map fault := by
  have hsurvey := SymbolSurvey.reordered_ofSpelled settings.markers hperm
  cases c with
  | noSymbols =>
    have hnil : symbols = [] ↔ snapshot.symbols = [] := by
      simp only [List.eq_nil_iff_forall_not_mem, hperm.mem_iff]
    exact and_congr_left fun _ => hnil
  | unspelledSymbol => exact exists_congr fun symbol => and_congr_left fun _ => hperm.mem_iff.symm
  | unspelledTarget =>
    refine exists_congr fun r => and_congr_right fun _ => and_congr_left fun _ => ?_
    exact exists_congr fun s => and_congr_left fun _ => hsurvey.classified.mem_iff.symm
  | foreignPayload =>
    exact exists_congr fun s => and_congr_left fun _ => hsurvey.classified.mem_iff.symm
  | unspelledEntry => exact Iff.rfl
  | unplacedArguments =>
    have halike := ModuleTree.alike_ofSurvey settings.markers hperm
    have hprocedures := halike.hasProcedures_eq (ModuleTree.builtFrom_ofSpelled _ _).wellFormed
      (ModuleTree.builtFrom_ofSpelled _ _).wellFormed
    exact and_congr_left fun _ => by rw [hprocedures]
  | foreignImage => exact Iff.rfl

namespace Extraction

/-- An extraction succeeds when the settings are usable and no condition ends it. -/
theorem exists_run_eq_ok_iff : (∃ x, run settings snapshot map = .ok x) ↔
    settings.validate = .ok () ∧ ∀ c : FatalCondition, ¬ c.Holds settings snapshot map := by
  unfold run
  cases hvalid : settings.validate with
  | error fault => simp
  | ok =>
    simp only [true_and, ← not_exists, ← exists_runValid_eq_error_iff]
    cases runValid settings snapshot map <;> simp

/-- Whether an extraction succeeds does not depend on the order of the symbols. -/
theorem exists_run_withSymbols_iff (hperm : snapshot.symbols.Perm symbols) :
    (∃ x, run settings (snapshot.withSymbols symbols) map = .ok x) ↔
      ∃ x, run settings snapshot map = .ok x := by
  simp only [exists_run_eq_ok_iff, FatalCondition.Holds,
    FatalCondition.causes_withSymbols_iff hperm]

/-! ## The stages side by side -/

namespace Stages

variable {x y : Extraction} (stages : Stages settings snapshot map x)
  (stages' : Stages settings (snapshot.withSymbols symbols) map y)
  (hperm : snapshot.symbols.Perm symbols)

include hperm

/-- Whatever the order of the symbols, the surveys are the same up to order. -/
theorem reordered_survey : stages.survey.Reordered stages'.survey := by
  rw [stages.survey_eq, stages'.survey_eq]
  exact SymbolSurvey.reordered_ofSpelled _ hperm

/-- The trees with pointers are alike. -/
theorem alike_linked :
    stages.linked.Alike stages'.linked ∧ stages.applied = stages'.applied := by
  have hbuilt : (ModuleTree.ofSurvey stages.survey).Alike (.ofSurvey stages'.survey) := by
    rw [stages.survey_eq, stages'.survey_eq]
    exact ModuleTree.alike_ofSurvey _ hperm
  have hclassified := (stages.reordered_survey stages' hperm).classified
  have hnodup := SymbolSurvey.nodup_mangled_classified stages.surveyed
  have hnodup' := SymbolSurvey.nodup_mangled_classified stages'.surveyed
  have hdemangle : ∀ symbol,
      snapshot.demangle symbol = (snapshot.withSymbols symbols).demangle symbol := fun _ => rfl
  have hrole : ∀ r : RelocationRecord,
      r.pointerRole? stages.survey.classified = r.pointerRole? stages'.survey.classified := by
    intro r
    ext role
    simp only [pointerRole?_eq_some_iff hnodup, pointerRole?_eq_some_iff hnodup',
      hclassified.mem_iff]
  exact hbuilt.linkAll hdemangle hrole stages.holds_ofSurvey stages'.holds_ofSurvey
    stages.linkedAll stages'.linkedAll

/-- Whatever the order of the symbols, the trees with literals are alike, and the literals leave the
same diagnostics up to order. -/
theorem alike_filled (hapart : snapshot.SpelledApart) :
    stages.filled.tree.Alike stages'.filled.tree ∧
      stages.filled.stored = stages'.filled.stored ∧
        stages.filled.diagnostics.Perm stages'.filled.diagnostics := by
  have hclassified := (stages.reordered_survey stages' hperm).classified
  have hholds := (stages.holds_ofSurvey.linkAll stages.linkedAll).1
  have hholds' := (stages'.holds_ofSurvey.linkAll stages'.linkedAll).1
  have hfilled := LiteralProgress.foldlM_eq stages.filledAll
  have hfilled' := LiteralProgress.foldlM_eq stages'.filledAll
  simp only [ModuleTree.fillLiteral_withSymbols, ClassifiedSymbol.literal?_withSymbols,
    ClassifiedSymbol.literalDiagnostic?_withSymbols] at hfilled'
  rw [hfilled, hfilled']
  refine ⟨?_, ?_, ?_⟩
  · exact (stages.alike_linked stages' hperm).1.foldl_fillLiteral hholds hholds' hclassified
      (SymbolSurvey.eq_of_role_eq hapart stages.surveyed)
  · exact congrArg (0 + ·) (hclassified.filterMap _).length_eq
  · exact (hclassified.filterMap _).append_left _

omit hperm in
/-- The linker map is read without the symbol table. -/
theorem table_eq : stages.table = stages'.table :=
  Except.ok.inj (stages.tabled.symm.trans stages'.tabled)

/-- Whatever the order of the symbols, the trees with settled addresses are alike. -/
theorem alike_placed (hapart : snapshot.SpelledApart) :
    stages.placed.Alike stages'.placed := by
  have hresolved : (stages.filled.tree.resolve stages.table settings.target).1.Alike
      (stages'.filled.tree.resolve stages.table settings.target).1 :=
    (stages.alike_filled stages' hperm hapart).1.resolve
  have hprocedures := hresolved.hasProcedures_eq stages.wellFormed_filled.resolve
    stages'.wellFormed_filled.resolve
  exact hresolved.placeArguments hprocedures stages.placedAll
    (stages.table_eq stages' ▸ stages'.placedAll)

include stages stages'

/-- All that is counted comes to the same numbers. -/
theorem statistics_eq_of_perm (hapart : snapshot.SpelledApart) : x.statistics = y.statistics := by
  have hsurvey := stages.reordered_survey stages' hperm
  obtain ⟨-, happlied⟩ := stages.alike_linked stages' hperm
  obtain ⟨hfilled, hstored, hdiagnostics⟩ := stages.alike_filled stages' hperm hapart
  have hplaced := stages.alike_placed stages' hperm hapart
  have hfinished := hplaced.inherit stages.wellFormed_placed stages'.wellFormed_placed
  have hwellFormed := stages.wellFormed_placed.inherit
  have hwellFormed' := stages'.wellFormed_placed.inherit
  rw [stages.statistics_eq, stages'.statistics_eq, Statistics.mk.injEq]
  refine ⟨hsurvey.names.length_eq, hfinished.size_eq hwellFormed hwellFormed', ?_, ?_, ?_, happlied,
    hstored, ?_, ?_, (hsurvey.diagnostics.append hdiagnostics).length_eq⟩
  case refine_1 =>
    exact hfinished.count_eq hwellFormed hwellFormed' fun _ _ hmn => hmn.size_inputs_eq
  case refine_2 =>
    exact hfinished.count_eq hwellFormed hwellFormed' fun _ _ hmn => hmn.size_procedures_eq
  case refine_3 =>
    exact hfinished.count_eq hwellFormed hwellFormed' fun _ _ hmn => hmn.argumentCount_eq
  case refine_4 =>
    rw [← stages.table_eq stages']
    exact hfilled.addressCounts_eq stages.wellFormed_filled stages'.wellFormed_filled
  case refine_5 =>
    exact hplaced.inheritedCount_eq stages.wellFormed_placed stages'.wellFormed_placed

/-- Whatever the order of the symbols, the documents are the same up to the order of siblings. -/
theorem reordered_document (hapart : snapshot.SpelledApart) :
    x.document.Reordered y.document := by
  have hplaced := stages.alike_placed stages' hperm hapart
  have hfinished := hplaced.inherit stages.wellFormed_placed stages'.wellFormed_placed
  have hchecksum : stages.checksum = stages'.checksum :=
    Except.ok.inj (stages.checksummed.symm.trans stages'.checksummed)
  rw [stages.document_eq, stages'.document_eq, hchecksum]
  exact hfinished.reordered stages.wellFormed_placed.inherit stages'.wellFormed_placed.inherit _

end Stages

/-- When no two symbols have the same unmangled spelling, the order of the symbol table does not
matter beyond the order of siblings: with the symbols in another order an extraction succeeds
exactly when it did, its document is the same but for the order of siblings at every level, with
the same checksum, its statistics are the same, and so are its diagnostics but for their order. -/
theorem run_reordered_symbols (settings : Settings) (map : List MapEntry)
    (hperm : snapshot.symbols.Perm symbols) (hapart : snapshot.SpelledApart) :
    ((∃ y, run settings (snapshot.withSymbols symbols) map = .ok y) ↔
      ∃ x, run settings snapshot map = .ok x) ∧
    ∀ x y, run settings snapshot map = .ok x →
      run settings (snapshot.withSymbols symbols) map = .ok y →
        x.document.Reordered y.document ∧ x.statistics = y.statistics ∧
          x.diagnostics.Perm y.diagnostics ∧ x.document.checksum = y.document.checksum := by
  refine ⟨exists_run_withSymbols_iff hperm, fun x y hx hy => ?_⟩
  obtain ⟨stages⟩ := exists_stages hx
  obtain ⟨stages'⟩ := exists_stages hy
  have hdocument := stages.reordered_document stages' hperm hapart
  have hdiagnostics : x.diagnostics.Perm y.diagnostics := by
    rw [stages.diagnostics_eq, stages'.diagnostics_eq]
    exact (stages.reordered_survey stages' hperm).diagnostics.append
      (stages.alike_filled stages' hperm hapart).2.2
  exact ⟨hdocument, stages.statistics_eq_of_perm stages' hperm hapart, hdiagnostics,
    hdocument.checksum⟩

/-- The lamp with its symbols the other way round. -/
theorem lamp_reordered_symbols :
    let symbols := Lamp.snapshot.symbols.reverse
    Lamp.snapshot.symbols.Perm symbols ∧ Lamp.snapshot.SpelledApart ∧
      ∃ x y, run Lamp.settings Lamp.snapshot Lamp.map = .ok x ∧
        run Lamp.settings (Lamp.snapshot.withSymbols symbols) Lamp.map = .ok y ∧
          x.document.Reordered y.document ∧ x.statistics = y.statistics := by
  intro symbols
  have hperm : Lamp.snapshot.symbols.Perm symbols := (List.reverse_perm _).symm
  have hdistinct : ∀ a ∈ Lamp.snapshot.symbols, ∀ b ∈ Lamp.snapshot.symbols,
      Lamp.snapshot.unmangled a = Lamp.snapshot.unmangled b → a = b := by
    decide +kernel
  have hapart : Lamp.snapshot.SpelledApart := by
    intro a ha b hb text hta htb
    obtain ⟨rfl, -⟩ := Snapshot.demangle_eq_ok_iff.mp hta
    exact hdistinct a ha b hb (Snapshot.demangle_eq_ok_iff.mp htb).1
  obtain ⟨hruns, hsame⟩ := run_reordered_symbols Lamp.settings Lamp.map hperm hapart
  obtain ⟨x, hx, -⟩ := Lamp.exists_run
  obtain ⟨y, hy⟩ := hruns.mpr ⟨x, hx⟩
  obtain ⟨hdocument, hstatistics, -, -⟩ := hsame x y hx hy
  exact ⟨hperm, hapart, x, y, hx, hy, hdocument, hstatistics⟩

end Extraction

end FirmwareModel
