import FirmwareModel.Proofs.Extraction.Stages
import FirmwareModel.Proofs.Object.Payloads

/-!
# What ends an extraction

With usable settings there are seven conditions that end an extraction. They are checked in a fixed
order, each by one stage, and the first one that holds decides what is reported. All other faults
concern one symbol: they leave a diagnostic and the extraction goes on.
-/

namespace FirmwareModel

open FirmwareModel.Text

/-! ## Symbols -/

/-- The fault of a symbol whose unmangled spelling is empty. -/
def Snapshot.Unspelled (s : Snapshot) (symbol : String) (fault : Fault) : Prop :=
  s.unmangled symbol = "" ∧ fault = .artifact (.emptyDemangling symbol)

section

variable {snapshot : Snapshot}

/-- Spelling a symbol fails when the snapshot has no spelling for it. -/
theorem Snapshot.failsBy_demangle (snapshot : Snapshot) (symbol : String) :
    FailsBy (snapshot.demangle symbol)
      [fun fault => snapshot.Unspelled symbol (.artifact fault)] := by
  have hiff : ∀ fault, snapshot.demangle symbol = .error fault ↔
      snapshot.Unspelled symbol (.artifact fault) := by
    simp [demangle_eq_error_iff, Unspelled]
  exact .single (fun fault hfault => (hiff fault).mp hfault)
    fun fault hcause => ⟨fault, (hiff fault).mpr hcause⟩

/-- The symbols are listed unless there are none or one of them has no spelling. -/
theorem SymbolSurvey.failsBy_ofSnapshot (markers : Markers) :
    FailsBy (ofSnapshot markers snapshot)
      [fun fault => snapshot.symbols = [] ∧ fault = .noSymbols,
        fun fault => ∃ symbol ∈ snapshot.symbols, snapshot.Unspelled symbol fault] := by
  have hmem : ∀ symbol, symbol ∈ snapshot.symbols.eraseDups ↔ symbol ∈ snapshot.symbols := by simp
  refine FailsBy.bind_ok ?_ fun names => ⟨_, rfl⟩
  unfold symbolNames
  cases hsymbols : snapshot.symbols.eraseDups with
  | nil =>
    have hnone : snapshot.symbols = [] := by
      simpa [hsymbols, List.eq_nil_iff_forall_not_mem] using hmem
    exact .error ⟨hnone, rfl⟩
  | cons first symbols =>
    have hsome : snapshot.symbols ≠ [] := by
      intro hnil
      simp [hnil] at hsymbols
    rw [hsymbols] at hmem
    simp only [← hmem]
    refine .cons (.mapM (fun symbol => ?_) (first :: symbols)) fun _ hcause => hsome hcause.1
    have hdemangle := snapshot.failsBy_demangle symbol
    cases hresult : snapshot.demangle symbol with
    | error fault => exact .error (hdemangle.of_single hresult)
    | ok unmangled =>
      refine .ok_of_not ?_
      rintro _ ⟨hempty, rfl⟩
      exact hdemangle.not_of_single hresult _ ⟨hempty, rfl⟩

/-! ## Pointers -/

variable {sections : SectionSettings} {classified : List ClassifiedSymbol}

/-- The fault of a record that fills in a pointer field with a target that has no spelling. -/
def RelocationRecord.UnspelledTarget (snapshot : Snapshot) (sections : SectionSettings)
    (classified : List ClassifiedSymbol) (r : RelocationRecord) (fault : Fault) : Prop :=
  (∃ s ∈ classified, s.role.isPointer ∧ s.name.mangled = r.containerSymbol) ∧
    ∃ target, r.target? sections = some target ∧ snapshot.Unspelled target.symbol fault

/-- A record fills in a pointer when its symbol is that of a pointer field. -/
theorem isSome_pointerRole?_iff {r : RelocationRecord} :
    (r.pointerRole? classified).isSome ↔
      ∃ s ∈ classified, s.role.isPointer ∧ s.name.mangled = r.containerSymbol := by
  simp [RelocationRecord.pointerRole?]

/-- Applying a record fails when the snapshot has no spelling for the symbol that it points to. -/
theorem ModuleTree.failsBy_link? (t : ModuleTree) (r : RelocationRecord) :
    FailsBy (t.link? snapshot sections classified r)
      [r.UnspelledTarget snapshot sections classified] := by
  unfold link? RelocationRecord.UnspelledTarget
  rw [← isSome_pointerRole?_iff]
  cases hrole : r.pointerRole? classified with
  | none => exact .ok_of_not (by simp)
  | some role =>
    cases htarget : r.target? sections with
    | none => exact .ok_of_not (by simp)
    | some target =>
      have hdemangle := snapshot.failsBy_demangle target.symbol
      cases hresult : snapshot.demangle target.symbol with
      | error fault =>
        have hcause := hdemangle.of_single hresult
        simp only [hresult]
        exact .error ⟨rfl, target, rfl, hcause⟩
      | ok unmangled =>
        have hnot : ∀ fault, ¬ snapshot.Unspelled target.symbol fault := by
          rintro _ ⟨hempty, rfl⟩
          exact hdemangle.not_of_single hresult _ ⟨hempty, rfl⟩
        simp only [hresult]
        cases role.owner? <;> exact .ok_of_not (by simpa using hnot)

/-- Following records fails by the target of one of them, whatever the tree. -/
theorem ModuleTree.failsBy_linkAll (t : ModuleTree) (records : List RelocationRecord) :
    FailsBy (linkAll snapshot sections classified t records)
      [fun fault => ∃ r ∈ records, r.UnspelledTarget snapshot sections classified fault] := by
  induction records generalizing t with
  | nil => exact .ok_of_not (by simp)
  | cons r records ih =>
    rw [linkAll]
    simp only [List.exists_mem_cons_iff]
    exact ((t.failsBy_link? r).bind fun next _ => (ih next.1).bind_ok fun _ => ⟨_, rfl⟩).merge

/-! ## Literals -/

variable {settings : Settings}

/-- The fault of a literal field whose first section holds no bytes in hexadecimal. -/
def ClassifiedSymbol.ForeignPayload (snapshot : Snapshot) (settings : Settings)
    (s : ClassifiedSymbol) (fault : Fault) : Prop :=
  s.role.literalKind?.isSome ∧ ∃ kind hex,
    snapshot.firstSection? s.name.mangled settings.sections.payloadPriority = some (kind, hex) ∧
      ¬ IsHex hex ∧ ∃ why, fault = .artifact (.invalidHex (kind.sectionName s.name.mangled) why)

/-- Filling in a literal fails when the first section of its symbol holds no bytes in
hexadecimal. -/
theorem LiteralProgress.failsBy_step (p : LiteralProgress) (s : ClassifiedSymbol) :
    FailsBy (p.step snapshot settings s) [s.ForeignPayload snapshot settings] := by
  unfold step ClassifiedSymbol.ForeignPayload
  cases hkind : s.role.literalKind? with
  | none => exact .ok_of_not (by simp)
  | some kind =>
    refine FailsBy.bind_ok ?_ fun result => ?_
    case refine_2 => cases result <;> exact ⟨_, rfl⟩
    unfold Snapshot.literal
    rw [Snapshot.findPayload_eq]
    cases hfirst : snapshot.firstSection? s.name.mangled settings.sections.payloadPriority with
    | none => exact .ok_of_not (by simp)
    | some entry =>
      obtain ⟨place, hex⟩ := entry
      have hdecode := Snapshot.failsBy_decodeHex (place.sectionName s.name.mangled) hex
      cases hbytes : Snapshot.decodeHex (place.sectionName s.name.mangled) hex with
      | error fault =>
        obtain ⟨hhex, why, rfl⟩ := hdecode.of_single hbytes
        simp only [hbytes, Except.map]
        exact .error ⟨rfl, place, hex, rfl, hhex, why, rfl⟩
      | ok bytes =>
        simp only [hbytes, Except.map]
        refine .ok_of_not ?_
        rintro _ ⟨-, _, _, heq, hhex, why, rfl⟩
        obtain ⟨rfl, rfl⟩ := Prod.mk.inj (Option.some.inj heq)
        exact hdecode.not_of_single hbytes _ ⟨hhex, why, rfl⟩

/-! ## The linker map -/

/-- Reading the linker map fails when the snapshot has no spelling for one of its symbols. -/
theorem AddressTable.failsBy_ofMap (map : List MapEntry) :
    FailsBy ((ofMap snapshot map).mapError Fault.artifact)
      [fun fault => ∃ entry ∈ map, snapshot.Unspelled entry.symbol fault] := by
  have hplacements : FailsBy (ofMap snapshot map)
      [fun fault => ∃ entry ∈ map, snapshot.Unspelled entry.symbol (.artifact fault)] := by
    refine FailsBy.bind_ok (.mapM (fun entry => ?_) map) fun _ => ⟨_, rfl⟩
    exact (snapshot.failsBy_demangle entry.symbol).bind_ok fun _ => ⟨_, rfl⟩
  have hfaults := hplacements.mapError Fault.artifact
  refine .single (fun fault hfault => ?_) ?_
  · obtain ⟨cause, ⟨entry, hentry, hcause⟩, rfl⟩ := hfaults.of_single hfault
    exact ⟨entry, hentry, hcause⟩
  · rintro _ ⟨entry, hentry, hempty, rfl⟩
    exact hfaults.fails _ (List.mem_singleton_self _) _ ⟨_, ⟨entry, hentry, hempty, rfl⟩, rfl⟩

/-- The fault of an overlay that the linker map does not place in data memory. -/
def TargetSettings.UnplacedArguments (target : TargetSettings) (snapshot : Snapshot)
    (map : List MapEntry) (fault : Fault) : Prop :=
  (firstSpelled? snapshot map target.argumentBase = none ∧
      fault = .unplacedArguments target.argumentBase) ∨
    ∃ entry, firstSpelled? snapshot map target.argumentBase = some entry ∧
      entry.loadAddress < target.ramBase ∧
        fault = .argumentsBelowRam target.argumentBase entry.loadAddress target.ramBase

/-- Placing arguments fails when there are procedures and the map puts no overlay in data memory. -/
theorem ModuleTree.failsBy_placeArguments {table : AddressTable} {map : List MapEntry}
    (htable : AddressTable.ofMap snapshot map = .ok table) (t : ModuleTree)
    (target : TargetSettings) : FailsBy (t.placeArguments table target)
      [fun fault => t.hasProcedures ∧ target.UnplacedArguments snapshot map fault] := by
  unfold placeArguments TargetSettings.UnplacedArguments
  rw [AddressTable.placement?_eq htable]
  split
  case isFalse hprocedures => exact .ok_of_not fun _ hcause => hprocedures hcause.1
  case isTrue hprocedures =>
    cases hfirst : firstSpelled? snapshot map target.argumentBase with
    | none => exact .error ⟨hprocedures, Or.inl ⟨rfl, rfl⟩⟩
    | some entry =>
      simp only [Option.map_some, AddressTable.placementOf]
      split
      case isTrue hlt => exact .error ⟨hprocedures, Or.inr ⟨entry, rfl, hlt, rfl⟩⟩
      case isFalse hlt =>
        refine .ok_of_not ?_
        rintro _ ⟨-, ⟨hnone, -⟩ | ⟨_, heq, hbelow, -⟩⟩
        · cases hnone
        · obtain rfl := Option.some.inj heq
          exact absurd hbelow hlt

/-! ## The object file -/

/-- The fault of an object file whose bytes are not kept in hexadecimal. -/
def Snapshot.ForeignImage (s : Snapshot) (fault : Fault) : Prop :=
  ∃ hex, s.objectImage = some hex ∧ ¬ IsHex hex ∧
    ∃ why, fault = .artifact (.invalidHex "<object image>" why)

/-- Taking the checksum fails when the bytes of the object file are not kept in hexadecimal. -/
theorem failsBy_checksum? (snapshot : Snapshot) :
    FailsBy (checksum? snapshot) [snapshot.ForeignImage] := by
  unfold checksum? Snapshot.image Snapshot.ForeignImage
  cases himage : snapshot.objectImage with
  | none => exact .ok_of_not (by simp)
  | some hex =>
    have hdecode := Snapshot.failsBy_decodeHex "<object image>" hex
    cases hbytes : Snapshot.decodeHex "<object image>" hex with
    | error fault =>
      obtain ⟨hhex, why, rfl⟩ := hdecode.of_single hbytes
      simp only [hbytes, Except.map]
      exact .error ⟨hex, rfl, hhex, why, rfl⟩
    | ok bytes =>
      simp only [hbytes, Except.map]
      refine .ok_of_not ?_
      rintro _ ⟨_, heq, hhex, why, rfl⟩
      obtain rfl := Option.some.inj heq
      exact hdecode.not_of_single hbytes _ ⟨hhex, why, rfl⟩

end

/-! ## The conditions in order -/

/-- The conditions that end an extraction with usable settings. -/
inductive FatalCondition where
  | noSymbols
  /-- A symbol of the table has no spelling. -/
  | unspelledSymbol
  /-- The record of a pointer field leads to a symbol without a spelling. -/
  | unspelledTarget
  /-- The first section of a literal field is not in hexadecimal. -/
  | foreignPayload
  /-- The linker map places a symbol without a spelling. -/
  | unspelledEntry
  /-- There are procedures, and their arguments have no overlay in data memory. -/
  | unplacedArguments
  /-- The object file is not in hexadecimal. -/
  | foreignImage
  deriving DecidableEq

namespace FatalCondition

/-- The conditions in the order in which they are checked. -/
def all : List FatalCondition :=
  [noSymbols, unspelledSymbol, unspelledTarget, foreignPayload, unspelledEntry, unplacedArguments,
    foreignImage]

/-- The condition holds, and the fault tells where. -/
def Causes (settings : Settings) (snapshot : Snapshot) (map : List MapEntry) (fault : Fault) :
    FatalCondition → Prop
  | noSymbols => snapshot.symbols = [] ∧ fault = .noSymbols
  | unspelledSymbol => ∃ symbol ∈ snapshot.symbols, snapshot.Unspelled symbol fault
  | unspelledTarget => ∃ r ∈ snapshot.relocations,
      r.UnspelledTarget snapshot settings.sections
        (SymbolSurvey.ofSpelled settings.markers snapshot).classified fault
  | foreignPayload => ∃ s ∈ (SymbolSurvey.ofSpelled settings.markers snapshot).classified,
      s.ForeignPayload snapshot settings fault
  | unspelledEntry => ∃ entry ∈ map, snapshot.Unspelled entry.symbol fault
  | unplacedArguments =>
    (ModuleTree.ofSurvey (SymbolSurvey.ofSpelled settings.markers snapshot)).hasProcedures ∧
      settings.target.UnplacedArguments snapshot map fault
  | foreignImage => snapshot.ForeignImage fault

/-- The condition holds. -/
def Holds (settings : Settings) (snapshot : Snapshot) (map : List MapEntry) (c : FatalCondition) :
    Prop :=
  ∃ fault, c.Causes settings snapshot map fault

variable {settings : Settings} {snapshot : Snapshot} {map : List MapEntry} {c : FatalCondition}
  {fault : Fault}

/-- Only the overlay of arguments is a matter of the linker map for the user. -/
theorem Causes.report (h : c.Causes settings snapshot map fault) :
    if c = unplacedArguments then ∃ reason, fault.report = .mapResolution reason
    else ∃ reason, fault.report = .toolchain reason := by
  cases c with
  | noSymbols =>
    obtain ⟨-, rfl⟩ := h
    exact ⟨_, rfl⟩
  | unspelledSymbol =>
    obtain ⟨_, -, -, rfl⟩ := h
    exact ⟨_, rfl⟩
  | unspelledTarget =>
    obtain ⟨_, -, -, _, -, -, rfl⟩ := h
    exact ⟨_, rfl⟩
  | foreignPayload =>
    obtain ⟨_, -, -, _, _, -, -, _, rfl⟩ := h
    exact ⟨_, rfl⟩
  | unspelledEntry =>
    obtain ⟨_, -, -, rfl⟩ := h
    exact ⟨_, rfl⟩
  | unplacedArguments => obtain ⟨-, ⟨-, rfl⟩ | ⟨_, -, -, rfl⟩⟩ := h <;> exact ⟨_, rfl⟩
  | foreignImage =>
    obtain ⟨_, -, -, _, rfl⟩ := h
    exact ⟨_, rfl⟩

end FatalCondition

namespace Extraction

variable {settings : Settings} {snapshot : Snapshot} {map : List MapEntry}

/-- The conditions are checked one stage after the other. -/
theorem failsBy_runValid : FailsBy (runValid settings snapshot map)
    (FatalCondition.all.map fun c fault => c.Causes settings snapshot map fault) := by
  refine (SymbolSurvey.failsBy_ofSnapshot settings.markers).bind fun survey hsurvey => ?_
  have hbuilt := ModuleTree.BuiltFrom.foldl_editOwner (SymbolSurvey.owner_mem_modules hsurvey)
  have hholds := hbuilt.holds (SymbolSurvey.owner_mem_modules hsurvey)
  obtain rfl := SymbolSurvey.eq_ofSpelled hsurvey
  refine (ModuleTree.failsBy_linkAll _ _).bind fun linked hlinked => ?_
  refine (FailsBy.foldlM LiteralProgress.failsBy_step _ _).bind fun filled hfilled => ?_
  refine (AddressTable.failsBy_ofMap map).bind fun table htable => ?_
  -- Whether arguments need an overlay is still what the symbols declare.
  have hprocedures : (filled.tree.resolve table settings.target).1.hasProcedures =
      (ModuleTree.ofSurvey (.ofSpelled settings.markers snapshot)).hasProcedures := by
    obtain ⟨hlinkedHolds, hlinkedOutline⟩ := hholds.linkAll hlinked
    have hunsettled := (hbuilt.unsettled snapshot).linkAll hholds hlinked
    have hfilledOutline := (hlinkedHolds.fillLiterals hunsettled hfilled).outline
    exact ModuleTree.hasProcedures_of_outline_eq
      ((filled.tree.outline_resolve).trans (hfilledOutline.trans hlinkedOutline))
  have hplaced := ModuleTree.failsBy_placeArguments (mapError_eq_ok_iff.mp htable)
    (filled.tree.resolve table settings.target).1 settings.target
  rw [hprocedures] at hplaced
  exact hplaced.bind fun placed _ => (failsBy_checksum? snapshot).bind_ok fun checksum => ⟨_, rfl⟩

/-- An extraction fails exactly if one of the conditions holds. -/
theorem exists_runValid_eq_error_iff : (∃ fault, runValid settings snapshot map = .error fault) ↔
    ∃ c : FatalCondition, c.Holds settings snapshot map := by
  have hall : ∀ c : FatalCondition, c ∈ FatalCondition.all := by
    intro c
    cases c <;> decide
  rw [failsBy_runValid.exists_error_iff]
  constructor
  · rintro ⟨cause, hmem, hcause⟩
    obtain ⟨c, -, rfl⟩ := List.mem_map.mp hmem
    exact ⟨c, hcause⟩
  · rintro ⟨c, hcause⟩
    exact ⟨_, List.mem_map_of_mem (hall c), hcause⟩

/-- An extraction leaves the diagnostics of the survey, then those of the literals. -/
theorem diagnostics_runValid {x : Extraction} (h : runValid settings snapshot map = .ok x) :
    x.diagnostics = (SymbolSurvey.ofSpelled settings.markers snapshot).diagnostics ++
      (SymbolSurvey.ofSpelled settings.markers snapshot).classified.filterMap
        (fun s => s.literalDiagnostic? snapshot settings) := by
  obtain ⟨survey, hsurvey, h⟩ := bind_eq_ok_iff.mp h
  obtain rfl := SymbolSurvey.eq_ofSpelled hsurvey
  obtain ⟨linked, -, h⟩ := bind_eq_ok_iff.mp h
  obtain ⟨filled, hfilled, h⟩ := bind_eq_ok_iff.mp h
  obtain ⟨table, -, h⟩ := bind_eq_ok_iff.mp h
  obtain ⟨placed, -, h⟩ := bind_eq_ok_iff.mp h
  obtain ⟨checksum, -, h⟩ := bind_eq_ok_iff.mp h
  obtain rfl := pure_eq_ok_iff.mp h
  exact congrArg _ (congrArg LiteralProgress.diagnostics (LiteralProgress.foldlM_eq hfilled))

/-- With usable settings an extraction fails exactly if one of the fatal conditions holds. The
first of them that holds is what is reported: a matter of the linker map if it is the overlay of
the arguments, else one of the artifacts. Symbols that are read as no declaration, and literal
fields without a section or with bytes that are no literal, never end an extraction; the ones of
a successful extraction are its diagnostics. -/
theorem run_fails_by_fatal_conditions (hvalid : settings.validate = .ok ()) :
    ((∃ fault, run settings snapshot map = .error fault) ↔
      ∃ c : FatalCondition, c.Holds settings snapshot map) ∧
    (∀ fault, run settings snapshot map = .error fault →
      ∃ before c after, FatalCondition.all = before ++ c :: after ∧
        (∀ other ∈ before, ¬ other.Holds settings snapshot map) ∧
        c.Causes settings snapshot map fault ∧
        if c = .unplacedArguments then ∃ reason, fault.report = .mapResolution reason
        else ∃ reason, fault.report = .toolchain reason) ∧
    ∀ x, run settings snapshot map = .ok x →
      x.diagnostics = (SymbolSurvey.ofSpelled settings.markers snapshot).diagnostics ++
        (SymbolSurvey.ofSpelled settings.markers snapshot).classified.filterMap
          (fun s => s.literalDiagnostic? snapshot settings) := by
  have hrun : run settings snapshot map = runValid settings snapshot map := by
    simp [run, hvalid]
  rw [hrun]
  refine ⟨exists_runValid_eq_error_iff, fun fault hfault => ?_, fun x hx => diagnostics_runValid hx⟩
  obtain ⟨before, cause, after, hcauses, hcause, hbefore⟩ := failsBy_runValid.first fault hfault
  obtain ⟨before, rest, hall, rfl, hrest⟩ := List.map_eq_append_iff.mp hcauses
  obtain ⟨c, after, rfl, rfl, rfl⟩ := List.map_eq_cons_iff.mp hrest
  refine ⟨before, c, after, hall, fun other hother ⟨fault', hother'⟩ => ?_, hcause, hcause.report⟩
  exact hbefore _ (List.mem_map_of_mem hother) fault' hother'

/-- A lamp whose overlay the linker map lacks, and whose object file is not in hexadecimal either:
the overlay is checked first. -/
theorem lamp_fails_without_overlay :
    let lamp := { Lamp.snapshot with objectImage := some "?" }
    Lamp.settings.validate = .ok () ∧
      run Lamp.settings lamp [] = .error (.unplacedArguments "overlay") ∧
      FatalCondition.foreignImage.Holds Lamp.settings lamp [] ∧
      ∃ before after, FatalCondition.all = before ++ .unplacedArguments :: after ∧
        ∀ other ∈ before, ¬ other.Holds Lamp.settings lamp [] := by
  intro lamp
  have hvalid : Lamp.settings.validate = .ok () := by decide +kernel
  have hrun : run Lamp.settings lamp [] = .error (.unplacedArguments "overlay") := by
    have hfault : (run Lamp.settings lamp []).map (fun _ => ()) =
        .error (.unplacedArguments "overlay") := by
      decide +kernel
    exact map_eq_error_iff.mp hfault
  have himage : FatalCondition.foreignImage.Holds Lamp.settings lamp [] :=
    ⟨.artifact (.invalidHex "<object image>" .oddLength), "?", rfl, fun hhex => by
      exact absurd hhex.1 (by decide +kernel), _, rfl⟩
  obtain ⟨before, c, after, hall, hbefore, -, hreport⟩ :=
    (run_fails_by_fatal_conditions hvalid).2.1 _ hrun
  split at hreport
  case isTrue hc => exact ⟨hvalid, hrun, himage, before, after, hc ▸ hall, hbefore⟩
  case isFalse hc =>
    obtain ⟨reason, hreason⟩ := hreport
    cases hreason

end Extraction

end FirmwareModel
