import FirmwareModel.Proofs.Extraction.Stages
import FirmwareModel.Proofs.Object.Payloads

/-!
# What becomes of each symbol

Every symbol of the table is accounted for once. Its name is at fault, and that is reported; or it
is no field of an entity; or it is a pointer, which is left to the relocation records; or it is a
literal, which is either stored or reported.
-/

namespace FirmwareModel

open FirmwareModel.Text

/-- When each item has exactly one of four properties, the items are as many as those with each of
them together. -/
theorem length_eq_countP_add_of_exactly_one {α : Type} {p q r s : α → Bool} {items : List α}
    (hone : ∀ a, (p a).toNat + (q a).toNat + (r a).toNat + (s a).toNat = 1) :
    items.length = items.countP p + items.countP q + items.countP r + items.countP s := by
  induction items with
  | nil => rfl
  | cons a items ih =>
    have ha := hone a
    have htoNat : ∀ b : Bool, b.toNat = if b then 1 else 0 := by decide
    simp only [htoNat] at ha
    simp only [List.length_cons, List.countP_cons]
    omega

/-! ## Kinds of roles -/

namespace Role

/-- The symbol is no field of an entity. -/
def isBare : Role → Bool
  | marker _ | irrelevant => true
  | _ => false

/-- Whether the section of the symbol holds a literal. -/
def isLiteral (role : Role) : Bool :=
  role.literalKind?.isSome

/-- Every role is of one kind: no field, a pointer or a literal. -/
theorem kinds (role : Role) :
    role.isBare.toNat + role.isPointer.toNat + role.isLiteral.toNat = 1 := by
  cases role with
  | marker path => rfl
  | irrelevant => rfl
  | moduleField path field => cases field <;> rfl
  | inputField path input field => cases field <;> rfl
  | procedureField path procedure field => cases field <;> rfl
  | argumentField path procedure argument field => cases field <;> rfl

/-- Literals belong to an entity. -/
theorem isSome_owner?_of_isLiteral {role : Role} (h : role.isLiteral) : role.owner?.isSome := by
  cases role with
  | marker path => cases h
  | irrelevant => cases h
  | moduleField path field => rfl
  | inputField path input field => rfl
  | procedureField path procedure field => rfl
  | argumentField path procedure argument field => rfl

end Role

variable {snapshot : Snapshot} {settings : Settings} {markers : Markers} {map : List MapEntry}
  {modules : List ModulePath}

namespace Snapshot

/-- The number of distinct symbols with a name that is read as a role of some sort. -/
def countRead (s : Snapshot) (markers : Markers) (modules : List ModulePath) (sort : Role → Bool) :
    Nat :=
  s.symbols.eraseDups.countP fun symbol =>
    (classify markers modules (s.unmangled symbol)).toOption.any sort

/-! ## Faults of literals -/

/-- The fault of a symbol that should hold a literal of a kind: it has no section, or the bytes of
the first one are no such literal. Bytes that cannot be read at all are no fault of the symbol. -/
def literalFault? (s : Snapshot) (settings : Settings) (symbol : String) (kind : LiteralKind) :
    Option Fault :=
  match s.firstSection? symbol settings.sections.payloadPriority with
  | none => some (.noSection symbol)
  | some (_, hex) =>
    match bytesOfHex hex with
    | .error _ => none
    | .ok bytes =>
      match Literal.decode settings.target.typeTable kind bytes with
      | .ok _ => none
      | .error fault => some (.literal symbol fault)

/-- A literal is at fault for what its symbol and the sections of the snapshot give rise to. -/
theorem literal_eq_error_iff {symbol : String} {kind : LiteralKind} {fault : Fault} :
    snapshot.literal settings symbol kind = .ok (.error fault) ↔
      snapshot.literalFault? settings symbol kind = some fault := by
  unfold literal literalFault?
  rw [findPayload_eq]
  cases snapshot.firstSection? symbol settings.sections.payloadPriority with
  | none => simp
  | some entry =>
    obtain ⟨place, hex⟩ := entry
    cases hbytes : bytesOfHex hex with
    | error why => simp [decodeHex, hbytes, Except.mapError, Except.map]
    | ok bytes =>
      cases hdecode : Literal.decode settings.target.typeTable kind bytes <;>
        simp [decodeHex, hbytes, hdecode, Except.mapError, Except.map]

/-- The diagnostic of a symbol that is read as a literal and has none. -/
def payloadDiagnostic? (s : Snapshot) (settings : Settings) (modules : List ModulePath)
    (symbol : String) : Option Diagnostic :=
  match classify settings.markers modules (s.unmangled symbol) with
  | .error _ => none
  | .ok role =>
    role.literalKind?.bind fun kind =>
      (s.literalFault? settings symbol kind).map fun fault =>
        .ofReport .payloads symbol fault.report

end Snapshot

/-- The diagnostic of a literal is that of its fault. -/
theorem ClassifiedSymbol.literalDiagnostic?_eq (s : ClassifiedSymbol) :
    s.literalDiagnostic? snapshot settings =
      s.role.literalKind?.bind fun kind =>
        (snapshot.literalFault? settings s.name.mangled kind).map fun fault =>
          .ofReport .payloads s.name.mangled fault.report := by
  unfold literalDiagnostic?
  congr 1
  funext kind
  cases hfault : snapshot.literalFault? settings s.name.mangled kind with
  | some fault => simp [Snapshot.literal_eq_error_iff.mpr hfault]
  | none =>
    split
    case h_1 fault hliteral => simp [Snapshot.literal_eq_error_iff.mp hliteral] at hfault
    case h_2 => rfl

/-! ## Literals one by one -/

namespace LiteralProgress

/-- A literal that causes no fatal fault is either stored or reported. -/
theorem step_balance {p p' : LiteralProgress} {s : ClassifiedSymbol}
    (h : p.step snapshot settings s = .ok p') :
    p'.stored + p'.diagnostics.length =
      p.stored + p.diagnostics.length + s.role.isLiteral.toNat := by
  unfold step at h
  unfold Role.isLiteral
  cases hkind : s.role.literalKind? with
  | none =>
    obtain rfl : p = p' := by simpa [hkind] using h
    rfl
  | some kind =>
    simp only [hkind] at h
    obtain ⟨result, -, hstep⟩ := bind_eq_ok_iff.mp h
    cases result with
    | ok literal =>
      obtain rfl := pure_eq_ok_iff.mp hstep
      simp only [Option.isSome_some, Bool.toNat_true]
      omega
    | error fault =>
      obtain rfl := pure_eq_ok_iff.mp hstep
      simp only [List.length_append, List.length_singleton, Option.isSome_some, Bool.toNat_true]
      omega

/-- All literals are either stored or reported. -/
theorem foldlM_balance {p p' : LiteralProgress} {classified : List ClassifiedSymbol}
    (h : classified.foldlM (step snapshot settings) p = .ok p') :
    p'.stored + p'.diagnostics.length =
      p.stored + p.diagnostics.length + classified.countP fun s => s.role.isLiteral := by
  induction classified generalizing p with
  | nil =>
    obtain rfl := pure_eq_ok_iff.mp h
    rfl
  | cons s classified ih =>
    rw [List.foldlM_cons, bind_eq_ok_iff] at h
    obtain ⟨mid, hmid, hrest⟩ := h
    rw [ih hrest, step_balance hmid, List.countP_cons]
    cases s.role.isLiteral <;> simp [Nat.add_assoc, Nat.add_comm 1]

end LiteralProgress

/-! ## The survey -/

namespace SymbolSurvey

/-- The names of a survey are the distinct symbols, each in the spelling of the snapshot. -/
theorem names_ofSpelled (markers : Markers) (snapshot : Snapshot) :
    (ofSpelled markers snapshot).names = snapshot.symbols.eraseDups.map snapshot.spell :=
  rfl

/-- The literals among the classified symbols are those of the table. -/
theorem countP_isLiteral_classified (markers : Markers) (snapshot : Snapshot) :
    ((ofSpelled markers snapshot).classified.countP fun s => s.role.isLiteral) =
      snapshot.countRead markers (ofSpelled markers snapshot).modules Role.isLiteral := by
  rw [classified_ofSpelled, names_ofSpelled, List.countP_filterMap, List.countP_map]
  refine List.countP_congr fun symbol _ => ?_
  simp only [Function.comp_apply, field?, Snapshot.spell]
  cases classify markers (ofSpelled markers snapshot).modules (snapshot.unmangled symbol) with
  | error fault => rfl
  | ok role =>
    dsimp only
    cases hliteral : role.isLiteral with
    | false => split <;> simp [Except.toOption, hliteral]
    | true => simp [Except.toOption, hliteral, Role.isSome_owner?_of_isLiteral hliteral]

/-- The literals that are reported are those of the table that have a fault. -/
theorem filterMap_literalDiagnostic? (settings : Settings) (snapshot : Snapshot) :
    (ofSpelled settings.markers snapshot).classified.filterMap
        (fun s => s.literalDiagnostic? snapshot settings) =
      snapshot.symbols.eraseDups.filterMap
        (snapshot.payloadDiagnostic? settings (ofSpelled settings.markers snapshot).modules) := by
  rw [classified_ofSpelled, names_ofSpelled, List.filterMap_filterMap, List.filterMap_map]
  refine List.filterMap_congr fun symbol _ => ?_
  simp only [Function.comp_apply, field?, Snapshot.payloadDiagnostic?, Snapshot.spell]
  cases classify settings.markers (ofSpelled settings.markers snapshot).modules
    (snapshot.unmangled symbol) with
  | error fault => rfl
  | ok role =>
    dsimp only
    cases hkind : role.literalKind? with
    | none => split <;> simp [ClassifiedSymbol.literalDiagnostic?_eq, hkind]
    | some kind =>
      have howner : role.owner?.isSome :=
        Role.isSome_owner?_of_isLiteral (by simp [Role.isLiteral, hkind])
      simp [ClassifiedSymbol.literalDiagnostic?_eq, hkind, howner]

/-- Every name is read as a role of one kind, or is at fault. -/
theorem length_names_ofSpelled (markers : Markers) (snapshot : Snapshot) :
    (ofSpelled markers snapshot).names.length =
      snapshot.countRead markers (ofSpelled markers snapshot).modules Role.isBare +
        snapshot.countRead markers (ofSpelled markers snapshot).modules Role.isPointer +
        snapshot.countRead markers (ofSpelled markers snapshot).modules Role.isLiteral +
        (ofSpelled markers snapshot).diagnostics.length := by
  rw [diagnostics_ofSpelled, names_ofSpelled, List.length_map, List.filterMap_map,
    List.length_filterMap_eq_countP]
  refine length_eq_countP_add_of_exactly_one fun symbol => ?_
  simp only [Function.comp_apply, diagnostic?, Snapshot.spell]
  cases classify markers (ofSpelled markers snapshot).modules (snapshot.unmangled symbol) with
  | error fault => rfl
  | ok role => exact role.kinds

end SymbolSurvey

namespace Extraction

variable {x : Extraction}

/-- Every symbol is accounted for once: it has at most one diagnostic, and the symbols without one
are those that are no field, those that are pointers and those that hold a literal. -/
structure AccountsForSymbols (settings : Settings) (snapshot : Snapshot)
    (modules : List ModulePath) (x : Extraction) : Prop where
  /-- First come the symbols whose names are at fault, then the literals that are, both in the order
  of the symbol table. -/
  diagnostics : x.diagnostics =
    snapshot.symbols.eraseDups.filterMap
        (fun symbol => SymbolSurvey.diagnostic? settings.markers modules (snapshot.spell symbol)) ++
      snapshot.symbols.eraseDups.filterMap (snapshot.payloadDiagnostic? settings modules)
  nodup : (x.diagnostics.map Diagnostic.symbol).Nodup
  pass : ∀ d ∈ x.diagnostics, d.pass = .classify ∨ d.pass = .payloads
  symbols : x.statistics.symbols =
    snapshot.countRead settings.markers modules Role.isBare +
      snapshot.countRead settings.markers modules Role.isPointer +
      x.statistics.payloadsDecoded + x.statistics.diagnostics

section

variable {symbol : String} {d : Diagnostic}

/-- A diagnostic of the survey is about its symbol, whose name is a faulty declaration. -/
theorem eq_of_diagnostic?
    (h : SymbolSurvey.diagnostic? markers modules (snapshot.spell symbol) = some d) :
    d.symbol = symbol ∧ d.pass = .classify ∧
      ∃ fault, classify markers modules (snapshot.unmangled symbol) = .error fault := by
  unfold SymbolSurvey.diagnostic? at h
  split at h
  case h_1 => cases h
  case h_2 fault hread =>
    obtain rfl := Option.some.inj h
    exact ⟨rfl, rfl, fault, hread⟩

/-- A diagnostic of a literal is about its symbol, whose name declares something. -/
theorem eq_of_payloadDiagnostic?
    (h : snapshot.payloadDiagnostic? settings modules symbol = some d) :
    d.symbol = symbol ∧ d.pass = .payloads ∧
      ∃ role, classify settings.markers modules (snapshot.unmangled symbol) = .ok role := by
  unfold Snapshot.payloadDiagnostic? at h
  split at h
  case h_1 => cases h
  case h_2 role hread =>
    obtain ⟨kind, -, hfault⟩ := Option.bind_eq_some_iff.mp h
    obtain ⟨fault, -, rfl⟩ := Option.map_eq_some_iff.mp hfault
    exact ⟨rfl, rfl, role, hread⟩

end

namespace Stages

variable (stages : Stages settings snapshot map x)

include stages

/-- The names at fault come first, the literals at fault after them. -/
theorem diagnostics_eq_append : x.diagnostics =
    snapshot.symbols.eraseDups.filterMap (fun symbol =>
        SymbolSurvey.diagnostic? settings.markers stages.survey.modules (snapshot.spell symbol)) ++
      snapshot.symbols.eraseDups.filterMap
        (snapshot.payloadDiagnostic? settings stages.survey.modules) := by
  have hfilled : stages.filled.diagnostics = stages.survey.classified.filterMap
      fun s => s.literalDiagnostic? snapshot settings := by
    rw [LiteralProgress.foldlM_eq stages.filledAll, List.nil_append]
  rw [stages.diagnostics_eq, hfilled, stages.survey_eq, SymbolSurvey.filterMap_literalDiagnostic?,
    SymbolSurvey.diagnostics_ofSpelled, SymbolSurvey.names_ofSpelled, List.filterMap_map]
  rfl

/-- No symbol has two diagnostics: a name at fault is read as no literal. -/
theorem nodup_diagnostics : (x.diagnostics.map Diagnostic.symbol).Nodup := by
  have hdistinct := nodup_eraseDups snapshot.symbols
  rw [stages.diagnostics_eq_append, List.map_append, List.nodup_append]
  refine ⟨?_, ?_, ?_⟩
  case refine_1 =>
    exact hdistinct.sublist (sublist_map_filterMap (fun _ _ h => (eq_of_diagnostic? h).1) _)
  case refine_2 =>
    exact hdistinct.sublist (sublist_map_filterMap (fun _ _ h => (eq_of_payloadDiagnostic? h).1) _)
  case refine_3 =>
    -- A symbol in both parts would be read as a role and be at fault.
    intro symbol hdeclaration other hpayload
    obtain ⟨d, hd, rfl⟩ := List.mem_map.mp hdeclaration
    obtain ⟨symbol, -, hsome⟩ := List.mem_filterMap.mp hd
    obtain ⟨d', hd', rfl⟩ := List.mem_map.mp hpayload
    obtain ⟨symbol', -, hsome'⟩ := List.mem_filterMap.mp hd'
    obtain ⟨rfl, -, fault, hfault⟩ := eq_of_diagnostic? hsome
    obtain ⟨rfl, -, role, hrole⟩ := eq_of_payloadDiagnostic? hsome'
    intro heq
    rw [heq, hrole] at hfault
    cases hfault

/-- Only the survey and the literals leave diagnostics. -/
theorem pass_of_mem_diagnostics : ∀ d ∈ x.diagnostics, d.pass = .classify ∨ d.pass = .payloads := by
  intro d hd
  rw [stages.diagnostics_eq_append, List.mem_append] at hd
  rcases hd with hdeclaration | hpayload
  · obtain ⟨symbol, -, hsome⟩ := List.mem_filterMap.mp hdeclaration
    exact Or.inl (eq_of_diagnostic? hsome).2.1
  · obtain ⟨symbol, -, hsome⟩ := List.mem_filterMap.mp hpayload
    exact Or.inr (eq_of_payloadDiagnostic? hsome).2.1

/-- The symbols are those that are no field, the pointers, the literals that are stored and the
diagnostics. -/
theorem symbols_eq_add : x.statistics.symbols =
    snapshot.countRead settings.markers stages.survey.modules Role.isBare +
      snapshot.countRead settings.markers stages.survey.modules Role.isPointer +
      x.statistics.payloadsDecoded + x.statistics.diagnostics := by
  have hnames := SymbolSurvey.length_names_ofSpelled settings.markers snapshot
  have hliterals := LiteralProgress.foldlM_balance stages.filledAll
  rw [← stages.survey_eq] at hnames
  rw [stages.survey_eq, SymbolSurvey.countP_isLiteral_classified, ← stages.survey_eq] at hliterals
  simp only [stages.statistics_eq, List.length_append]
  simp only [List.length_nil] at hliterals
  omega

end Stages

/-- Every symbol of a successful extraction is accounted for once. The diagnostics list first the
symbols whose names are at fault, then those whose literals are, each in the order of the symbol
table. All other symbols are no field, pointers, or literals that are stored. -/
theorem run_accounts_for_symbols (hrun : run settings snapshot map = .ok x) :
    ∃ survey, SymbolSurvey.ofSnapshot settings.markers snapshot = .ok survey ∧
      AccountsForSymbols settings snapshot survey.modules x := by
  obtain ⟨stages⟩ := exists_stages hrun
  exact ⟨stages.survey, stages.surveyed, {
    diagnostics := stages.diagnostics_eq_append
    nodup := stages.nodup_diagnostics
    pass := stages.pass_of_mem_diagnostics
    symbols := stages.symbols_eq_add }⟩

/-- The symbols of the lamp: one marks a module, four are pointers, and the size of the delay has no
section. -/
theorem lamp_accounts_for_symbols :
    ∃ x survey, run Lamp.settings Lamp.snapshot Lamp.map = .ok x ∧
      SymbolSurvey.ofSnapshot Lamp.settings.markers Lamp.snapshot = .ok survey ∧
        AccountsForSymbols Lamp.settings Lamp.snapshot survey.modules x ∧
          survey.names.map SymbolName.mangled = ["a", "b", "c", "d", "e", "f"] ∧
          (survey.classified.map fun s => (s.name.mangled, s.role.isPointer)) =
            [("b", true), ("c", true), ("d", true), ("e", true), ("f", false)] ∧
          x.diagnostics = [.ofReport .payloads "f" (.sectionLookup "f")] := by
  obtain ⟨x, hx, -⟩ := Lamp.exists_run
  obtain ⟨survey, hsurvey, haccounts⟩ := run_accounts_for_symbols hx
  obtain rfl := SymbolSurvey.eq_ofSpelled hsurvey
  refine ⟨x, _, hx, hsurvey, haccounts, by decide +kernel, by decide +kernel, ?_⟩
  rw [haccounts.diagnostics]
  decide +kernel

end Extraction

end FirmwareModel
