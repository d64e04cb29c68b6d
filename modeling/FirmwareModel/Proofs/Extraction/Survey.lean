import Mathlib.Data.List.Nodup
import FirmwareModel.Extraction
import FirmwareModel.Proofs.Grammar.Declarations
import FirmwareModel.Proofs.Object.Spelling
import FirmwareModel.Proofs.Outcome
import FirmwareModel.Proofs.Table

/-!
# What the symbol table tells

A survey lists the distinct symbols in the spelling of the snapshot, so no two classified symbols
are spelled alike, and a symbol is only classified as a field of a module that the survey found.
-/

namespace FirmwareModel

/-- When each result tells the item that it was made of, the items of all results are some of the
items, in their order. -/
theorem sublist_map_filterMap {α β : Type} {f : α → Option β} {item : β → α}
    (hitem : ∀ a b, f a = some b → item b = a) (items : List α) :
    ((items.filterMap f).map item).Sublist items := by
  induction items with
  | nil => simp
  | cons a items ih =>
    cases hresult : f a with
    | none =>
      rw [List.filterMap_cons_none hresult]
      exact ih.cons _
    | some b =>
      obtain rfl := hitem a b hresult
      rw [List.filterMap_cons_some hresult]
      exact ih.cons_cons _

namespace SymbolSurvey

variable {markers : Markers} {snapshot : Snapshot} {survey : SymbolSurvey}

/-- The names of a snapshot are its distinct symbols, in order of arrival. -/
theorem eq_map_spell_of_symbolNames {names : List SymbolName}
    (h : symbolNames snapshot = .ok names) :
    names = snapshot.symbols.eraseDups.map snapshot.spell := by
  unfold symbolNames at h
  split at h
  case h_1 => cases h
  case h_2 =>
    have hall := forall₂_of_mapM_eq_ok h
    generalize snapshot.symbols.eraseDups = symbols at hall
    clear h
    induction hall with
    | nil => rfl
    | @cons mangled name symbols names hname _ ih =>
      cases hunmangled : snapshot.demangle mangled with
      | error fault => simp [hunmangled] at hname
      | ok unmangled =>
        simp only [hunmangled, Except.ok.injEq] at hname
        obtain ⟨rfl, -⟩ := Snapshot.demangle_eq_ok_iff.mp hunmangled
        rw [List.map_cons, ← hname, ih]
        rfl

/-- What the symbol table tells, whether or not all symbols have a spelling. -/
def ofSpelled (markers : Markers) (snapshot : Snapshot) : SymbolSurvey :=
  let names := snapshot.symbols.eraseDups.map snapshot.spell
  let modules := declaredModules markers names
  { names, modules
    classified := names.filterMap (field? markers modules)
    diagnostics := names.filterMap (diagnostic? markers modules) }

/-- The modules of a survey are those that its names declare. -/
theorem modules_ofSpelled (markers : Markers) (snapshot : Snapshot) :
    (ofSpelled markers snapshot).modules =
      declaredModules markers (ofSpelled markers snapshot).names :=
  rfl

/-- The classified symbols of a survey are those of its names that are fields of entities. -/
theorem classified_ofSpelled (markers : Markers) (snapshot : Snapshot) :
    (ofSpelled markers snapshot).classified =
      (ofSpelled markers snapshot).names.filterMap
        (field? markers (ofSpelled markers snapshot).modules) :=
  rfl

/-- The diagnostics of a survey are those of its names that are at fault. -/
theorem diagnostics_ofSpelled (markers : Markers) (snapshot : Snapshot) :
    (ofSpelled markers snapshot).diagnostics =
      (ofSpelled markers snapshot).names.filterMap
        (diagnostic? markers (ofSpelled markers snapshot).modules) :=
  rfl

/-- A survey that succeeds is the one of the symbols in the spelling of the snapshot. -/
theorem eq_ofSpelled (h : ofSnapshot markers snapshot = .ok survey) :
    survey = ofSpelled markers snapshot := by
  obtain ⟨names, hnames, heq⟩ := bind_eq_ok_iff.mp h
  obtain rfl := pure_eq_ok_iff.mp heq
  obtain rfl := eq_map_spell_of_symbolNames hnames
  rfl

/-- A symbol with a role is one of the names, and its role is what its name is read as. -/
theorem field?_eq_some_iff {modules : List ModulePath} {name : SymbolName}
    {s : ClassifiedSymbol} :
    field? markers modules name = some s ↔
      s.name = name ∧ classify markers modules name.unmangled = .ok s.role ∧
        s.role.owner?.isSome := by
  unfold field?
  cases hclassify : classify markers modules name.unmangled with
  | error fault => simp
  | ok role =>
    simp only [Option.ite_none_right_eq_some, Option.some.injEq, Except.ok.injEq]
    constructor
    · rintro ⟨hfield, rfl⟩
      exact ⟨rfl, rfl, hfield⟩
    · rintro ⟨rfl, rfl, hfield⟩
      exact ⟨hfield, rfl⟩

/-- A classified symbol is one of the table, in the spelling of the snapshot, and its role is what
its name is read as. -/
theorem exists_of_mem_classified {s : ClassifiedSymbol}
    (hs : s ∈ (ofSpelled markers snapshot).classified) :
    ∃ symbol ∈ snapshot.symbols, s.name = snapshot.spell symbol ∧
      classify markers (ofSpelled markers snapshot).modules s.name.unmangled = .ok s.role ∧
        s.role.owner?.isSome := by
  obtain ⟨name, hname, hfield⟩ := List.mem_filterMap.mp hs
  obtain ⟨rfl, hread, hsome⟩ := field?_eq_some_iff.mp hfield
  obtain ⟨symbol, hsymbol, heq⟩ := List.mem_map.mp hname
  exact ⟨symbol, by simpa using hsymbol, heq.symm, hread, hsome⟩

/-- No two classified symbols are spelled alike. -/
theorem nodup_mangled_classified (h : ofSnapshot markers snapshot = .ok survey) :
    (survey.classified.map fun s => s.name.mangled).Nodup := by
  obtain rfl := eq_ofSpelled h
  have hnames : ((ofSpelled markers snapshot).names.map SymbolName.mangled).Nodup := by
    rw [ofSpelled, List.map_map]
    simpa [Function.comp_def, Snapshot.spell] using nodup_eraseDups snapshot.symbols
  have hfield : ∀ name s, field? markers (ofSpelled markers snapshot).modules name = some s →
      s.name = name :=
    fun name s hs => (field?_eq_some_iff.mp hs).1
  have hsublist := (sublist_map_filterMap hfield (ofSpelled markers snapshot).names).map
    SymbolName.mangled
  rw [List.map_map] at hsublist
  exact hnames.sublist hsublist

/-- Classified symbols only speak of modules that are declared. -/
theorem owner_mem_modules_ofSpelled :
    ∀ s ∈ (ofSpelled markers snapshot).classified, ∀ path member,
      s.role.owner? = some (path, member) → path ∈ (ofSpelled markers snapshot).modules := by
  intro s hs path member howner
  obtain ⟨-, -, -, hread, hsome⟩ := exists_of_mem_classified hs
  obtain ⟨owner, howner', hmem⟩ := (eq_declaration_of_classify hread hsome).1.module_mem
  obtain rfl := Option.some.inj (howner.symm.trans howner')
  exact hmem

/-- Classified symbols only speak of modules that the survey found. -/
theorem owner_mem_modules (h : ofSnapshot markers snapshot = .ok survey) :
    ∀ s ∈ survey.classified, ∀ path member, s.role.owner? = some (path, member) →
      path ∈ survey.modules := by
  obtain rfl := eq_ofSpelled h
  exact owner_mem_modules_ofSpelled

end SymbolSurvey

end FirmwareModel
