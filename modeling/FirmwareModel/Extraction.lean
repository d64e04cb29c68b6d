import FirmwareModel.Document.Basic
import FirmwareModel.Object.Checksum
import FirmwareModel.Tree.Addresses
import FirmwareModel.Tree.Inheritance
import FirmwareModel.Tree.Literals

/-!
# Extracting a model

An extraction reads the symbols, finds the modules that they declare and the role of each symbol,
builds the tree of entities, fills in pointers and literals, settles addresses by the linker map,
lets inputs take over callables, and writes the document. A fault of an artifact ends it; a fault
of one symbol leaves a diagnostic.
-/

namespace FirmwareModel

/-- The counts of an extraction. -/
structure Statistics where
  symbols : Nat
  modules : Nat
  inputs : Nat
  procedures : Nat
  arguments : Nat
  relocationsApplied : Nat
  payloadsDecoded : Nat
  addresses : AddressCounts
  callablesInherited : Nat
  diagnostics : Nat
  deriving DecidableEq, Repr

/-- The result of an extraction. -/
structure Extraction where
  document : Document
  statistics : Statistics
  /-- The faults of single symbols, in the order in which they were met. -/
  diagnostics : List Diagnostic
  deriving Repr

/-- What the symbol table tells. -/
structure SymbolSurvey where
  /-- The distinct symbols, in order of arrival. -/
  names : List SymbolName
  /-- The distinct modules that they declare, in order of arrival. -/
  modules : List ModulePath
  /-- The symbols that have a role in the model, in order. -/
  classified : List ClassifiedSymbol
  /-- The symbols that are at fault. -/
  diagnostics : List Diagnostic

namespace SymbolSurvey

/-- The distinct symbols of a snapshot in both spellings. -/
def symbolNames (snapshot : Snapshot) : Except Fault (List SymbolName) :=
  match snapshot.symbols.eraseDups with
  | [] => .error .noSymbols
  | symbols =>
    symbols.mapM fun mangled =>
      match snapshot.demangle mangled with
      | .ok unmangled => .ok ⟨mangled, unmangled⟩
      | .error fault => .error (.artifact fault)

/-- The distinct modules that symbols declare. -/
def declaredModules (markers : Markers) (names : List SymbolName) : List ModulePath :=
  (names.filterMap fun name => declaredModule? markers name.unmangled).eraseDups

/-- The symbol with its role, if that is a field of an entity. -/
def field? (markers : Markers) (modules : List ModulePath) (name : SymbolName) :
    Option ClassifiedSymbol :=
  match classify markers modules name.unmangled with
  | .ok role => if role.owner?.isSome then some ⟨name, role⟩ else none
  | .error _ => none

/-- The diagnostic of a symbol that is at fault. -/
def diagnostic? (markers : Markers) (modules : List ModulePath) (name : SymbolName) :
    Option Diagnostic :=
  match classify markers modules name.unmangled with
  | .ok _ => none
  | .error fault =>
    some (.ofReport .classify name.mangled (Fault.declaration name.mangled fault).report)

/-- What the symbol table of a snapshot tells. -/
def ofSnapshot (markers : Markers) (snapshot : Snapshot) : Except Fault SymbolSurvey := do
  let names ← symbolNames snapshot
  let modules := declaredModules markers names
  return {
    names, modules
    classified := names.filterMap (field? markers modules)
    diagnostics := names.filterMap (diagnostic? markers modules) }

end SymbolSurvey

/-- The tree with all declared modules and the entities of all classified symbols, with nothing
filled in. -/
def ModuleTree.ofSurvey (survey : SymbolSurvey) : ModuleTree :=
  let declared := survey.modules.foldl (fun t path => (t.ensure path).1) .empty
  survey.classified.foldl (fun t symbol => t.editOwner symbol.role .keep) declared

/-- The checksum of the object file of a snapshot, if its bytes were captured. -/
def checksum? (snapshot : Snapshot) : Except Fault (Option Checksum) :=
  match snapshot.image with
  | .ok image => .ok (image.map Checksum.ofImage)
  | .error fault => .error (.artifact fault)

namespace Extraction

/-- Extract a model with settings that are known to be usable. -/
def runValid (settings : Settings) (snapshot : Snapshot) (map : List MapEntry) :
    Except Fault Extraction := do
  let survey ← SymbolSurvey.ofSnapshot settings.markers snapshot
  let built := ModuleTree.ofSurvey survey
  let (linked, applied) ←
    ModuleTree.linkAll snapshot settings.sections survey.classified built snapshot.relocations
  let filled ← linked.fillLiterals snapshot settings survey.classified
  let table ← (AddressTable.ofMap snapshot map).mapError .artifact
  let (resolved, addresses) := filled.tree.resolve table settings.target
  let placed ← resolved.placeArguments table settings.target
  let (finished, inherited) := placed.inherit
  let checksum ← checksum? snapshot
  let diagnostics := survey.diagnostics ++ filled.diagnostics
  return {
    document := .ofTree finished (checksum.map Checksum.display)
    diagnostics
    statistics := {
      symbols := survey.names.length
      modules := finished.size
      inputs := finished.count fun m => m.inputs.size
      procedures := finished.count fun m => m.procedures.size
      arguments := finished.count fun m =>
        (m.procedures.values.map fun p => p.arguments.size).foldr (· + ·) 0
      relocationsApplied := applied
      payloadsDecoded := filled.stored
      addresses
      callablesInherited := inherited
      diagnostics := diagnostics.length } }

/-- Extract the model of a firmware build. -/
def run (settings : Settings) (snapshot : Snapshot) (map : List MapEntry) :
    Except Fault Extraction :=
  match settings.validate with
  | .error fault => .error (.settings fault)
  | .ok () => runValid settings snapshot map

/-- Extract the model of a firmware build from the octets of its snapshot file and its linker map
file, as far as they exist. -/
def ofFiles (settings : Settings) (snapshotFile mapFile : Option (List UInt8)) :
    Except Fault Extraction := do
  let snapshot ← (Snapshot.load snapshotFile).mapError .artifact
  let map ← (MapEntry.load mapFile).mapError .artifact
  run settings snapshot map

end Extraction

end FirmwareModel
