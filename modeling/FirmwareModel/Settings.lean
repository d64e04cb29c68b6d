import FirmwareModel.Json.Dialect
import FirmwareModel.Json.Writer
import FirmwareModel.Object.Symbol
import FirmwareModel.Text.Utf8
import FirmwareModel.Value.PrimitiveType

/-!
# Settings

Everything that depends on the target architecture or on the naming convention of the firmware.
A settings file is a JSON record; each member that it leaves out, at any level, has its default.
-/

namespace FirmwareModel

/-- Constants of the target architecture. -/
structure TargetSettings where
  /-- The load address at which data memory starts. -/
  ramBase : UInt64 := 0x800000
  /-- Bytes per unit in which code is addressed. -/
  instructionUnit : UInt64 := 2
  /-- The primitive types by the identifier that the firmware stores. -/
  typeTable : List PrimitiveType := PrimitiveType.defaultTable
  /-- The function that stands for "no update". -/
  noopCallable : String := "kaleidoscope::module::_______noUpdate_______()"
  /-- The overlay that all procedure arguments share. -/
  argumentBase : String := "kaleidoscope::module::_______procedure_args_union_______"
  deriving DecidableEq, Repr

/-- The reserved tokens in the names of exported symbols. -/
structure Markers where
  /-- The namespace of all exported modules, with the `::` at its end. -/
  namespaceText : String := "kaleidoscope::module::"
  module : String := "_______module_______"
  info : String := "_______info_______"
  inputs : String := "_______inputs_______"
  procedure : String := "_______procedure_______"
  arguments : String := "_______arguments_______"
  deriving DecidableEq, Repr

/-- The names of sections in relocation records, and the search order for literals. -/
structure SectionSettings where
  /-- How the sections that hold code begin. -/
  codeStems : List String := [".text"]
  /-- How the sections that hold data begin. -/
  dataStems : List String := [".data", ".bss"]
  /-- The kinds of section searched for a literal, first one first. -/
  payloadPriority : List SectionKind := SectionKind.all
  deriving DecidableEq, Repr

/-- The settings of an extraction. -/
structure Settings where
  target : TargetSettings := {}
  markers : Markers := {}
  sections : SectionSettings := {}
  /-- Whether literals may be fetched side by side; no answer depends on it. -/
  parallelPayloads : Bool := false
  deriving DecidableEq, Repr

/-- Why settings cannot be worked with. -/
inductive SettingsFault where
  | zeroInstructionUnit
  | emptyTypeTable
  | emptyPayloadPriority
  | emptyMarker (name : String)
  deriving DecidableEq, Repr

/-- The words for a fault in settings. -/
def SettingsFault.message : SettingsFault → String
  | zeroInstructionUnit => "instruction_unit must be non-zero"
  | emptyTypeTable => "type_table must not be empty"
  | emptyPayloadPriority => "payload_priority must not be empty"
  | emptyMarker name => "marker token '" ++ name ++ "' must not be empty"

namespace Markers

/-- The tokens with their names, in the order in which they are checked. -/
def tokens (m : Markers) : List (String × String) :=
  [("namespace", m.namespaceText), ("module", m.module), ("info", m.info), ("inputs", m.inputs),
    ("procedure", m.procedure), ("arguments", m.arguments)]

end Markers

namespace Settings

/-- The first thing that makes the settings unusable, if there is any. -/
def fault? (s : Settings) : Option SettingsFault :=
  if s.target.instructionUnit = 0 then some .zeroInstructionUnit
  else if s.target.typeTable.isEmpty then some .emptyTypeTable
  else if s.sections.payloadPriority.isEmpty then some .emptyPayloadPriority
  else
    (s.markers.tokens.find? fun (_, token) => token.isEmpty).map fun (name, _) => .emptyMarker name

/-- Accepts exactly the settings without a fault. -/
def validate (s : Settings) : Except SettingsFault Unit :=
  match s.fault? with
  | some fault => .error fault
  | none => .ok ()

/-! ## The written form -/

/-- A list in a settings file. -/
def listJson {α : Type} (encode : α → Json.Value) (items : List α) : Json.Value :=
  .array (items.map encode)

/-- The target section of a settings file. -/
def targetJson (t : TargetSettings) : Json.Value :=
  .record [
    ("ram_base", .word t.ramBase),
    ("instruction_unit", .word t.instructionUnit),
    ("type_table", listJson (fun type => .text type.name) t.typeTable),
    ("noop_callable", .text t.noopCallable),
    ("args_base_symbol", .text t.argumentBase)]

/-- The markers section of a settings file. -/
def markersJson (m : Markers) : Json.Value :=
  .record (m.tokens.map fun (name, token) => (name, .text token))

/-- The sections section of a settings file. -/
def sectionsJson (s : SectionSettings) : Json.Value :=
  .record [
    ("code_prefixes", listJson .text s.codeStems),
    ("data_prefixes", listJson .text s.dataStems),
    ("payload_priority", listJson (fun kind => .text kind.name) s.payloadPriority)]

/-- The settings as a JSON record. -/
def toJson (s : Settings) : Json.Value :=
  .record [
    ("target", targetJson s.target),
    ("markers", markersJson s.markers),
    ("sections", sectionsJson s.sections),
    ("parallel_payloads", .bool s.parallelPayloads)]

/-- The text of a settings file. -/
def save (s : Settings) : String :=
  s.toJson.pretty

/-! ## Reading -/

open Record

/-- Reads the target section; what is missing has its default. -/
def readTarget {ν : Type} (d : Dialect ν) : Reader ν TargetSettings :=
  d.record ["ram_base", "instruction_unit", "type_table", "noop_callable", "args_base_symbol"]
    fun depth ms => do
      let defaults : TargetSettings := {}
      let ramBase ← ms.withDefault "ram_base" defaults.ramBase d.word?
      let instructionUnit ← ms.withDefault "instruction_unit" defaults.instructionUnit d.word?
      let typeTable ← ms.withDefault "type_table" defaults.typeTable
        (d.list (d.choice PrimitiveType.ofName?) depth)
      let noopCallable ← ms.withDefault "noop_callable" defaults.noopCallable d.text?
      let argumentBase ← ms.withDefault "args_base_symbol" defaults.argumentBase d.text?
      return { ramBase, instructionUnit, typeTable, noopCallable, argumentBase }

/-- Reads the markers section; what is missing has its default. -/
def readMarkers {ν : Type} (d : Dialect ν) : Reader ν Markers :=
  d.record ["namespace", "module", "info", "inputs", "procedure", "arguments"] fun _ ms => do
    let defaults : Markers := {}
    let namespaceText ← ms.withDefault "namespace" defaults.namespaceText d.text?
    let module ← ms.withDefault "module" defaults.module d.text?
    let info ← ms.withDefault "info" defaults.info d.text?
    let inputs ← ms.withDefault "inputs" defaults.inputs d.text?
    let procedure ← ms.withDefault "procedure" defaults.procedure d.text?
    let arguments ← ms.withDefault "arguments" defaults.arguments d.text?
    return { namespaceText, module, info, inputs, procedure, arguments }

/-- Reads the sections section; what is missing has its default. -/
def readSections {ν : Type} (d : Dialect ν) : Reader ν SectionSettings :=
  d.record ["code_prefixes", "data_prefixes", "payload_priority"] fun depth ms => do
    let defaults : SectionSettings := {}
    let codeStems ← ms.withDefault "code_prefixes" defaults.codeStems (d.list d.text depth)
    let dataStems ← ms.withDefault "data_prefixes" defaults.dataStems (d.list d.text depth)
    let payloadPriority ← ms.withDefault "payload_priority" defaults.payloadPriority
      (d.list (d.choice SectionKind.ofName?) depth)
    return { codeStems, dataStems, payloadPriority }

/-- Reads settings; what is missing has its default. -/
def read {ν : Type} (d : Dialect ν) : Reader ν Settings :=
  d.record ["target", "markers", "sections", "parallel_payloads"] fun depth ms => do
    let target ← ms.withDefault "target" {} (readTarget d depth)
    let markers ← ms.withDefault "markers" {} (readMarkers d depth)
    let sections ← ms.withDefault "sections" {} (readSections d depth)
    let parallelPayloads ← ms.withDefault "parallel_payloads" false d.flag?
    return { target, markers, sections, parallelPayloads }

/-- The settings that a JSON text holds, usable or not. -/
def ofText? (text : String) : Option Settings :=
  Json.readRecord? (read Json.dialect) text

end Settings

end FirmwareModel
