import FirmwareModel.Json.Dialect
import FirmwareModel.Json.Writer
import FirmwareModel.Object.Fault
import FirmwareModel.Object.Relocation
import FirmwareModel.Table

/-!
# Snapshots of object files

A snapshot holds everything that an extraction asks about one compiled object: the symbols, their
unmangled spellings, the bytes of their sections and the relocation records. Bytes are kept in
hexadecimal and are decoded when they are asked for.
-/

namespace FirmwareModel

open FirmwareModel.Text

/-- Section bytes in hexadecimal, by symbol. -/
structure SectionPayloads where
  readOnly : Table String := .empty
  initialized : Table String := .empty
  zeroInitialized : Table String := .empty
  deriving DecidableEq, Repr

/-- The bytes kept for sections of a kind. -/
def SectionPayloads.table (s : SectionPayloads) : SectionKind → Table String
  | .readOnly => s.readOnly
  | .initialized => s.initialized
  | .zeroInitialized => s.zeroInitialized

/-- Set the bytes kept for the section of a symbol. -/
def SectionPayloads.insert (s : SectionPayloads) (kind : SectionKind) (symbol hex : String) :
    SectionPayloads :=
  match kind with
  | .readOnly => { s with readOnly := s.readOnly.insert symbol hex }
  | .initialized => { s with initialized := s.initialized.insert symbol hex }
  | .zeroInitialized => { s with zeroInitialized := s.zeroInitialized.insert symbol hex }

/-- The captured answers about one object file. -/
structure Snapshot where
  /-- The symbols in the order of the symbol table. -/
  symbols : List String := []
  /-- The unmangled spellings; a symbol without one is not mangled. -/
  demangled : Table String := .empty
  sections : SectionPayloads := {}
  /-- The relocation records in the order of the object file. -/
  relocations : List RelocationRecord := []
  /-- The object file itself. -/
  objectImage : Option String := none
  deriving DecidableEq, Repr

namespace Snapshot

/-! ## Building -/

/-- Set the unmangled spelling of a symbol, which need not be in the symbol table. -/
def addDemangled (s : Snapshot) (mangled unmangled : String) : Snapshot :=
  { s with demangled := s.demangled.insert mangled unmangled }

/-- Add a symbol to the table, with its unmangled spelling if that is another. -/
def addSymbol (s : Snapshot) (mangled unmangled : String) : Snapshot :=
  let spelled := if mangled = unmangled then s else s.addDemangled mangled unmangled
  { spelled with symbols := spelled.symbols ++ [mangled] }

/-- Set the bytes of the section of a symbol. -/
def addPayload (s : Snapshot) (kind : SectionKind) (symbol : String) (bytes : List UInt8) :
    Snapshot :=
  { s with sections := s.sections.insert kind symbol (hexOfBytes bytes) }

/-- Add a relocation record. -/
def addRelocation (s : Snapshot) (record : RelocationRecord) : Snapshot :=
  { s with relocations := s.relocations ++ [record] }

/-- Attach the object file. -/
def attachImage (s : Snapshot) (bytes : List UInt8) : Snapshot :=
  { s with objectImage := some (hexOfBytes bytes) }

/-! ## Questions -/

/-- The unmangled spelling of a symbol; an empty one is a fault. -/
def demangle (s : Snapshot) (symbol : String) : Except ArtifactFault String :=
  let unmangled := (s.demangled.find? symbol).getD symbol
  if unmangled = "" then .error (.emptyDemangling symbol) else .ok unmangled

/-- Bytes kept under a name in hexadecimal. -/
def decodeHex (name hex : String) : Except ArtifactFault (List UInt8) :=
  (bytesOfHex hex).mapError (.invalidHex name)

/-- The bytes of the section of a symbol, if the section exists. -/
def sectionBytes (s : Snapshot) (kind : SectionKind) (symbol : String) :
    Except ArtifactFault (Option (List UInt8)) :=
  match (s.sections.table kind).find? symbol with
  | some hex => (decodeHex (kind.sectionName symbol) hex).map some
  | none => .ok none

/-- The bytes of the first section that a symbol has, searching the kinds in order. -/
def findPayload (s : Snapshot) (symbol : String) :
    List SectionKind → Except ArtifactFault (Option (SectionKind × List UInt8))
  | [] => .ok none
  | kind :: kinds => do
    match ← s.sectionBytes kind symbol with
    | some bytes => return some (kind, bytes)
    | none => s.findPayload symbol kinds

/-- The bytes of the object file, if they were captured. -/
def image (s : Snapshot) : Except ArtifactFault (Option (List UInt8)) :=
  match s.objectImage with
  | some hex => (decodeHex "<object image>" hex).map some
  | none => .ok none

/-! ## The written form -/

/-- A table of texts in a snapshot file. -/
def tableJson (t : Table String) : Json.Value :=
  .record (t.entries.map fun (key, value) => (key, .text value))

/-- A relocation record in a snapshot file. -/
def relocationJson (r : RelocationRecord) : Json.Value :=
  .record [("container", .text r.container), ("reference", .text r.reference)]

/-- The snapshot as a JSON record. -/
def toJson (s : Snapshot) : Json.Value :=
  .record [
    ("symbols", .array (s.symbols.map .text)),
    ("demangled", tableJson s.demangled),
    ("sections", .record [
      ("rodata", tableJson s.sections.readOnly),
      ("data", tableJson s.sections.initialized),
      ("bss", tableJson s.sections.zeroInitialized)]),
    ("relocations", .array (s.relocations.map relocationJson)),
    ("object_image", .nullable .text s.objectImage)]

/-- The text of a snapshot file. -/
def save (s : Snapshot) : String :=
  s.toJson.pretty

/-! ## Reading -/

open Record

/-- Reads a table of texts. Of a repeated name, the first place and the last text count. -/
def readTable {ν : Type} (d : Dialect ν) : Reader ν (Table String) :=
  fun depth v => (d.entries d.text depth v).map Table.ofList

/-- Reads the section bytes; a kind that is missing has none. -/
def readSections {ν : Type} (d : Dialect ν) : Reader ν SectionPayloads :=
  d.record ["rodata", "data", "bss"] fun depth ms => do
    let readOnly ← ms.withDefault "rodata" .empty (readTable d depth)
    let initialized ← ms.withDefault "data" .empty (readTable d depth)
    let zeroInitialized ← ms.withDefault "bss" .empty (readTable d depth)
    return { readOnly, initialized, zeroInitialized }

/-- Reads a relocation record, which has to be complete. -/
def readRelocation {ν : Type} (d : Dialect ν) : Reader ν RelocationRecord :=
  d.record ["container", "reference"] fun _ ms => do
    let container ← ms.required "container" d.text?
    let reference ← ms.required "reference" d.text?
    return { container, reference }

/-- Reads a snapshot; what is missing is empty. -/
def read {ν : Type} (d : Dialect ν) : Reader ν Snapshot :=
  d.record ["symbols", "demangled", "sections", "relocations", "object_image"] fun depth ms => do
    let symbols ← ms.withDefault "symbols" [] (d.list d.text depth)
    let demangled ← ms.withDefault "demangled" .empty (readTable d depth)
    let sections ← ms.withDefault "sections" {} (readSections d depth)
    let relocations ← ms.withDefault "relocations" [] (d.list (readRelocation d) depth)
    let objectImage ← ms.withDefault "object_image" none (d.nullable d.text?)
    return { symbols, demangled, sections, relocations, objectImage }

/-- The snapshot that a file holds, given its octets if it exists. -/
def load (contents : Option (List UInt8)) : Except ArtifactFault Snapshot :=
  match fileText? contents with
  | none => .error .unreadableFile
  | some text =>
    match Json.readRecord? (read Json.dialect) text with
    | some snapshot => .ok snapshot
    | none => .error .undecodableSnapshot

end Snapshot

end FirmwareModel
