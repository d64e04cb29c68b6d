/-!
# Symbols and their sections

An object file keeps each symbol in a section of its own, whose name is the kind of the section, a
dot and the symbol.
-/

namespace FirmwareModel

/-- A symbol in the spelling of the object file and in that of the sources. -/
structure SymbolName where
  mangled : String
  unmangled : String
  deriving DecidableEq, Repr

/-- The kinds of section that a literal can be stored in. -/
inductive SectionKind where
  /-- Read-only constants. -/
  | readOnly
  /-- Initialised data. -/
  | initialized
  /-- Data that starts as zero. -/
  | zeroInitialized
  deriving DecidableEq, Repr

namespace SectionKind

/-- The kinds, in the order in which literals are looked for by default. -/
def all : List SectionKind :=
  [readOnly, initialized, zeroInitialized]

/-- How the names of sections of the kind begin. -/
def stem : SectionKind → String
  | readOnly => ".rodata"
  | initialized => ".data"
  | zeroInitialized => ".bss"

/-- The name of the section that holds a symbol. -/
def sectionName (kind : SectionKind) (symbol : String) : String :=
  kind.stem ++ "." ++ symbol

/-- The name of the kind in settings. -/
def name : SectionKind → String
  | readOnly => "ReadOnly"
  | initialized => "Initialized"
  | zeroInitialized => "ZeroInitialized"

/-- The kind with a given name. -/
def ofName? (name : String) : Option SectionKind :=
  all.find? fun kind => kind.name = name

end SectionKind

end FirmwareModel
