import FirmwareModel.Object.Fault
import FirmwareModel.Text.Blank
import FirmwareModel.Text.Segments
import FirmwareModel.Text.Utf8

/-!
# Linker maps

The linker map is the only artifact that knows where retained symbols finally landed. After its
header, each section of a symbol has an indented line with the name of the section. The load
address is the next column, either on that line or, for long names, first on the next line.
-/

namespace FirmwareModel

open FirmwareModel.Text

/-- The output sections in which a symbol can be placed. -/
inductive MapSection where
  | text | data | bss
  deriving DecidableEq, Repr

/-- The output sections, in the order in which a line is tried against them. -/
def MapSection.all : List MapSection :=
  [text, data, bss]

/-- How the section of a symbol begins in the map. -/
def MapSection.stem : MapSection → String
  | text => ".text."
  | data => ".data."
  | bss => ".bss."

/-- A retained symbol and its load address. -/
structure MapEntry where
  place : MapSection
  symbol : String
  loadAddress : UInt64
  deriving DecidableEq, Repr

namespace MapEntry

/-- The line that opens the memory map. -/
def header : String :=
  "Linker script and memory map"

/-- The lines of a text. A line break at the end begins no further line. -/
def lines : List Char → List (List Char)
  | [] => []
  | '\n' :: rest => [] :: lines rest
  | c :: rest =>
    match lines rest with
    | [] => [[c]]
    | line :: others => (c :: line) :: others

/-- A load address: a hexadecimal numeral, with or without its mark. -/
def address? (column : List Char) : Option UInt64 :=
  wordValue? 16 (stripHexMark column)

/-- The load address in the first column of a line. -/
def leadingAddress? (line : List Char) : Option UInt64 :=
  (firstColumn? line).bind address?

/-- The symbol that stands behind the stem of a section, and what follows it. -/
def symbolIn? (line : List Char) (kind : MapSection) :
    Option (MapSection × List Char × List Char) := do
  let rest ← stripStart? kind.stem.toList line
  let symbol := rest.takeWhile isSymbolChar
  if symbol.isEmpty then none else some (kind, symbol, rest.dropWhile isSymbolChar)

/-- The section, the symbol and the rest of an indented line that names the section of a symbol. -/
def sectionLine? (line : List Char) : Option (MapSection × List Char × List Char) :=
  match line with
  | [] => none
  | c :: _ => if isBlank c then MapSection.all.findSome? (symbolIn? (trimStart line)) else none

/-- The section of a symbol whose load address is awaited on the next line. -/
structure Awaiting where
  /-- The number of the line that names the section. -/
  line : Nat
  place : MapSection
  symbol : String
  deriving DecidableEq, Repr

/-- The entries of the lines of a memory map, the first of which has the given number. An awaited
address that does not come gives no entry, and the line is then read for itself; an address must
not be awaited at the end. -/
def ofLines (awaiting : Option Awaiting) (number : Nat) :
    List (List Char) → Except ArtifactFault (List MapEntry)
  | [] =>
    match awaiting with
    | none => .ok []
    | some a => .error (.endsBeforeAddress a.line a.symbol)
  | line :: rest =>
    match awaiting, leadingAddress? line with
    | some a, some load => (ofLines none (number + 1) rest).map (⟨a.place, a.symbol, load⟩ :: ·)
    | _, _ =>
      match sectionLine? line with
      | none => ofLines none (number + 1) rest
      | some (place, symbol, tail) =>
        match leadingAddress? tail with
        | some load =>
          (ofLines none (number + 1) rest).map (⟨place, String.ofList symbol, load⟩ :: ·)
        | none => ofLines (some ⟨number, place, String.ofList symbol⟩) (number + 1) rest

/-- The number of the first line behind the header, with the lines from there on. -/
def behindHeader? (number : Nat) : List (List Char) → Option (Nat × List (List Char))
  | [] => none
  | line :: rest =>
    if (cutBefore? header.toList line).isSome then some (number + 1, rest)
    else behindHeader? (number + 1) rest

/-- The entries of a linker map, in the order of its lines. -/
def ofText (text : String) : Except ArtifactFault (List MapEntry) :=
  match behindHeader? 1 (lines text.toList) with
  | none => .error .noMemoryMap
  | some (number, rest) => ofLines none number rest

/-- The entries of a linker map file, given its octets if it exists. -/
def load (contents : Option (List UInt8)) : Except ArtifactFault (List MapEntry) :=
  match fileText? contents with
  | none => .error .unreadableFile
  | some text => ofText text

end MapEntry

end FirmwareModel
