import FirmwareModel.Settings
import FirmwareModel.Text.Blank
import FirmwareModel.Text.Segments

/-!
# Relocation records

A pointer field is filled in by the linker, so the object file keeps a record for it: the section
that holds the field, and a line whose last column names what the field points at.
-/

namespace FirmwareModel

open FirmwareModel.Text

/-- A relocation record. -/
structure RelocationRecord where
  /-- The section being relocated, such as `.rodata._ZN3Foo4infoE`. -/
  container : String
  /-- The line of the record, such as `00000000 R_AVR_16_PM .text._ZN3Foo6updateEv`. -/
  reference : String
  deriving DecidableEq, Repr

/-- What a pointer field refers to. -/
inductive ReferenceTarget where
  | code (symbol : String)
  | data (symbol : String) (offset : UInt64)
  deriving DecidableEq, Repr

/-- The symbol that a target names. -/
def ReferenceTarget.symbol : ReferenceTarget → String
  | code symbol => symbol
  | data symbol _ => symbol

namespace RelocationRecord

/-- The symbol that the relocated section holds: what stands behind the last dot. -/
def containerSymbol (r : RelocationRecord) : String :=
  String.ofList (r.container.toList.reverse.takeWhile (· ≠ '.')).reverse

/-- The last column of the line. -/
def targetText? (r : RelocationRecord) : Option String :=
  (lastColumn? r.reference.toList).map String.ofList

end RelocationRecord

namespace ReferenceTarget

/-- The symbol behind a section stem and a dot, and what follows the symbol. -/
def splitSection? (target stem : List Char) : Option (List Char × List Char) := do
  let rest ← stripStart? (stem ++ ['.']) target
  let symbol := rest.takeWhile isSymbolChar
  if symbol.isEmpty then none else some (symbol, rest.dropWhile isSymbolChar)

/-- A hexadecimal addend, with or without its mark and one plus sign. -/
def addend? (text : List Char) : Option UInt64 :=
  match stripHexMark text with
  | '+' :: digits => wordValue? 16 digits
  | digits => wordValue? 16 digits

/-- The offset that the text behind a symbol gives: none that begins with a plus sign is zero. -/
def offset? : List Char → Option UInt64
  | '+' :: text => addend? text
  | _ => some 0

/-- The code symbol that a target names under one of the code sections. -/
def code? (stems : List String) (target : List Char) : Option ReferenceTarget :=
  (stems.findSome? fun stem => splitSection? target stem.toList).map fun (symbol, _) =>
    code (String.ofList symbol)

/-- The data symbol and offset that a target names under the first data section that fits. -/
def data? (stems : List String) (target : List Char) : Option ReferenceTarget := do
  let (symbol, rest) ← stems.findSome? fun stem => splitSection? target stem.toList
  let offset ← offset? rest
  return data (String.ofList symbol) offset

/-- What a target refers to; code sections are tried before data sections. -/
def ofText? (sections : SectionSettings) (target : String) : Option ReferenceTarget :=
  (code? sections.codeStems target.toList).or (data? sections.dataStems target.toList)

end ReferenceTarget

/-- What a relocation record refers to. -/
def RelocationRecord.target? (sections : SectionSettings) (r : RelocationRecord) :
    Option ReferenceTarget :=
  r.targetText?.bind (ReferenceTarget.ofText? sections)

end FirmwareModel
