import FirmwareModel.Grammar.Classify
import FirmwareModel.Object.Fault
import FirmwareModel.Object.Literal
import FirmwareModel.Report
import FirmwareModel.Settings
import FirmwareModel.Text.Quoted

/-!
# Faults

All the causes for which an operation of the library fails, and how each is reported.
-/

namespace FirmwareModel

open FirmwareModel.Text

/-- Why an operation fails. -/
inductive Fault where
  | unreadableFile
  | undecodableSettings
  | undecodableDocument
  | value (fault : ValueFault)
  /-- A member is asked for by a name without a module path. -/
  | unqualifiedMember (kind : EntityKind) (name : String)
  | declaration (symbol : String) (fault : DeclarationFault)
  | literal (symbol : String) (fault : LiteralFault)
  | noSection (symbol : String)
  /-- The overlay of the procedure arguments is not in the linker map. -/
  | unplacedArguments (symbol : String)
  /-- The overlay of the procedure arguments lies below data memory. -/
  | argumentsBelowRam (symbol : String) (load ramBase : UInt64)
  | artifact (fault : ArtifactFault)
  | noSymbols
  | settings (fault : SettingsFault)
  | unknownFormat (path : String)
  | noModule (path : List String)
  | noMember (kind : EntityKind) (name : String) (module : List String)
  deriving DecidableEq, Repr

/-- What a user is told about a fault. -/
def Fault.report : Fault → Report
  | unreadableFile => .io "the file cannot be read"
  | undecodableSettings => .parse "the text does not describe settings"
  | undecodableDocument => .parse "the text does not describe a model"
  | value fault => .parse fault.message
  | unqualifiedMember kind name =>
    .parse (kind.word ++ " name '" ++ name ++ "' needs a module path")
  | declaration symbol fault => .classification symbol fault.message
  | literal symbol fault => .classification symbol fault.message
  | noSection symbol => .sectionLookup symbol
  | unplacedArguments symbol => .mapResolution ("no load address for '" ++ symbol ++ "'")
  | argumentsBelowRam symbol load ramBase =>
    .mapResolution
      ("'" ++ symbol ++ "' at " ++ hexText load.toNat ++ " lies below RAM base " ++
        hexText ramBase.toNat)
  | artifact fault => .toolchain fault.message
  | noSymbols => .toolchain "object has no symbols"
  | settings fault => .config fault.message
  | unknownFormat path =>
    .config
      ("cannot tell document format of " ++ inDoubleQuotes path ++
        ", expected .json, .yaml or .yml")
  | noModule path => .notFound ("module path '" ++ qualified path ++ "'")
  | noMember kind name module =>
    .notFound (kind.word ++ " '" ++ name ++ "' in module '" ++ qualified module ++ "'")

end FirmwareModel
