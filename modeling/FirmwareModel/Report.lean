/-!
# Reports and diagnostics

A report is what a user is told about a failure: its kind and the words for it. Failures that
concern one symbol only are recorded as diagnostics of the pass that met them; all others end the
extraction.
-/

namespace FirmwareModel

/-- What a user is told about a failure. -/
inductive Report where
  | io (reason : String)
  | parse (reason : String)
  | classification (symbol reason : String)
  | sectionLookup (symbol : String)
  | mapResolution (reason : String)
  | toolchain (reason : String)
  | config (reason : String)
  | notFound (reason : String)
  deriving DecidableEq, Repr

namespace Report

/-- The full text of a report. -/
def message : Report → String
  | io reason => "IO error: " ++ reason
  | parse reason => "Parse error: " ++ reason
  | classification symbol reason => "Classification error for '" ++ symbol ++ "': " ++ reason
  | sectionLookup symbol => "No payload section found for symbol '" ++ symbol ++ "'"
  | mapResolution reason => "Map resolution error: " ++ reason
  | toolchain reason => "Toolchain error: " ++ reason
  | config reason => "Configuration error: " ++ reason
  | notFound reason => "Not found: " ++ reason

/-- Whether the failure ends an extraction; others concern one symbol only. -/
def isFatal : Report → Bool
  | classification _ _ | sectionLookup _ => false
  | _ => true

end Report

/-- The passes of an extraction. -/
inductive Pass where
  | classify | buildTree | relocations | payloads | mapAddresses | argumentLayout | inheritance
  | serialize
  deriving DecidableEq, Repr

namespace Pass

/-- The passes in the order of execution. -/
def all : List Pass :=
  [classify, buildTree, relocations, payloads, mapAddresses, argumentLayout, inheritance,
    serialize]

/-- The name of a pass in messages. -/
def name : Pass → String
  | classify => "classify"
  | buildTree => "build-tree"
  | relocations => "relocations"
  | payloads => "payloads"
  | mapAddresses => "map-addresses"
  | argumentLayout => "argument-layout"
  | inheritance => "inheritance"
  | serialize => "serialize"

end Pass

/-- A failure that concerned one symbol and did not end the extraction. -/
structure Diagnostic where
  pass : Pass
  symbol : String
  message : String
  deriving DecidableEq, Repr

namespace Diagnostic

/-- The diagnostic of a reported failure. -/
def ofReport (pass : Pass) (symbol : String) (report : Report) : Diagnostic :=
  ⟨pass, symbol, report.message⟩

/-- The line that shows a diagnostic. -/
def display (d : Diagnostic) : String :=
  "[" ++ d.pass.name ++ "] " ++ d.symbol ++ ": " ++ d.message

end Diagnostic

end FirmwareModel
