import FirmwareModel.Document.Codec
import FirmwareModel.Fault
import FirmwareModel.Yaml.Dialect
import FirmwareModel.Yaml.Writer

/-!
# Document files

A document is kept as JSON or as YAML; the extension of the path says which.
-/

namespace FirmwareModel

/-- The data formats of documents. -/
inductive DocumentFormat where
  | json | yaml
  deriving DecidableEq, Repr

namespace DocumentFormat

/-- The pieces between slashes. -/
def pieces : List Char → List (List Char)
  | [] => [[]]
  | '/' :: rest => [] :: pieces rest
  | c :: rest =>
    match pieces rest with
    | [] => [[c]]
    | piece :: others => (c :: piece) :: others

/-- The file that a path names: its last piece that is neither empty nor a dot, unless that goes up
a directory. -/
def fileName? (path : List Char) : Option (List Char) :=
  (((pieces path).filter fun piece => piece ≠ [] ∧ piece ≠ ['.']).getLast?).filter (· ≠ ['.', '.'])

/-- The extension of a file name: what stands behind its last dot, unless the dot comes first. -/
def extension? (name : List Char) : Option String :=
  let behind := name.reverse.takeWhile (· ≠ '.')
  if behind.length + 1 < name.length then some (String.ofList behind.reverse) else none

/-- The format of the document that a path names. -/
def ofPath (path : String) : Except Fault DocumentFormat :=
  match (fileName? path.toList).bind extension? with
  | some "json" => .ok json
  | some "yaml" => .ok yaml
  | some "yml" => .ok yaml
  | _ => .error (.unknownFormat path)

end DocumentFormat

namespace Document

/-- The text of a document as JSON. -/
def jsonText (document : Document) : String :=
  document.toJson.pretty

/-- The text of a document as YAML. -/
def yamlText (document : Document) : String :=
  Yaml.render document.toJson

/-- The text of a document in a format. -/
def text (document : Document) : DocumentFormat → String
  | .json => document.jsonText
  | .yaml => document.yamlText

/-- The document that a text in a format holds. -/
def ofText? (format : DocumentFormat) (text : String) : Option Document :=
  match format with
  | .json => Json.readRecord? (read Json.dialect) text
  | .yaml => Yaml.readRecord? (read Yaml.dialect) text

/-- The text to be written to a path. -/
def write (document : Document) (path : String) : Except Fault String :=
  (DocumentFormat.ofPath path).map document.text

/-- The document in the file at a path, given its octets if it exists. The file is read before its
format is looked at. -/
def load (path : String) (contents : Option (List UInt8)) : Except Fault Document :=
  match Text.fileText? contents with
  | none => .error .unreadableFile
  | some text =>
    match DocumentFormat.ofPath path with
    | .error fault => .error fault
    | .ok format =>
      match ofText? format text with
      | some document => .ok document
      | none => .error .undecodableDocument

end Document

end FirmwareModel
