import FirmwareModel.Json.Value
import FirmwareModel.Yaml.Style

/-!
# Writing YAML

The written form of a JSON value is in block style with two blanks per level. The items of a
sequence stand at the level of the name that the sequence belongs to, and empty collections are
written in flow style. Lines are never folded.
-/

namespace FirmwareModel.Yaml

open FirmwareModel.Text
open FirmwareModel.Json (Value)

/-- A hexadecimal numeral with at least that many digits. -/
def paddedHex (width n : Nat) : List Char :=
  let digits := numeral 16 n
  List.replicate (width - digits.length) '0' ++ digits

/-- The escape of a character between double quotes. -/
def escapeSequence (c : Char) : List Char :=
  match c with
  | '\x00' => ['\\', '0']
  | '\x07' => ['\\', 'a']
  | '\x08' => ['\\', 'b']
  | '\t' => ['\\', 't']
  | '\n' => ['\\', 'n']
  | '\x0b' => ['\\', 'v']
  | '\x0c' => ['\\', 'f']
  | '\r' => ['\\', 'r']
  | '\x1b' => ['\\', 'e']
  | '"' => ['\\', '"']
  | '\\' => ['\\', '\\']
  | '\u0085' => ['\\', 'N']
  | '\u00a0' => ['\\', '_']
  | '\u2028' => ['\\', 'L']
  | '\u2029' => ['\\', 'P']
  | _ =>
    let n := c.toNat
    if n ≤ 0xFF then '\\' :: 'x' :: paddedHex 2 n
    else if n ≤ 0xFFFF then '\\' :: 'u' :: paddedHex 4 n
    else '\\' :: 'U' :: paddedHex 8 n

/-- A character between double quotes. -/
def doubleQuotedChar (c : Char) : List Char :=
  if !isPlainlyPrintable c || isBreak c || c == '"' || c == '\\' then escapeSequence c else [c]

/-- A text between double quotes. -/
def doubleQuoted (s : List Char) : List Char :=
  '"' :: s.flatMap doubleQuotedChar ++ ['"']

/-- The blanks before a line at a level. -/
def indentation (level : Nat) : List Char :=
  List.replicate (2 * level) ' '

/-- The inside of single quotes. A quote is doubled, and a line that a break inside the text begins
is indented. -/
def singleQuotedBody (level : Nat) (afterBreak : Bool) : List Char → List Char
  | [] => if afterBreak then indentation level else []
  | c :: rest =>
    if isBreak c then c :: singleQuotedBody level true rest
    else
      (if afterBreak then indentation level else []) ++
        (if c = '\'' then ['\'', '\''] else [c]) ++ singleQuotedBody level false rest

/-- A text between single quotes, at the level of what it belongs to. -/
def singleQuoted (level : Nat) (s : List Char) : List Char :=
  '\'' :: singleQuotedBody (level + 1) false s ++ ['\'']

/-- The lines of a literal block; lines without characters have no indentation. -/
def literalBody (level : Nat) (lineStart : Bool) : List Char → List Char
  | [] => []
  | c :: rest =>
    if isBreak c then c :: literalBody level true rest
    else (if lineStart then indentation level else []) ++ c :: literalBody level false rest

/-- The sign for the indentation of a literal block, which is needed when its text begins with a
space or a break. -/
def indentationHint : List Char → List Char
  | [] => []
  | c :: _ => if c == ' ' || isBreak c then ['2'] else []

/-- The sign for the breaks at the end of a literal block: none for a single one. -/
def chompingHint (s : List Char) : List Char :=
  match s.reverse with
  | [] => ['-']
  | [c] => if isBreak c then ['+'] else ['-']
  | last :: previous :: _ =>
    if !isBreak last then ['-'] else if isBreak previous then ['+'] else []

/-- A text as a literal block, at the level of what it belongs to. -/
def literalBlock (level : Nat) (s : List Char) : List Char :=
  '|' :: indentationHint s ++ chompingHint s ++ '\n' :: literalBody (level + 1) true s

/-- A line break, unless the text before it ends with one. -/
def endLine (s : List Char) : List Char :=
  if s.getLast?.any isBreak then s else s ++ ['\n']

/-- A text with the end of its line, at the level of what it belongs to. -/
def textLines (level : Nat) (s : List Char) : List Char :=
  match styleOf s with
  | .plain => s ++ ['\n']
  | .singleQuoted => singleQuoted level s ++ ['\n']
  | .doubleQuoted => doubleQuoted s ++ ['\n']
  | .literal => endLine (literalBlock level s)

/-- A scalar value with the end of its line; collections without items count as scalars. -/
def scalarLines? (level : Nat) : Value → Option (List Char)
  | .null => some "null\n".toList
  | .bool true => some "true\n".toList
  | .bool false => some "false\n".toList
  | .number literal => some (literal.toList ++ ['\n'])
  | .string text => some (textLines level (text.getD "").toList)
  | .array [] => some "[]\n".toList
  | .object [] => some "\x7b\x7d\n".toList
  | .array _ | .object _ => none

mutual

/-- A value behind the name of a member at a level, or behind nothing. -/
def memberLines (level : Nat) : Value → List Char
  | .array (item :: items) => '\n' :: itemLines level (item :: items)
  | .object (member :: members) =>
    '\n' :: indentation (level + 1) ++ mappingLines (level + 1) (member :: members)
  | v => ' ' :: (scalarLines? level v).getD []

/-- The items of a sequence at a level. -/
def itemLines (level : Nat) : List Value → List Char
  | [] => []
  | .array (item :: items) :: rest =>
    indentation level ++ '-' :: ' ' :: (itemLines (level + 1) (item :: items)).drop (2 * (level + 1)) ++
      itemLines level rest
  | .object (member :: members) :: rest =>
    indentation level ++ '-' :: ' ' :: mappingLines (level + 1) (member :: members) ++
      itemLines level rest
  | v :: rest =>
    indentation level ++ '-' :: ' ' :: (scalarLines? level v).getD [] ++ itemLines level rest

/-- The members of a mapping at a level; the first one stands where the line has come to. -/
def mappingLines (level : Nat) : List (Option String × Value) → List Char
  | [] => []
  | [(name, value)] => (name.getD "").toList ++ ':' :: memberLines level value
  | (name, value) :: member :: members =>
    (name.getD "").toList ++ ':' :: memberLines level value ++ indentation level ++
      mappingLines level (member :: members)

end

/-- The YAML text of a JSON value. -/
def render (v : Value) : String :=
  String.ofList <|
    match v with
    | .array (item :: items) => itemLines 0 (item :: items)
    | .object (member :: members) => mappingLines 0 (member :: members)
    | v => (scalarLines? 0 v).getD []

end FirmwareModel.Yaml
