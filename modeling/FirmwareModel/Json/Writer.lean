import FirmwareModel.Json.Value

/-!
# Writing JSON

The written form has one item or member per line, indented by two blanks per level, a colon and a
blank after a name, and no line break at the end. Only what JSON demands is escaped.
-/

namespace FirmwareModel.Json

open FirmwareModel.Text

/-- How a character stands in a string. -/
def escapedChar (c : Char) : List Char :=
  if c = '"' then ['\\', '"']
  else if c = '\\' then ['\\', '\\']
  else if c = '\x08' then ['\\', 'b']
  else if c = '\x0c' then ['\\', 'f']
  else if c = '\n' then ['\\', 'n']
  else if c = '\r' then ['\\', 'r']
  else if c = '\t' then ['\\', 't']
  else if c.toNat < 0x20 then
    ['\\', 'u', '0', '0', (digitChar (c.toNat / 16)).toLower, (digitChar (c.toNat % 16)).toLower]
  else [c]

/-- A text as a JSON string. -/
def quotedText (s : List Char) : List Char :=
  '"' :: s.flatMap escapedChar ++ ['"']

/-- A string or a member name; one that is no text is written empty. -/
def writtenString (text : Option String) : List Char :=
  quotedText (text.getD "").toList

/-- A line break and the indentation of a level. -/
def lineBreak (level : Nat) : List Char :=
  '\n' :: List.replicate (2 * level) ' '

mutual

/-- The written form of a value whose first line is at the given level. -/
def written (level : Nat) : Value → List Char
  | .null => "null".toList
  | .bool true => "true".toList
  | .bool false => "false".toList
  | .number literal => literal.toList
  | .string text => writtenString text
  | .array [] => ['[', ']']
  | .array (item :: items) =>
    '[' :: lineBreak (level + 1) ++ written (level + 1) item ++ writtenItems (level + 1) items ++
      lineBreak level ++ [']']
  | .object [] => ['{', '}']
  | .object ((name, value) :: members) =>
    '{' :: lineBreak (level + 1) ++ writtenString name ++ ':' :: ' ' ::
      written (level + 1) value ++ writtenMembers (level + 1) members ++ lineBreak level ++ ['}']

/-- The items after the first, each behind a comma. -/
def writtenItems (level : Nat) : List Value → List Char
  | [] => []
  | item :: items => ',' :: lineBreak level ++ written level item ++ writtenItems level items

/-- The members after the first, each behind a comma. -/
def writtenMembers (level : Nat) : List (Option String × Value) → List Char
  | [] => []
  | (name, value) :: members =>
    ',' :: lineBreak level ++ writtenString name ++ ':' :: ' ' :: written level value ++
      writtenMembers level members

end

/-- The text of a value. -/
def Value.pretty (value : Value) : String :=
  String.ofList (written 0 value)

end FirmwareModel.Json
