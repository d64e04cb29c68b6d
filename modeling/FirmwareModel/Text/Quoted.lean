import FirmwareModel.Text.Numeral
import FirmwareModel.Text.Printable

/-!
# Quoted texts

A text or a single character inside a message is shown between quotes, with escapes for the quote
itself, the backslash, common controls and everything that would not be seen. Other characters
stand for themselves. Code points are written in lower-case hexadecimal, as in `\u{200b}`.
-/

namespace FirmwareModel.Text

/-- The lower-case hexadecimal numeral of a code point between braces, after a `u`. -/
def codePointEscape (c : Char) : List Char :=
  '\\' :: 'u' :: '{' :: (numeral 16 c.toNat).map Char.toLower ++ ['}']

/-- How a character is shown between two copies of `quote`. -/
def quotedChar (quote c : Char) : List Char :=
  if c = quote ∨ c = '\\' then ['\\', c]
  else if c = '\x00' then ['\\', '0']
  else if c = '\t' then ['\\', 't']
  else if c = '\n' then ['\\', 'n']
  else if c = '\r' then ['\\', 'r']
  else if extendsGrapheme c || !isPrintable c then codePointEscape c
  else [c]

/-- A character between single quotes. -/
def inSingleQuotes (c : Char) : String :=
  String.ofList ('\'' :: quotedChar '\'' c ++ ['\''])

/-- A text between double quotes. -/
def inDoubleQuotes (s : String) : String :=
  String.ofList ('"' :: s.toList.flatMap (quotedChar '"') ++ ['"'])

end FirmwareModel.Text
