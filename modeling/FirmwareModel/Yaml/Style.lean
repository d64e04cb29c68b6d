import FirmwareModel.Yaml.Scalar

/-!
# Styles of scalars

A text is written plain when it can be, as a literal block when it has several lines, and between
quotes otherwise. What a style can hold depends on indicators, breaks, blanks at the ends and
characters that need escapes.
-/

namespace FirmwareModel.Yaml

open FirmwareModel.Text

/-- The styles in which a text is written. -/
inductive ScalarStyle where
  | plain | singleQuoted | doubleQuoted | literal
  deriving DecidableEq, Repr

/-- The characters that end a line. -/
def isBreak (c : Char) : Bool :=
  c == '\n' || c == '\r' || c == '\u0085' || c == '\u2028' || c == '\u2029'

/-- Characters after which an indicator counts: blanks, breaks and the end of the text. -/
def endsWord : List Char → Bool
  | [] => true
  | c :: _ => c == ' ' || c == '\t' || isBreak c

/-- The characters that may stand unescaped. -/
def isPlainlyPrintable (c : Char) : Bool :=
  let n := c.toNat
  n == 0x0A || (0x20 ≤ n && n ≤ 0x7E) || (0xA0 ≤ n && n ≤ 0xFFFD && n != 0xFEFF) || 0x10000 ≤ n

/-- The characters that no plain scalar begins with. -/
def isIndicator (c : Char) : Bool :=
  "#,[]\x7b\x7d&*!|>'\"%@`".toList.contains c

/-- Whether the first character is an indicator there. -/
def startsWithIndicator : List Char → Bool
  | [] => false
  | c :: rest => isIndicator c || ((c == '-' || c == '?' || c == ':') && endsWord rest)

/-- Whether a colon before a blank, or a sharp sign behind one, stands in the rest of a text. -/
def hasInnerIndicator (afterBlank : Bool) : List Char → Bool
  | [] => false
  | c :: rest =>
    (c == ':' && endsWord rest) || (c == '#' && afterBlank) ||
      hasInnerIndicator (c == ' ' || c == '\t' || isBreak c) rest

/-- Whether a text begins like the mark of a document. -/
def startsWithDocumentMark : List Char → Bool
  | '-' :: '-' :: '-' :: _ | '.' :: '.' :: '.' :: _ => true
  | _ => false

/-- Whether a space stands before a break. -/
def hasSpaceBreak : List Char → Bool
  | ' ' :: c :: rest => isBreak c || hasSpaceBreak (c :: rest)
  | _ :: rest => hasSpaceBreak rest
  | [] => false

/-- Whether a break stands before a space. -/
def hasBreakSpace : List Char → Bool
  | b :: c :: rest => (isBreak b && c == ' ') || hasBreakSpace (c :: rest)
  | _ => false

/-- Whether only escapes between double quotes can show the text. -/
def needsEscapes (s : List Char) : Bool :=
  hasSpaceBreak s || s.any fun c => !isPlainlyPrintable c

/-- Whether a text can be written plain. -/
def allowsPlain (s : List Char) : Bool :=
  match s with
  | [] => false
  | first :: rest =>
    !(needsEscapes s || startsWithDocumentMark s || startsWithIndicator s ||
      hasInnerIndicator (first == ' ' || first == '\t' || isBreak first) rest || s.any isBreak ||
      s.head? == some ' ' || s.getLast? == some ' ')

/-- Whether a text can be written between single quotes. -/
def allowsSingleQuotes (s : List Char) : Bool :=
  !(needsEscapes s || hasBreakSpace s)

/-- Whether a text can be written as a literal block. -/
def allowsLiteral (s : List Char) : Bool :=
  !(needsEscapes s || s.getLast? == some ' ' || s.isEmpty)

/-- The style in which a text is written. -/
def styleOf (s : List Char) : ScalarStyle :=
  if s.contains '\n' then if allowsLiteral s then .literal else .doubleQuoted
  else if allowsPlain s && !isTyped s && !hasLeadingZero s then .plain
  else if allowsSingleQuotes s then .singleQuoted
  else .doubleQuoted

end FirmwareModel.Yaml
