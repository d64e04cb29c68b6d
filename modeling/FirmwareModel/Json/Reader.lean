import FirmwareModel.Json.Value
import FirmwareModel.Text.Segments

/-!
# Reading JSON

Strict JSON: no comments, no trailing commas and nothing after the value but blanks. A lone
surrogate escape is well formed here and shows in the value, because only a reader of the value
knows whether that string matters.
-/

namespace FirmwareModel.Json

open FirmwareModel.Text

/-- The blanks that may stand between tokens. -/
def isSpace (c : Char) : Bool :=
  c == ' ' || c == '\t' || c == '\n' || c == '\r'

/-- The text without the blanks at its start. -/
def skipSpace (s : List Char) : List Char :=
  s.dropWhile isSpace

/-- A piece of a string: a character, or a code unit given by a `\u` escape. -/
inductive Piece where
  | char (c : Char)
  | codeUnit (n : Nat)
  deriving DecidableEq, Repr

/-- The character that a short escape stands for. -/
def shortEscape? : Char → Option Char
  | '"' => some '"'
  | '\\' => some '\\'
  | '/' => some '/'
  | 'b' => some '\x08'
  | 'f' => some '\x0c'
  | 'n' => some '\n'
  | 'r' => some '\r'
  | 't' => some '\t'
  | _ => none

/-- The pieces of a string up to its closing quote, and the text after it. -/
def readPieces : List Char → Option (List Piece × List Char)
  | [] => none
  | '"' :: rest => some ([], rest)
  | '\\' :: 'u' :: a :: b :: c :: d :: rest =>
    match continueNumeral? 16 0 [a, b, c, d], readPieces rest with
    | some n, some (pieces, rest) => some (.codeUnit n :: pieces, rest)
    | _, _ => none
  | '\\' :: e :: rest =>
    match shortEscape? e, readPieces rest with
    | some c, some (pieces, rest) => some (.char c :: pieces, rest)
    | _, _ => none
  | c :: rest =>
    if c.toNat < 0x20 ∨ c = '\\' then none
    else
      match readPieces rest with
      | some (pieces, rest) => some (.char c :: pieces, rest)
      | none => none

/-- Whether a code unit is the first half of a surrogate pair. -/
def isHighSurrogate (n : Nat) : Bool :=
  0xD800 ≤ n && n < 0xDC00

/-- Whether a code unit is the second half of a surrogate pair. -/
def isLowSurrogate (n : Nat) : Bool :=
  0xDC00 ≤ n && n < 0xE000

/-- The characters that pieces spell, unless a surrogate stands without its partner. -/
def joinPieces? : List Piece → Option (List Char)
  | [] => some []
  | .char c :: rest => (joinPieces? rest).map (c :: ·)
  | [.codeUnit n] => if isHighSurrogate n || isLowSurrogate n then none else some [Char.ofNat n]
  | .codeUnit n :: .char c :: rest =>
    if isHighSurrogate n || isLowSurrogate n then none
    else (joinPieces? rest).map fun s => Char.ofNat n :: c :: s
  | .codeUnit n :: .codeUnit m :: rest =>
    if isHighSurrogate n && isLowSurrogate m then
      (joinPieces? rest).map (Char.ofNat (0x10000 + (n - 0xD800) * 0x400 + (m - 0xDC00)) :: ·)
    else if isHighSurrogate n || isLowSurrogate n then none
    else (joinPieces? (.codeUnit m :: rest)).map (Char.ofNat n :: ·)

/-- A string after its opening quote, and the text after it. -/
def readString (s : List Char) : Option (Option String × List Char) :=
  (readPieces s).map fun (pieces, rest) => ((joinPieces? pieces).map String.ofList, rest)

/-- One or more digits, and the text after them. -/
def readDigits (s : List Char) : Option (List Char × List Char) :=
  let digits := s.takeWhile (isDigitIn 10)
  if digits.isEmpty then none else some (digits, s.dropWhile (isDigitIn 10))

/-- The whole part of a number: a zero alone, or digits that begin with another. -/
def readWhole : List Char → Option (List Char × List Char)
  | '0' :: rest => some (['0'], rest)
  | s => readDigits s

/-- The optional fraction of a number. -/
def readFraction : List Char → Option (List Char × List Char)
  | '.' :: rest => (readDigits rest).map fun (digits, rest) => ('.' :: digits, rest)
  | s => some ([], s)

/-- The optional sign of an exponent. -/
def readExponentSign : List Char → List Char × List Char
  | '+' :: rest => (['+'], rest)
  | '-' :: rest => (['-'], rest)
  | s => ([], s)

/-- The optional exponent of a number. -/
def readExponent : List Char → Option (List Char × List Char)
  | [] => some ([], [])
  | c :: rest =>
    if c = 'e' ∨ c = 'E' then
      let (sign, rest) := readExponentSign rest
      (readDigits rest).map fun (digits, rest) => (c :: sign ++ digits, rest)
    else some ([], c :: rest)

/-- The literal of a number without its sign, and the text after it. -/
def readMagnitude (s : List Char) : Option (List Char × List Char) := do
  let (whole, s) ← readWhole s
  let (fraction, s) ← readFraction s
  let (exponent, s) ← readExponent s
  return (whole ++ fraction ++ exponent, s)

/-- A number, and the text after it. -/
def readNumber : List Char → Option (Value × List Char)
  | '-' :: rest =>
    (readMagnitude rest).map fun (digits, rest) => (.number (String.ofList ('-' :: digits)), rest)
  | s => (readMagnitude s).map fun (digits, rest) => (.number (String.ofList digits), rest)

mutual

/-- A value at the start of the text, and the text after it. -/
def readValue : Nat → List Char → Option (Value × List Char)
  | 0, _ => none
  | fuel + 1, s =>
    match s with
    | '{' :: rest =>
      match skipSpace rest with
      | '}' :: rest => some (.object [], rest)
      | rest => (readMembers fuel rest).map fun (members, rest) => (.object members, rest)
    | '[' :: rest =>
      match skipSpace rest with
      | ']' :: rest => some (.array [], rest)
      | rest => (readItems fuel rest).map fun (items, rest) => (.array items, rest)
    | '"' :: rest => (readString rest).map fun (text, rest) => (.string text, rest)
    | 'n' :: rest => (stripStart? ['u', 'l', 'l'] rest).map fun rest => (.null, rest)
    | 't' :: rest => (stripStart? ['r', 'u', 'e'] rest).map fun rest => (.bool true, rest)
    | 'f' :: rest => (stripStart? ['a', 'l', 's', 'e'] rest).map fun rest => (.bool false, rest)
    | s => readNumber s

/-- The items of an array that has at least one, up to its closing bracket. -/
def readItems : Nat → List Char → Option (List Value × List Char)
  | 0, _ => none
  | fuel + 1, s => do
    let (item, rest) ← readValue fuel s
    match skipSpace rest with
    | ']' :: rest => some ([item], rest)
    | ',' :: rest =>
      let (items, rest) ← readItems fuel (skipSpace rest)
      some (item :: items, rest)
    | _ => none

/-- The members of an object that has at least one, up to its closing brace. -/
def readMembers : Nat → List Char → Option (List (Option String × Value) × List Char)
  | 0, _ => none
  | fuel + 1, s =>
    match s with
    | '"' :: rest => do
      let (name, rest) ← readString rest
      match skipSpace rest with
      | ':' :: rest =>
        let (value, rest) ← readValue fuel (skipSpace rest)
        match skipSpace rest with
        | '}' :: rest => some ([(name, value)], rest)
        | ',' :: rest =>
          let (members, rest) ← readMembers fuel (skipSpace rest)
          some ((name, value) :: members, rest)
        | _ => none
      | _ => none
    | _ => none

end

/-- The value that a text is. Two steps per character are enough for any value. -/
def read? (text : String) : Option Value :=
  let s := text.toList
  match readValue (2 * s.length + 2) (skipSpace s) with
  | some (value, rest) => if (skipSpace rest).isEmpty then some value else none
  | none => none

end FirmwareModel.Json
