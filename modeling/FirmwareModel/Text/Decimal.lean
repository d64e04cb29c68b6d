import FirmwareModel.Text.Numeral

/-!
# Decimal literals

Number literals with an optional fraction and exponent, and the words for infinity and for what is
not a number. A finite literal is a mantissa times a power of ten, and is compared with a natural
number exactly, so no rounding takes part in a range check.
-/

namespace FirmwareModel.Text

/-- The number `mantissa * 10 ^ exponent`, without its sign. -/
structure Decimal where
  mantissa : Nat
  exponent : Int
  deriving DecidableEq, Repr

/-- What a number literal denotes, without its sign. -/
inductive NumberLiteral where
  | finite (magnitude : Decimal)
  | infinite
  | notANumber
  deriving DecidableEq, Repr

/-- How a decimal compares with a natural number. Lengths of numerals settle the cases in which
the power of ten would be far larger than the numbers compared. -/
def Decimal.compareNat (d : Decimal) (b : Nat) : Ordering :=
  if d.mantissa = 0 then compare 0 b
  else if 0 ≤ d.exponent then
    if (numeral 10 b).length < d.exponent.toNat then .gt
    else compare (d.mantissa * Nat.pow 10 d.exponent.toNat) b
  else if (numeral 10 d.mantissa).length ≤ (-d.exponent).toNat then compare 0 b
  else compare d.mantissa (b * Nat.pow 10 (-d.exponent).toNat)

/-- The ASCII decimal digits. -/
def isDecimalDigit (c : Char) : Bool :=
  '0' ≤ c && c ≤ '9'

/-- The number that decimal digits spell; no digits spell zero. -/
def digitsNumber (digits : List Char) : Nat :=
  digits.foldl (fun value c => value * 10 + (c.toNat - '0'.toNat)) 0

/-- The text after an optional sign. -/
def stripSign : List Char → List Char
  | '+' :: rest => rest
  | '-' :: rest => rest
  | rest => rest

/-- The value of what follows the mantissa: nothing, or `e` or `E` with an integer. -/
def exponentPart? : List Char → Option Int
  | [] => some 0
  | c :: rest => if c = 'e' ∨ c = 'E' then integerValue? rest else none

/-- The part of a literal after its point, cut into digits and the rest. -/
def fractionPart : List Char → List Char × List Char
  | '.' :: rest => rest.span isDecimalDigit
  | rest => ([], rest)

/-- The decimal that an unsigned literal spells. Digits may be missing on one side of the point. -/
def decimal? (s : List Char) : Option Decimal :=
  let (whole, rest) := s.span isDecimalDigit
  let (fraction, rest) := fractionPart rest
  if whole.isEmpty && fraction.isEmpty then none
  else
    (exponentPart? rest).map fun e =>
      ⟨digitsNumber (whole ++ fraction), e - Int.ofNat fraction.length⟩

/-- The value of a number literal, its sign apart. The words are read in either letter case. -/
def numberLiteral? (s : List Char) : Option NumberLiteral :=
  let unsigned := stripSign s
  let word := unsigned.map Char.toLower
  if word = "inf".toList ∨ word = "infinity".toList then some .infinite
  else if word = "nan".toList then some .notANumber
  else (decimal? unsigned).map .finite

end FirmwareModel.Text
