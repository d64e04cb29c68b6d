import FirmwareModel.Text.Decimal
import FirmwareModel.Text.Segments

/-!
# Plain scalars of YAML

What a plain scalar stands for: nothing, a truth value, an integer, a number, or else the text
itself. Integers have a decimal, hexadecimal, octal or binary form; digits with a leading zero are
a text.
-/

namespace FirmwareModel.Yaml

open FirmwareModel.Text

/-- Whether a scalar spells the absent value. An empty one does not; it is absent by itself. -/
def isNullWord (s : List Char) : Bool :=
  ["null", "Null", "NULL", "~"].any fun word => word.toList = s

/-- The truth value that a scalar spells. -/
def truthValue? (s : List Char) : Option Bool :=
  if ["true", "True", "TRUE"].any fun word => word.toList = s then some true
  else if ["false", "False", "FALSE"].any fun word => word.toList = s then some false
  else none

/-- Whether a text begins with a sign. -/
def startsWithSign : List Char → Bool
  | '+' :: _ | '-' :: _ => true
  | _ => false

/-- The text after an optional plus sign. -/
def stripPlus : List Char → List Char
  | '+' :: rest => rest
  | rest => rest

/-- Whether a scalar is digits with a leading zero, which spell no number. -/
def hasLeadingZero (s : List Char) : Bool :=
  match stripSign s with
  | '0' :: digits => !digits.isEmpty && digits.all isDecimalDigit
  | _ => false

/-- The number that digits behind a base mark spell. -/
def markedValue? : List Char → Option Nat
  | '0' :: 'x' :: digits => numeralValue? 16 digits
  | '0' :: 'o' :: digits => numeralValue? 8 digits
  | '0' :: 'b' :: digits => numeralValue? 2 digits
  | _ => none

/-- The natural number that a scalar spells. -/
def naturalValue? (s : List Char) : Option Nat :=
  let unsigned := stripPlus s
  match markedValue? unsigned with
  | some n => some n
  | none => if hasLeadingZero s then none else numeralValue? 10 unsigned

/-- The word that a scalar spells. -/
def wordValue? (s : List Char) : Option UInt64 :=
  match naturalValue? s with
  | some n => if n < UInt64.size then some (UInt64.ofNat n) else none
  | none => none

/-- The magnitude of the negative number that a scalar spells. -/
def negativeMagnitude? : List Char → Option Nat
  | '-' :: digits =>
    match markedValue? digits with
    | some n => some n
    | none => if hasLeadingZero digits then none else numeralValue? 10 digits
  | _ => none

/-- Whether a scalar spells an integer; integers have up to 128 bits. -/
def isInteger (s : List Char) : Bool :=
  (naturalValue? s).any (· < Nat.pow 2 128) || (negativeMagnitude? s).any (· ≤ Nat.pow 2 127)

/-- The magnitude from which on a number rounds to infinity in double precision. -/
def infiniteFrom : Nat :=
  Nat.pow 2 1024 - Nat.pow 2 970

/-- Whether a scalar spells a finite number, infinity or what is not a number. -/
def isNumber (s : List Char) : Bool :=
  let unsigned := stripPlus s
  let doubleSign := unsigned ≠ s && startsWithSign unsigned
  if doubleSign then false
  else if [".inf", ".Inf", ".INF"].any fun word => word.toList = unsigned then true
  else if ["-.inf", "-.Inf", "-.INF", ".nan", ".NaN", ".NAN"].any fun word => word.toList = s then
    true
  else
    match numberLiteral? unsigned with
    | some (.finite magnitude) => magnitude.compareNat infiniteFrom = .lt
    | _ => false

/-- Whether a plain scalar with this text would be read as something else than the text. -/
def isTyped (s : List Char) : Bool :=
  s.isEmpty || isNullWord s || (truthValue? s).isSome || isInteger s || isNumber s

end FirmwareModel.Yaml
