import FirmwareModel.Text.Blank
import FirmwareModel.Text.Decimal

/-!
# Primitive types

The storage kinds of inputs and arguments, and the check that a textual value fits one. A literal
may be as long as it likes: the check is on the number it spells, so nothing wraps around.
-/

namespace FirmwareModel

open FirmwareModel.Text

/-- The storage kinds that an input or an argument can have. -/
inductive PrimitiveType where
  | uint8 | uint16 | uint32 | int8 | int16 | int32 | float
  deriving DecidableEq, Repr

/-- Why a text is no value of a primitive type. -/
inductive ValueFault where
  | notNumber (text : String)
  | notInteger (text : String)
  | beyondFloat (text : String)
  | outsideRange (value lower upper : Int) (type : PrimitiveType)
  deriving DecidableEq, Repr

namespace PrimitiveType

/-- The types in the order of the identifiers that firmware stores by default. -/
def defaultTable : List PrimitiveType :=
  [uint8, uint16, uint32, int8, int16, int32, float]

/-- The name of the type in firmware sources and documents. -/
def name : PrimitiveType → String
  | uint8 => "uint8_t"
  | uint16 => "uint16_t"
  | uint32 => "uint32_t"
  | int8 => "int8_t"
  | int16 => "int16_t"
  | int32 => "int32_t"
  | float => "float"

/-- The type with a given name. -/
def ofName? (name : String) : Option PrimitiveType :=
  defaultTable.find? fun type => type.name = name

/-- The storage width in bytes. -/
def byteSize : PrimitiveType → Nat
  | uint8 | int8 => 1
  | uint16 | int16 => 2
  | uint32 | int32 | float => 4

/-- The least and the greatest value of an integer type. -/
def integerRange? : PrimitiveType → Option (Int × Int)
  | uint8 => some (0, 255)
  | uint16 => some (0, 65535)
  | uint32 => some (0, 4294967295)
  | int8 => some (-128, 127)
  | int16 => some (-32768, 32767)
  | int32 => some (-2147483648, 2147483647)
  | float => none

/-- The greatest magnitude that still rounds to a finite single-precision number: in double
precision, whose unit there is two to the 75th, half a unit above the greatest one. -/
def greatestFloat : Nat :=
  Nat.pow 2 128 - Nat.pow 2 104 + Nat.pow 2 74

/-- Whether a text is a value of single precision. -/
def checkFloat (text : String) : Except ValueFault Unit :=
  match numberLiteral? text.toList with
  | none => .error (.notNumber text)
  | some (.finite magnitude) =>
    if magnitude.compareNat greatestFloat = .gt then .error (.beyondFloat text) else .ok ()
  | some _ => .error (.beyondFloat text)

/-- Whether a text is an integer between bounds. A literal outside sixty-four signed bits is not
taken for an integer at all. -/
def checkInteger (type : PrimitiveType) (lower upper : Int) (text : String) :
    Except ValueFault Unit :=
  match (integerValue? text.toList).filter fun n =>
      Int64.minValue.toInt ≤ n && n ≤ Int64.maxValue.toInt with
  | none => .error (.notInteger text)
  | some n =>
    if n < lower ∨ upper < n then .error (.outsideRange n lower upper type) else .ok ()

/-- Whether a text, blanks around it apart, is a value of the type. -/
def checkValue (type : PrimitiveType) (text : String) : Except ValueFault Unit :=
  let text := String.ofList (trim text.toList)
  match type.integerRange? with
  | none => checkFloat text
  | some (lower, upper) => checkInteger type lower upper text

end PrimitiveType

/-- The words for a value that does not fit. -/
def ValueFault.message : ValueFault → String
  | notNumber text => "'" ++ text ++ "' is not a number"
  | notInteger text => "'" ++ text ++ "' is not an integer"
  | beyondFloat text =>
    "value " ++ text ++ " exceeds the range of type " ++ PrimitiveType.float.name
  | outsideRange value lower upper type =>
    "value " ++ integerText value ++ " exceeds data range [" ++ integerText lower ++ ";" ++
      integerText upper ++ "] of type " ++ type.name

end FirmwareModel
