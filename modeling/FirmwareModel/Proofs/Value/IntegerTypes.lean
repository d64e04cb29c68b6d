import FirmwareModel.Fault
import FirmwareModel.Proofs.Text.Integers

/-!
# Values of integer types

An integer type holds the integers that fit in its width, one bit of which is for the sign if it has
one. A text is a value of the type when it spells such an integer, and a literal of any length is
compared with the bounds as the number that it is.
-/

namespace FirmwareModel

open FirmwareModel.Text

namespace PrimitiveType

/-- Whether the type holds negative numbers. -/
def isSigned : PrimitiveType → Bool
  | uint8 | uint16 | uint32 => false
  | int8 | int16 | int32 | float => true

/-- The storage width in bits. -/
def width (type : PrimitiveType) : Nat :=
  8 * type.byteSize

/-- The integer fits in the width of the type. -/
def Fits (type : PrimitiveType) (n : Int) : Prop :=
  if type.isSigned then -2 ^ (type.width - 1) ≤ n ∧ n ≤ 2 ^ (type.width - 1) - 1
  else 0 ≤ n ∧ n ≤ 2 ^ type.width - 1

instance (type : PrimitiveType) (n : Int) : Decidable (type.Fits n) :=
  inferInstanceAs (Decidable (ite (type.isSigned = true) _ _))

/-- The bounds of an integer type are those of its width. -/
theorem exists_integerRange? {type : PrimitiveType} (h : type ≠ .float) :
    ∃ lower upper, type.integerRange? = some (lower, upper) ∧
      ∀ n, type.Fits n ↔ lower ≤ n ∧ n ≤ upper := by
  cases type with
  | float => exact absurd rfl h
  | uint8 => exact ⟨_, _, rfl, fun n => by simp [Fits, isSigned, width, byteSize]⟩
  | uint16 => exact ⟨_, _, rfl, fun n => by simp [Fits, isSigned, width, byteSize]⟩
  | uint32 => exact ⟨_, _, rfl, fun n => by simp [Fits, isSigned, width, byteSize]⟩
  | int8 => exact ⟨_, _, rfl, fun n => by simp [Fits, isSigned, width, byteSize]⟩
  | int16 => exact ⟨_, _, rfl, fun n => by simp [Fits, isSigned, width, byteSize]⟩
  | int32 => exact ⟨_, _, rfl, fun n => by simp [Fits, isSigned, width, byteSize]⟩

/-- No integer type is wider than sixty-four signed bits. -/
theorem Fits.word {type : PrimitiveType} {n : Int} (h : type.Fits n) :
    Int64.minValue.toInt ≤ n ∧ n ≤ Int64.maxValue.toInt := by
  have hmin : Int64.minValue.toInt = -9223372036854775808 := rfl
  have hmax : Int64.maxValue.toInt = 9223372036854775807 := rfl
  cases type <;> simp [Fits, isSigned, width, byteSize] at h <;> omega

/-- A text passes the check of an integer type exactly when it spells an integer between the
bounds. -/
theorem checkInteger_eq_ok_iff {type : PrimitiveType} {lower upper : Int} {text : String}
    (hbounds : ∀ n, lower ≤ n → n ≤ upper →
      Int64.minValue.toInt ≤ n ∧ n ≤ Int64.maxValue.toInt) :
    checkInteger type lower upper text = .ok () ↔
      ∃ n, SpellsInteger text.toList n ∧ lower ≤ n ∧ n ≤ upper := by
  unfold checkInteger
  constructor
  · intro h
    split at h
    · cases h
    case h_2 n hn =>
      split at h
      · cases h
      case isFalse hrange =>
        exact ⟨n, integerValue?_eq_some_iff.mp (Option.filter_eq_some_iff.mp hn).1, by omega,
          by omega⟩
  · rintro ⟨n, hspells, hlower, hupper⟩
    have hword := hbounds n hlower hupper
    rw [integerValue?_eq_some_iff.mpr hspells, Option.filter_some, if_pos (by simpa using hword)]
    exact if_neg (by omega)

/-- A text is a value of an integer type exactly when it spells, blanks around it apart, an integer
that fits in the width of the type. All other texts are faults that are reported as such of
reading, those of integers beyond sixty-four bits included. -/
theorem checkValue_accepts_exactly_fitting_integers {type : PrimitiveType} (h : type ≠ .float)
    (text : String) :
    (type.checkValue text = .ok () ↔ ∃ n, IsIntegerText text.toList n ∧ type.Fits n) ∧
    ((¬ ∃ n, IsIntegerText text.toList n ∧ type.Fits n) →
      ∃ fault, type.checkValue text = .error fault ∧
        (Fault.value fault).report = .parse fault.message) := by
  have haccepts : type.checkValue text = .ok () ↔
      ∃ n, IsIntegerText text.toList n ∧ type.Fits n := by
    obtain ⟨lower, upper, hrange, hfits⟩ := exists_integerRange? h
    have hbounds : ∀ n, lower ≤ n → n ≤ upper →
        Int64.minValue.toInt ≤ n ∧ n ≤ Int64.maxValue.toInt :=
      fun n hlower hupper => Fits.word ((hfits n).mpr ⟨hlower, hupper⟩)
    simp only [checkValue, hrange, checkInteger_eq_ok_iff hbounds, String.toList_ofList,
      isIntegerText_iff, hfits]
  refine ⟨haccepts, fun hnone => ?_⟩
  cases hcheck : type.checkValue text with
  | ok _ => exact absurd (haccepts.mp hcheck) hnone
  | error fault => exact ⟨fault, rfl, rfl⟩

/-- The greatest number of thirty-two bits is a value behind any number of zeros and between blanks.
Two to the sixty-fourth, which is zero in sixty-four bits, is none, and neither is what is one below
the least number of eight bits. -/
theorem checkValue_takes_greatest_and_nothing_beyond :
    uint32 ≠ .float ∧ int8 ≠ .float ∧
      uint32.checkValue "\u00a0+00000000000000000000004294967295\n" = .ok () ∧
      (∃ fault, uint32.checkValue "18446744073709551616" = .error fault ∧
        (Fault.value fault).report = .parse fault.message) ∧
      int8.checkValue "-128" = .ok () ∧
      ∃ fault, int8.checkValue "-129" = .error fault ∧
        (Fault.value fault).report = .parse fault.message := by
  have huint32 : uint32 ≠ .float := by decide
  have hint8 : int8 ≠ .float := by decide
  have hreads : ∀ {text : String} {n : Int}, integerValue? (trim text.toList) = some n →
      ∀ n', IsIntegerText text.toList n' ↔ n' = n := by
    intro text n hn n'
    rw [isIntegerText_iff, ← integerValue?_eq_some_iff, hn, Option.some.injEq, eq_comm]
  refine ⟨huint32, hint8, ?_, ?_, ?_, ?_⟩
  · refine (checkValue_accepts_exactly_fitting_integers huint32 _).1.mpr ⟨4294967295, ?_, ?_⟩
    · exact (hreads (by decide +kernel) _).mpr rfl
    · decide
  · refine (checkValue_accepts_exactly_fitting_integers huint32 _).2 ?_
    rintro ⟨n, hn, hfits⟩
    obtain rfl := (hreads (n := 18446744073709551616) (by decide +kernel) n).mp hn
    exact absurd hfits (by decide)
  · refine (checkValue_accepts_exactly_fitting_integers hint8 _).1.mpr ⟨-128, ?_, ?_⟩
    · exact (hreads (by decide +kernel) _).mpr rfl
    · decide
  · refine (checkValue_accepts_exactly_fitting_integers hint8 _).2 ?_
    rintro ⟨n, hn, hfits⟩
    obtain rfl := (hreads (n := -129) (by decide +kernel) n).mp hn
    exact absurd hfits (by decide)

end PrimitiveType

end FirmwareModel
