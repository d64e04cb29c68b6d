import Mathlib.Data.List.Induction
import Mathlib.Data.List.TakeWhile
import Mathlib.Data.Nat.Digits.Defs
import FirmwareModel.Text.Blank
import FirmwareModel.Text.Decimal

/-!
# Integer literals

An integer is spelled by one or more decimal digits behind an optional sign, and blanks around the
literal do not count. Reading accepts these spellings and nothing else. The value is that of all the
digits, however many there are.
-/

namespace FirmwareModel.Text

/-- One or more decimal digits. -/
def IsDecimal (digits : List Char) : Prop :=
  digits ≠ [] ∧ ∀ c ∈ digits, isDecimalDigit c = true

/-- The number that decimal digits spell: the last one counts ones, and each of the others ten times
as much as the one behind it. -/
def placeValue (digits : List Char) : Nat :=
  Nat.ofDigits 10 (digits.reverse.map fun c => c.toNat - '0'.toNat)

/-- The text is a literal of the integer: decimal digits with or without a sign in front. -/
inductive SpellsInteger : List Char → Int → Prop where
  | unsigned {digits : List Char} (h : IsDecimal digits) : SpellsInteger digits (placeValue digits)
  | plus {digits : List Char} (h : IsDecimal digits) :
    SpellsInteger ('+' :: digits) (placeValue digits)
  | minus {digits : List Char} (h : IsDecimal digits) :
    SpellsInteger ('-' :: digits) (-placeValue digits)

/-- The text is a literal of the integer with nothing but blanks around it. -/
def IsIntegerText (text : List Char) (n : Int) : Prop :=
  ∃ before literal after, text = before ++ literal ++ after ∧
    (∀ c ∈ before ++ after, isBlank c = true) ∧ SpellsInteger literal n

/-! ## Digits -/

/-- The decimal digits are the characters from 48 to 57. -/
theorem isDecimalDigit_iff_toNat {c : Char} :
    isDecimalDigit c = true ↔ 48 ≤ c.toNat ∧ c.toNat ≤ 57 := by
  simp [isDecimalDigit, Char.le_def, UInt32.le_iff_toNat_le]

/-- The digits in base ten are the ASCII ones. -/
theorem digitIn?_decimal_iff {c : Char} {d : Nat} :
    digitIn? 10 c = some d ↔ isDecimalDigit c = true ∧ d = c.toNat - '0'.toNat := by
  by_cases hdigit : isDecimalDigit c = true
  · obtain ⟨hlow, hhigh⟩ := isDecimalDigit_iff_toNat.mp hdigit
    have hvalue : digitValue? c = some (c.toNat - '0'.toNat) := by
      rw [digitValue?, if_pos (by simpa [isDecimalDigit] using hdigit)]
    have hsmall : c.toNat - '0'.toNat < 10 := by
      simp only [Char.reduceToNat]
      omega
    simp only [digitIn?, hvalue, Option.filter_some, hsmall, decide_true, if_true, hdigit,
      true_and, Option.some.injEq, eq_comm]
  · have hlarge : ∀ value ∈ digitValue? c, 10 ≤ value := by
      rw [digitValue?, if_neg (by simpa [isDecimalDigit] using hdigit)]
      split_ifs <;> simp
    have hnone : digitIn? 10 c = none := by
      rw [digitIn?, Option.filter_eq_none_iff]
      intro value hvalue
      simpa using hlarge value hvalue
    simp [hnone, hdigit]

/-- One more digit makes a number ten times as large and adds its own value. -/
theorem placeValue_concat (digits : List Char) (c : Char) :
    placeValue (digits ++ [c]) = placeValue digits * 10 + (c.toNat - '0'.toNat) := by
  rw [placeValue, List.reverse_append, List.reverse_singleton, List.singleton_append,
    List.map_cons, Nat.ofDigits_cons, ← placeValue, Nat.mul_comm, Nat.add_comm]

/-- Digits are read as the number that they spell, whatever its size. -/
theorem continueNumeral?_decimal_iff {digits : List Char} {n : Nat} :
    continueNumeral? 10 0 digits = some n ↔
      (∀ c ∈ digits, isDecimalDigit c = true) ∧ n = placeValue digits := by
  induction digits using List.reverseRecOn generalizing n with
  | nil => simp [continueNumeral?, placeValue, eq_comm (a := n)]
  | append_singleton digits c ih =>
    have hlast : ∀ value, continueNumeral? 10 value [c] = some n ↔
        isDecimalDigit c = true ∧ n = value * 10 + (c.toNat - '0'.toNat) := by
      intro value
      cases hdigit : digitIn? 10 c with
      | none =>
        have hother : isDecimalDigit c ≠ true := by
          intro hc
          simp [digitIn?_decimal_iff.mpr ⟨hc, rfl⟩] at hdigit
        simp [continueNumeral?, hdigit, hother]
      | some d =>
        obtain ⟨hc, rfl⟩ := digitIn?_decimal_iff.mp hdigit
        simp [continueNumeral?, hdigit, hc, eq_comm]
    rw [continueNumeral?_append, Option.bind_eq_some_iff, List.forall_mem_append,
      List.forall_mem_singleton, placeValue_concat]
    constructor
    · rintro ⟨value, hvalue, hrest⟩
      obtain ⟨hdigits, rfl⟩ := ih.mp hvalue
      obtain ⟨hc, hn⟩ := (hlast _).mp hrest
      exact ⟨⟨hdigits, hc⟩, hn⟩
    · rintro ⟨⟨hdigits, hc⟩, hn⟩
      exact ⟨_, ih.mpr ⟨hdigits, rfl⟩, (hlast _).mpr ⟨hc, hn⟩⟩

/-- The decimal numerals are the non-empty sequences of digits. -/
theorem numeralValue?_decimal_iff {digits : List Char} {n : Nat} :
    numeralValue? 10 digits = some n ↔ IsDecimal digits ∧ n = placeValue digits := by
  rw [numeralValue?, Option.ite_none_left_eq_some, continueNumeral?_decimal_iff, IsDecimal,
    List.isEmpty_iff, and_assoc]

/-! ## Signs -/

/-- The integer literals are the spellings of integers. -/
theorem integerValue?_eq_some_iff {text : List Char} {n : Int} :
    integerValue? text = some n ↔ SpellsInteger text n := by
  constructor
  · intro h
    unfold integerValue? at h
    split at h
    all_goals
      obtain ⟨value, hvalue, rfl⟩ := Option.map_eq_some_iff.mp h
      obtain ⟨hdigits, rfl⟩ := numeralValue?_decimal_iff.mp hvalue
    · exact .plus hdigits
    · exact .minus hdigits
    · exact .unsigned hdigits
  · intro h
    cases h with
    | plus hdigits => simp [integerValue?, numeralValue?_decimal_iff.mpr ⟨hdigits, rfl⟩]
    | minus hdigits => simp [integerValue?, numeralValue?_decimal_iff.mpr ⟨hdigits, rfl⟩]
    | unsigned hdigits =>
      -- A digit is no sign, so the literal is read without one.
      unfold integerValue?
      split
      · exact absurd (hdigits.2 '+' (by simp)) (by decide)
      · exact absurd (hdigits.2 '-' (by simp)) (by decide)
      · simp [numeralValue?_decimal_iff.mpr ⟨hdigits, rfl⟩]

/-! ## Blanks around literals -/

/-- No decimal digit is blank. -/
theorem isBlank_of_isDecimalDigit {c : Char} (hc : isDecimalDigit c = true) :
    isBlank c = false := by
  obtain ⟨hlow, hhigh⟩ := isDecimalDigit_iff_toNat.mp hc
  simp [isBlank]
  omega

/-- A text that spells an integer is not empty. -/
theorem SpellsInteger.ne_nil {literal : List Char} {n : Int} (h : SpellsInteger literal n) :
    literal ≠ [] := by
  cases h with
  | unsigned hdigits => exact hdigits.1
  | plus => simp
  | minus => simp

/-- Literals hold no blanks. -/
theorem SpellsInteger.isBlank_eq_false {literal : List Char} {n : Int}
    (h : SpellsInteger literal n) : ∀ c ∈ literal, isBlank c = false := by
  have hdigit : ∀ {digits : List Char}, IsDecimal digits → ∀ c ∈ digits, isBlank c = false :=
    fun hdigits c hc => isBlank_of_isDecimalDigit (hdigits.2 c hc)
  cases h with
  | unsigned hdigits => exact hdigit hdigits
  | plus hdigits => exact List.forall_mem_cons.mpr ⟨by decide, hdigit hdigits⟩
  | minus hdigits => exact List.forall_mem_cons.mpr ⟨by decide, hdigit hdigits⟩

/-- Trimming takes off blanks and nothing else. -/
theorem exists_append_trim (text : List Char) :
    ∃ before after, text = before ++ trim text ++ after ∧
      ∀ c ∈ before ++ after, isBlank c = true := by
  refine ⟨text.takeWhile isBlank, ((trimStart text).reverse.takeWhile isBlank).reverse, ?_, ?_⟩
  · have hend : trimStart text =
        trim text ++ ((trimStart text).reverse.takeWhile isBlank).reverse := by
      rw [trim, trimEnd, ← List.reverse_append, List.takeWhile_append_dropWhile,
        List.reverse_reverse]
    rw [List.append_assoc, ← hend, trimStart, List.takeWhile_append_dropWhile]
  · intro c hc
    rcases List.mem_append.mp hc with hmem | hmem
    · exact List.mem_takeWhile_imp hmem
    · exact List.mem_takeWhile_imp (List.mem_reverse.mp hmem)

/-- Trimming takes off all blanks around a text without blanks. -/
theorem trim_append {before text after : List Char}
    (hblank : ∀ c ∈ before ++ after, isBlank c = true) (htext : ∀ c ∈ text, isBlank c = false)
    (hne : text ≠ []) : trim (before ++ text ++ after) = text := by
  obtain ⟨hbefore, hafter⟩ := List.forall_mem_append.mp hblank
  have hstart : trimStart (before ++ text ++ after) = text ++ after := by
    rw [trimStart, List.append_assoc, List.dropWhile_append_of_pos hbefore]
    cases text with
    | nil => exact absurd rfl hne
    | cons c text => simp [htext c (by simp)]
  rw [trim, hstart, trimEnd, List.reverse_append,
    List.dropWhile_append_of_pos (by simpa using hafter)]
  cases hreverse : text.reverse with
  | nil => exact absurd (List.reverse_eq_nil_iff.mp hreverse) hne
  | cons c rest =>
    have hc : isBlank c = false := htext c (List.mem_reverse.mp (hreverse ▸ by simp))
    rw [List.dropWhile_cons_of_neg (by simp [hc]), ← hreverse, List.reverse_reverse]

/-- A text is that of an integer when what is left without the blanks around it is a literal. -/
theorem isIntegerText_iff {text : List Char} {n : Int} :
    IsIntegerText text n ↔ SpellsInteger (trim text) n := by
  constructor
  · rintro ⟨before, literal, after, rfl, hblank, hliteral⟩
    rwa [trim_append hblank hliteral.isBlank_eq_false hliteral.ne_nil]
  · intro hliteral
    obtain ⟨before, after, htext, hblank⟩ := exists_append_trim text
    exact ⟨before, trim text, after, htext, hblank, hliteral⟩

end FirmwareModel.Text
