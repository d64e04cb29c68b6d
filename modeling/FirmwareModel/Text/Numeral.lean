/-!
# Numerals

Natural numbers in a base from two to sixteen. Reading takes digits of either letter case and any
number of leading zeros; writing gives the shortest numeral, with capital letters. What is written
is read back.
-/

namespace FirmwareModel.Text

/-- The number a character stands for as a digit, of either letter case. -/
def digitValue? (c : Char) : Option Nat :=
  if '0' ≤ c ∧ c ≤ '9' then some (c.toNat - '0'.toNat)
  else if 'a' ≤ c ∧ c ≤ 'f' then some (c.toNat - 'a'.toNat + 10)
  else if 'A' ≤ c ∧ c ≤ 'F' then some (c.toNat - 'A'.toNat + 10)
  else none

/-- The number a character stands for as a digit in the given base. -/
def digitIn? (base : Nat) (c : Char) : Option Nat :=
  (digitValue? c).filter (· < base)

/-- Whether the character is a digit in the given base. -/
def isDigitIn (base : Nat) (c : Char) : Bool :=
  (digitIn? base c).isSome

/-- The value of digits that follow a numeral of value `value`. -/
def continueNumeral? (base : Nat) (value : Nat) : List Char → Option Nat
  | [] => some value
  | c :: digits =>
    match digitIn? base c with
    | some d => continueNumeral? base (value * base + d) digits
    | none => none

/-- The value of a numeral: one or more digits and nothing else. -/
def numeralValue? (base : Nat) (digits : List Char) : Option Nat :=
  if digits.isEmpty then none else continueNumeral? base 0 digits

/-- The value of a numeral that fits in sixty-four bits. -/
def wordValue? (base : Nat) (digits : List Char) : Option UInt64 :=
  match numeralValue? base digits with
  | some n => if n < UInt64.size then some (UInt64.ofNat n) else none
  | none => none

/-- The value of an integer literal: an optional sign and a decimal numeral. -/
def integerValue? : List Char → Option Int
  | '+' :: digits => (numeralValue? 10 digits).map Int.ofNat
  | '-' :: digits => (numeralValue? 10 digits).map fun n => -Int.ofNat n
  | digits => (numeralValue? 10 digits).map Int.ofNat

/-- The text after an optional `0x` or `0X`. -/
def stripHexMark : List Char → List Char
  | '0' :: 'x' :: digits => digits
  | '0' :: 'X' :: digits => digits
  | digits => digits

/-- The digit character of a number below sixteen. -/
def digitChar (d : Nat) : Char :=
  if d < 10 then Char.ofNat ('0'.toNat + d) else Char.ofNat ('A'.toNat + (d - 10))

/-- The shortest numeral of a number in a base of at least two. -/
def numeral (base n : Nat) : List Char :=
  if n < base ∨ base < 2 then [digitChar n]
  else numeral base (n / base) ++ [digitChar (n % base)]
termination_by n
decreasing_by
  exact Nat.div_lt_self (by omega) (by omega)

/-- The decimal text of a number. -/
def decimalText (n : Nat) : String :=
  String.ofList (numeral 10 n)

/-- The hexadecimal text of a number, with `0x` before its digits. -/
def hexText (n : Nat) : String :=
  "0x" ++ String.ofList (numeral 16 n)

/-- The decimal text of an integer, with a minus sign when it is negative. -/
def integerText : Int → String
  | .ofNat n => decimalText n
  | .negSucc n => "-" ++ decimalText (n + 1)

/-- A written digit is read as its value. -/
theorem digitValue?_digitChar {d : Nat} (hd : d < 16) : digitValue? (digitChar d) = some d := by
  have hall : ∀ d : Fin 16, digitValue? (digitChar d) = some d.val := by decide
  exact hall ⟨d, hd⟩

/-- A written digit is read as its value in every base that has it. -/
theorem digitIn?_digitChar {base d : Nat} (hbase : base ≤ 16) (hd : d < base) :
    digitIn? base (digitChar d) = some d := by
  simp [digitIn?, digitValue?_digitChar (show d < 16 by omega), hd]

/-- A numeral that is cut in two is read part by part. -/
theorem continueNumeral?_append (base value : Nat) (s t : List Char) :
    continueNumeral? base value (s ++ t) =
      (continueNumeral? base value s).bind fun v => continueNumeral? base v t := by
  induction s generalizing value with
  | nil => rfl
  | cons c s ih =>
    simp only [List.cons_append, continueNumeral?]
    split
    · exact ih _
    · rfl

/-- A written number has at least one digit. -/
theorem numeral_ne_nil (base n : Nat) : numeral base n ≠ [] := by
  unfold numeral
  split <;> simp

/-- A written numeral has the value it was written for. -/
theorem numeralValue?_numeral {base : Nat} (hlo : 2 ≤ base) (hhi : base ≤ 16) (n : Nat) :
    numeralValue? base (numeral base n) = some n := by
  have hvalue : continueNumeral? base 0 (numeral base n) = some n := by
    fun_induction numeral base n with
    | case1 n h =>
      have hn : n < base := by omega
      simp [continueNumeral?, digitIn?_digitChar hhi hn]
    | case2 n h ih =>
      have hdigit : n % base < base := Nat.mod_lt _ (by omega)
      rw [continueNumeral?_append, ih]
      simp only [Option.bind_some, continueNumeral?, digitIn?_digitChar hhi hdigit]
      rw [Nat.div_add_mod']
  simp [numeralValue?, numeral_ne_nil, hvalue]

/-- A written word is read back. -/
theorem wordValue?_numeral {base : Nat} (hlo : 2 ≤ base) (hhi : base ≤ 16) (w : UInt64) :
    wordValue? base (numeral base w.toNat) = some w := by
  have hw : w.toNat < UInt64.size := w.toNat_lt_size
  simp only [wordValue?, numeralValue?_numeral hlo hhi, if_pos hw, UInt64.ofNat_toNat]

end FirmwareModel.Text
