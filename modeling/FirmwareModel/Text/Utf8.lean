/-!
# UTF-8

Octets are read as a sequence of units: characters, and maximal ill-formed subparts. A subpart is
the longest start of a well-formed sequence that the octets follow, or a single octet when they
follow none. Strict reading wants characters only; lenient reading puts U+FFFD for each subpart.
-/

namespace FirmwareModel.Text

/-- What the first octet of a sequence of several octets announces. -/
structure LeadOctet where
  /-- Bits of the character that the octet itself holds. -/
  bits : Nat
  /-- The least octet that may follow. -/
  low : UInt8
  /-- The greatest octet that may follow. -/
  high : UInt8
  /-- How many octets follow after that one. -/
  further : Nat
  deriving DecidableEq, Repr

/-- The octets that begin a sequence of two, three or four octets. The bounds on the second octet
keep out overlong forms, surrogates and numbers above U+10FFFF. -/
def leadOctet? (b : UInt8) : Option LeadOctet :=
  if b < 0xC2 then none
  else if b < 0xE0 then some ⟨b.toNat - 0xC0, 0x80, 0xBF, 0⟩
  else if b = 0xE0 then some ⟨0, 0xA0, 0xBF, 1⟩
  else if b = 0xED then some ⟨0xD, 0x80, 0x9F, 1⟩
  else if b < 0xF0 then some ⟨b.toNat - 0xE0, 0x80, 0xBF, 1⟩
  else if b = 0xF0 then some ⟨0, 0x90, 0xBF, 2⟩
  else if b < 0xF4 then some ⟨b.toNat - 0xF0, 0x80, 0xBF, 2⟩
  else if b = 0xF4 then some ⟨4, 0x80, 0x8F, 2⟩
  else none

/-- The unit whose first octets hold `value` and which needs that many further octets, with the
octets after it. -/
def takeFurther : Nat → Nat → List UInt8 → Option Char × List UInt8
  | 0, value, rest => (some (Char.ofNat value), rest)
  | _ + 1, _, [] => (none, [])
  | further + 1, value, b :: rest =>
    if 0x80 ≤ b ∧ b ≤ 0xBF then takeFurther further (value * 64 + (b.toNat - 0x80)) rest
    else (none, b :: rest)

/-- The unit that begins with the octet `b`, with the octets after it. -/
def nextUnit (b : UInt8) (rest : List UInt8) : Option Char × List UInt8 :=
  if b < 0x80 then (some (Char.ofNat b.toNat), rest)
  else
    match leadOctet? b, rest with
    | some lead, second :: rest' =>
      if lead.low ≤ second ∧ second ≤ lead.high then
        takeFurther lead.further (lead.bits * 64 + (second.toNat - 0x80)) rest'
      else (none, rest)
    | _, _ => (none, rest)

/-- Taking continuation octets leaves no more octets than there were. -/
theorem takeFurther_length_le (further value : Nat) (rest : List UInt8) :
    (takeFurther further value rest).2.length ≤ rest.length := by
  fun_induction takeFurther further value rest with
  | case1 => simp
  | case2 => simp
  | case3 _ _ _ _ _ ih => simp only [List.length_cons]; omega
  | case4 => simp

/-- Reading one unit leaves no more octets than come after its first. -/
theorem nextUnit_length_le (b : UInt8) (rest : List UInt8) :
    (nextUnit b rest).2.length ≤ rest.length := by
  unfold nextUnit
  split
  · simp
  · split
    · split
      · exact Nat.le_succ_of_le (takeFurther_length_le _ _ _)
      · simp
    · simp

/-- The units that octets hold: a character, or `none` for an ill-formed subpart. -/
def units : List UInt8 → List (Option Char)
  | [] => []
  | b :: rest => (nextUnit b rest).1 :: units (nextUnit b rest).2
termination_by bytes => bytes.length
decreasing_by
  have := nextUnit_length_le b rest
  simp only [List.length_cons]
  omega

/-- The text that well-formed octets spell. -/
def strictText? (bytes : List UInt8) : Option String :=
  ((units bytes).mapM id).map String.ofList

/-- The text that octets spell, with U+FFFD for each ill-formed subpart. -/
def lenientText (bytes : List UInt8) : String :=
  String.ofList ((units bytes).map fun unit => unit.getD '\uFFFD')

/-- The text of a file, given its octets if it exists: it is unreadable when it does not exist or
is ill-formed. -/
def fileText? (contents : Option (List UInt8)) : Option String :=
  contents.bind strictText?

end FirmwareModel.Text
