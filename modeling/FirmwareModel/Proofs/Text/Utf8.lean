import Mathlib.Tactic.SplitIfs
import FirmwareModel.Text.Hex
import FirmwareModel.Text.Utf8

/-!
# Texts and their octets

The octets of a text are well-formed and spell that text. Among other octets they are still read as
that text: an octet that begins a character ends whatever unit stands before it.
-/

namespace FirmwareModel.Text

/-- An octet behind the first one adds six bits. -/
theorem takeFurther_ofNat {bits : Nat} (hbits : bits < 64) (further value : Nat)
    (rest : List UInt8) :
    takeFurther (further + 1) value (UInt8.ofNat (bits + 128) :: rest) =
      takeFurther further (value * 64 + bits) rest := by
  have hoctet : (UInt8.ofNat (bits + 128)).toNat = bits + 128 := by
    rw [UInt8.toNat_ofNat']
    omega
  have hrange : 0x80 ≤ UInt8.ofNat (bits + 128) ∧ UInt8.ofNat (bits + 128) ≤ 0xBF := by
    simp only [UInt8.le_iff_toNat_le, hoctet, UInt8.reduceToNat]
    omega
  rw [takeFurther, if_pos hrange, hoctet, Nat.add_sub_cancel]

/-- What an octet announces as the first one of a character, by the ranges of its value. -/
theorem leadOctet?_ofNat {n : Nat} (hn : n < 256) :
    leadOctet? (UInt8.ofNat n) =
      if n < 0xC2 then none
      else if n < 0xE0 then some ⟨n - 0xC0, 0x80, 0xBF, 0⟩
      else if n = 0xE0 then some ⟨0, 0xA0, 0xBF, 1⟩
      else if n = 0xED then some ⟨0xD, 0x80, 0x9F, 1⟩
      else if n < 0xF0 then some ⟨n - 0xE0, 0x80, 0xBF, 1⟩
      else if n = 0xF0 then some ⟨0, 0x90, 0xBF, 2⟩
      else if n < 0xF4 then some ⟨n - 0xF0, 0x80, 0xBF, 2⟩
      else if n = 0xF4 then some ⟨4, 0x80, 0x8F, 2⟩
      else none := by
  have hoctet : (UInt8.ofNat n).toNat = n := by
    rw [UInt8.toNat_ofNat']
    omega
  simp only [leadOctet?, UInt8.lt_iff_toNat_lt, ← UInt8.toNat_inj, hoctet, UInt8.reduceToNat]

/-- A first octet announces the first bits of a character, with bounds that the second octet keeps,
and how many octets follow after that one. -/
structure Announces (first bits second further : Nat) : Prop where
  second_lt : second < 64
  lead : ∃ lead, leadOctet? (UInt8.ofNat first) = some lead ∧ lead.bits = bits ∧
    lead.further = further ∧ lead.low.toNat ≤ second + 128 ∧ second + 128 ≤ lead.high.toNat

/-- A first octet that announces others is read together with them. -/
theorem Announces.nextUnit_eq {first bits second further : Nat}
    (h : Announces first bits second further) (rest : List UInt8) :
    nextUnit (UInt8.ofNat first) (UInt8.ofNat (second + 128) :: rest) =
      takeFurther further (bits * 64 + second) rest := by
  obtain ⟨hsecond, lead, hlead, rfl, rfl, hlow, hhigh⟩ := h
  have hoctet : (UInt8.ofNat (second + 128)).toNat = second + 128 := by
    rw [UInt8.toNat_ofNat']
    omega
  have hlarge : ¬ UInt8.ofNat first < 0x80 := by
    intro hsmall
    have hnone : UInt8.ofNat first < 0xC2 := UInt8.lt_trans hsmall (by decide)
    rw [leadOctet?, if_pos hnone] at hlead
    cases hlead
  have hrange : lead.low ≤ UInt8.ofNat (second + 128) ∧
      UInt8.ofNat (second + 128) ≤ lead.high := by
    simp only [UInt8.le_iff_toNat_le, hoctet]
    exact ⟨hlow, hhigh⟩
  simp only [nextUnit, if_neg hlarge, hlead, if_pos hrange, hoctet, Nat.add_sub_cancel]

/-- The first octet of a character of two octets announces the one after it. -/
theorem announces_two {n : Nat} (hlo : 0x7F < n) (hhi : n ≤ 0x7FF) :
    Announces (n / 64 % 32 + 192) (n / 64) (n % 64) 0 := by
  refine ⟨by omega, ?_⟩
  rw [leadOctet?_ofNat (by omega), if_neg (by omega), if_pos (by omega)]
  exact ⟨_, rfl, by dsimp only; omega, rfl, by simp, by simp; omega⟩

/-- The first octet of a character of three octets announces the two after it, unless the code point
is a surrogate. -/
theorem announces_three {n : Nat} (hlo : 0x7FF < n) (hhi : n ≤ 0xFFFF)
    (hvalid : n < 0xD800 ∨ 0xDFFF < n) :
    Announces (n / 4096 % 16 + 224) (n / 4096) (n / 64 % 64) 1 := by
  refine ⟨by omega, ?_⟩
  rw [leadOctet?_ofNat (by omega), if_neg (by omega), if_neg (by omega)]
  split_ifs with hleast hsurrogates hother
  · exact ⟨_, rfl, by dsimp only; omega, rfl, by simp; omega, by simp; omega⟩
  · exact ⟨_, rfl, by dsimp only; omega, rfl, by simp, by simp; omega⟩
  · exact ⟨_, rfl, by dsimp only; omega, rfl, by simp, by simp; omega⟩
  all_goals omega

/-- The first octet of a character of four octets announces the three after it. -/
theorem announces_four {n : Nat} (hlo : 0xFFFF < n) (hhi : n < 0x110000) :
    Announces (n / 262144 % 8 + 240) (n / 262144) (n / 4096 % 64) 2 := by
  refine ⟨by omega, ?_⟩
  rw [leadOctet?_ofNat (by omega), if_neg (by omega), if_neg (by omega), if_neg (by omega),
    if_neg (by omega), if_neg (by omega)]
  split_ifs with hleast hother hgreatest
  · exact ⟨_, rfl, by dsimp only; omega, rfl, by simp; omega, by simp; omega⟩
  · exact ⟨_, rfl, by dsimp only; omega, rfl, by simp, by simp; omega⟩
  · exact ⟨_, rfl, by dsimp only; omega, rfl, by simp, by simp; omega⟩
  · omega

/-- The octets of a character are read as that character, whatever stands behind them. -/
theorem units_utf8EncodeChar_append (c : Char) (rest : List UInt8) :
    units (String.utf8EncodeChar c ++ rest) = some c :: units rest := by
  have hvalid : c.toNat < 0xD800 ∨ 0xDFFF < c.toNat ∧ c.toNat < 0x110000 := c.valid
  have hchar : Char.ofNat c.toNat = c := Char.ofNat_toNat c
  rw [String.utf8EncodeChar, show c.val.toNat = c.toNat from rfl]
  generalize c.toNat = n at hvalid hchar
  split_ifs with hone htwo hthree
  · have hoctet : (UInt8.ofNat n).toNat = n := by
      rw [UInt8.toNat_ofNat']
      omega
    have hsmall : UInt8.ofNat n < 0x80 := by
      simp only [UInt8.lt_iff_toNat_lt, hoctet, UInt8.reduceToNat]
      omega
    simp only [List.singleton_append, units, nextUnit, if_pos hsmall, hoctet, hchar]
  · have hunit := (announces_two (by omega) htwo).nextUnit_eq rest
    rw [takeFurther, show n / 64 * 64 + n % 64 = n by omega, hchar] at hunit
    simp only [List.cons_append, List.nil_append, units, hunit]
  · have hunit := (announces_three (by omega) hthree (by omega)).nextUnit_eq
      (UInt8.ofNat (n % 64 + 128) :: rest)
    rw [takeFurther_ofNat (by omega), takeFurther,
      show (n / 4096 * 64 + n / 64 % 64) * 64 + n % 64 = n by omega, hchar] at hunit
    simp only [List.cons_append, List.nil_append, units, hunit]
  · have hunit := (announces_four (n := n) (by omega) (by omega)).nextUnit_eq
      (UInt8.ofNat (n / 64 % 64 + 128) :: UInt8.ofNat (n % 64 + 128) :: rest)
    rw [takeFurther_ofNat (by omega), takeFurther_ofNat (by omega), takeFurther,
      show ((n / 262144 * 64 + n / 4096 % 64) * 64 + n / 64 % 64) * 64 + n % 64 = n by omega,
      hchar] at hunit
    simp only [List.cons_append, List.nil_append, units, hunit]

/-- The octets of a text are those of its characters, one after the other. -/
theorem octets_eq_flatMap (s : String) : octets s = s.toList.flatMap String.utf8EncodeChar := by
  rw [octets, ← String.utf8Encode_toList]
  simp [List.utf8Encode]

/-- The octets of a text are read as its characters, whatever stands behind them. -/
theorem units_octets_append (s : String) (rest : List UInt8) :
    units (octets s ++ rest) = s.toList.map some ++ units rest := by
  rw [octets_eq_flatMap]
  induction s.toList with
  | nil => rfl
  | cons c cs ih =>
    rw [List.flatMap_cons, List.append_assoc, units_utf8EncodeChar_append, ih, List.map_cons,
      List.cons_append]

/-- A text is read back from its octets. -/
theorem strictText?_octets (s : String) : strictText? (octets s) = some s := by
  have hunits : units (octets s) = s.toList.map some := by
    simpa [units] using units_octets_append s []
  have hall : (s.toList.map some).mapM id = some s.toList := by
    rw [List.mapM_map]
    exact (List.mapM_pure (m := Option) (f := id)).trans (by simp)
  rw [strictText?, hunits, hall, Option.map_some, String.ofList_toList]

/-! ## Where a unit begins -/

/-- An octet that can only stand behind the first one of a unit. -/
def IsContinuation (b : UInt8) : Prop :=
  0x80 ≤ b ∧ b ≤ 0xBF

/-- Only continuations can be second octets. -/
theorem bounds_of_leadOctet? {b : UInt8} {lead : LeadOctet} (h : leadOctet? b = some lead) :
    0x80 ≤ lead.low ∧ lead.high ≤ 0xBF := by
  unfold leadOctet? at h
  split_ifs at h <;> obtain rfl := Option.some.inj h <;> exact ⟨by simp, by simp⟩

/-- A continuation is no unit by itself. -/
theorem not_isContinuation_of_nextUnit {b : UInt8} {c : Char} {rest : List UInt8}
    (h : (nextUnit b rest).1 = some c) : ¬ IsContinuation b := by
  rintro ⟨hlow, hhigh⟩
  have hlarge : ¬ b < 0x80 := UInt8.not_lt.mpr hlow
  have hnone : leadOctet? b = none := by
    have hsmall : b < 0xC2 := UInt8.lt_of_le_of_lt hhigh (by decide)
    rw [leadOctet?, if_pos hsmall]
  simp [nextUnit, hlarge, hnone] at h

section

variable {tail : List UInt8} (htail : ∀ b ∈ tail.head?, ¬ IsContinuation b)

include htail

/-- What does not begin with a continuation adds nothing to what is wanted before it. -/
theorem takeFurther_append (further value : Nat) (bytes : List UInt8) :
    takeFurther further value (bytes ++ tail) =
      ((takeFurther further value bytes).1, (takeFurther further value bytes).2 ++ tail) := by
  fun_induction takeFurther further value bytes with
  | case1 value bytes => simp [takeFurther]
  | case2 further value =>
    cases tail with
    | nil => rfl
    | cons b tail =>
      have hb : ¬ (0x80 ≤ b ∧ b ≤ 0xBF) := htail b rfl
      simp [takeFurther, if_neg hb]
  | case3 further value b bytes hb ih => rw [List.cons_append, takeFurther, if_pos hb, ih]
  | case4 further value b bytes hb => rw [List.cons_append, takeFurther, if_neg hb]

/-- Octets that do not begin with a continuation are left alone by the unit before them. -/
theorem nextUnit_append (b : UInt8) (bytes : List UInt8) :
    nextUnit b (bytes ++ tail) = ((nextUnit b bytes).1, (nextUnit b bytes).2 ++ tail) := by
  unfold nextUnit
  by_cases hb : b < 0x80
  · simp [hb]
  rw [if_neg hb, if_neg hb]
  cases hlead : leadOctet? b with
  | none => rfl
  | some lead =>
    cases bytes with
    | nil =>
      cases tail with
      | nil => rfl
      | cons second tail =>
        have hsecond : ¬ (lead.low ≤ second ∧ second ≤ lead.high) := by
          rintro ⟨hlow, hhigh⟩
          obtain ⟨hleast, hgreatest⟩ := bounds_of_leadOctet? hlead
          exact htail second rfl ⟨UInt8.le_trans hleast hlow, UInt8.le_trans hhigh hgreatest⟩
        simp [if_neg hsecond]
    | cons second bytes =>
      simp only [List.cons_append]
      split
      · exact takeFurther_append htail _ _ _
      · rfl

/-- Reading starts afresh at every octet that is no continuation, whatever stands before it. -/
theorem units_append (bytes : List UInt8) : units (bytes ++ tail) = units bytes ++ units tail := by
  fun_induction units bytes with
  | case1 => rfl
  | case2 b bytes ih =>
    rw [List.cons_append, units, nextUnit_append htail, ih, List.cons_append]

end

/-- A text that is not empty begins with an octet that is no continuation. -/
theorem not_isContinuation_head_octets {s : String} (hs : s ≠ "") (rest : List UInt8) :
    ∀ b ∈ (octets s ++ rest).head?, ¬ IsContinuation b := by
  intro b hb
  obtain ⟨others, hothers⟩ := List.head?_eq_some_iff.mp hb
  have hunits := units_octets_append s rest
  rw [hothers, units] at hunits
  cases hchars : s.toList with
  | nil => exact absurd (String.toList_eq_nil_iff.mp hchars) hs
  | cons c cs =>
    rw [hchars, List.map_cons, List.cons_append] at hunits
    exact not_isContinuation_of_nextUnit (List.cons.inj hunits).1

end FirmwareModel.Text
