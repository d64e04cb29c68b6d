import Mathlib.Data.List.Induction
import FirmwareModel.Proofs.Text.Qualified

/-!
# Hexadecimal numerals

A number is spelled in hexadecimal by digits of either letter case, behind any number of zeros and
an optional mark. Reading accepts these spellings and nothing else, and gives a word exactly for the
numbers that fit in one.
-/

namespace FirmwareModel.Text

/-- The digits spell a number in hexadecimal: in lower case, they are its shortest numeral behind
any number of zeros. -/
def SpellsHex (digits : List Char) (n : Nat) : Prop :=
  ∃ zeros, digits.map Char.toLower = List.replicate zeros '0' ++ Nat.toDigits 16 n

/-- What can stand in front of hexadecimal digits to mark them. -/
def hexMarks : List (List Char) :=
  [[], ['0', 'x'], ['0', 'X']]

/-- The text is a number in hexadecimal, with or without a mark. -/
def IsHexLiteral (text : List Char) (n : Nat) : Prop :=
  ∃ mark ∈ hexMarks, ∃ digits, text = mark ++ digits ∧ SpellsHex digits n

/-! ## Digits -/

/-- The characters of symbols are ASCII. -/
theorem toNat_lt_of_isSymbolChar {c : Char} (hc : isSymbolChar c = true) : c.toNat < 128 := by
  rw [isSymbolChar_iff_toNat] at hc
  omega

/-- A character is a hexadecimal digit exactly when its lower case is the digit of a number. -/
theorem digitIn?_hex_iff {c : Char} {d : Nat} :
    digitIn? 16 c = some d ↔ d < 16 ∧ c.toLower = Nat.digitChar d := by
  have hascii : ∀ code : Fin 128, ∀ d : Fin 16, digitIn? 16 (Char.ofNat code) = some d.val ↔
      (Char.ofNat code).toLower = Nat.digitChar d := by
    decide +kernel
  have hdigit : c.toNat < 128 → d < 16 →
      (digitIn? 16 c = some d ↔ c.toLower = Nat.digitChar d) := by
    intro hcode hd
    have h := hascii ⟨c.toNat, hcode⟩ ⟨d, hd⟩
    rwa [Char.ofNat_toNat] at h
  constructor
  · intro h
    obtain ⟨hvalue, hd⟩ := Option.filter_eq_some_iff.mp h
    have hsymbol := isSymbolChar_of_digitValue?_ne_none (by rw [hvalue]; simp)
    have hlt : d < 16 := of_decide_eq_true hd
    exact ⟨hlt, (hdigit (toNat_lt_of_isSymbolChar hsymbol) hlt).mp h⟩
  · rintro ⟨hd, hlower⟩
    have hcode : c.toNat < 128 := by
      unfold Char.toLower at hlower
      split at hlower
      case isTrue hupper =>
        have hle : c.toNat ≤ 90 := UInt32.le_iff_toNat_le.mp hupper.2
        omega
      case isFalse =>
        have hall : ∀ d : Fin 16, (Nat.digitChar d).toNat < 128 := by decide
        rw [hlower]
        exact hall ⟨d, hd⟩
    exact (hdigit hcode hd).mpr hlower

/-- The last digit of a spelling, and what the digits in front of it spell. -/
theorem spellsHex_concat_iff {digits : List Char} {c : Char} {n : Nat} :
    SpellsHex (digits ++ [c]) n ↔
      (digits = [] ∧ n / 16 = 0 ∨ SpellsHex digits (n / 16)) ∧
        c.toLower = Nat.digitChar (n % 16) := by
  simp only [SpellsHex, List.map_append, List.map_cons, List.map_nil]
  by_cases hn : n < 16
  · have hquotient : n / 16 = 0 := Nat.div_eq_of_lt hn
    have hzero : Nat.toDigits 16 0 = ['0'] := rfl
    simp only [Nat.toDigits_of_lt_base hn, hquotient, Nat.mod_eq_of_lt hn, hzero, and_true,
      List.append_singleton_inj, ← List.replicate_succ']
    constructor
    · rintro ⟨zeros, hdigits, hc⟩
      refine ⟨?_, hc⟩
      cases zeros with
      | zero => exact Or.inl (List.map_eq_nil_iff.mp hdigits)
      | succ zeros => exact Or.inr ⟨zeros, hdigits⟩
    · rintro ⟨rfl | ⟨zeros, hdigits⟩, hc⟩
      · exact ⟨0, rfl, hc⟩
      · exact ⟨zeros + 1, hdigits, hc⟩
  · have hquotient : n / 16 ≠ 0 := by omega
    simp only [Nat.toDigits_of_base_le (by omega) (Nat.le_of_not_lt hn), hquotient, and_false,
      false_or, ← List.append_assoc, List.append_singleton_inj, exists_and_right]

/-- No digits spell no number. -/
theorem not_spellsHex_nil {n : Nat} : ¬ SpellsHex [] n := by
  rintro ⟨zeros, h⟩
  exact Nat.toDigits_ne_nil (List.append_eq_nil_iff.mp h.symm).2

/-! ## Reading -/

/-- Digits are read as the number that they spell. -/
theorem continueNumeral?_hex_iff {digits : List Char} {n : Nat} :
    continueNumeral? 16 0 digits = some n ↔ digits = [] ∧ n = 0 ∨ SpellsHex digits n := by
  induction digits using List.reverseRecOn generalizing n with
  | nil => simp [continueNumeral?, not_spellsHex_nil, eq_comm]
  | append_singleton digits c ih =>
    have hlast : ∀ value, continueNumeral? 16 value [c] = some n ↔
        ∃ d, digitIn? 16 c = some d ∧ value * 16 + d = n := by
      intro value
      cases hdigit : digitIn? 16 c <;> simp [continueNumeral?, hdigit]
    simp only [continueNumeral?_append, Option.bind_eq_some_iff, ih, hlast, digitIn?_hex_iff,
      spellsHex_concat_iff, List.append_eq_nil_iff, List.cons_ne_self, and_false, false_and,
      false_or]
    constructor
    · rintro ⟨value, hvalue, d, ⟨hd, hc⟩, rfl⟩
      have hquotient : (value * 16 + d) / 16 = value := by omega
      have hremainder : (value * 16 + d) % 16 = d := by omega
      rw [hquotient, hremainder]
      exact ⟨hvalue, hc⟩
    · rintro ⟨hvalue, hc⟩
      exact ⟨n / 16, hvalue, n % 16, ⟨Nat.mod_lt _ (by omega), hc⟩, by omega⟩

/-- The numerals in base sixteen are the spellings of numbers. -/
theorem numeralValue?_hex_iff {digits : List Char} {n : Nat} :
    numeralValue? 16 digits = some n ↔ SpellsHex digits n := by
  rw [numeralValue?, Option.ite_none_left_eq_some, continueNumeral?_hex_iff, List.isEmpty_iff]
  constructor
  · rintro ⟨hne, ⟨rfl, -⟩ | hspells⟩
    · exact absurd rfl hne
    · exact hspells
  · intro hspells
    refine ⟨?_, Or.inr hspells⟩
    rintro rfl
    exact not_spellsHex_nil hspells

/-- A number is read as a word when it fits in one, and not at all otherwise. -/
theorem wordValue?_of_spellsHex {digits : List Char} {n : Nat} (h : SpellsHex digits n) :
    wordValue? 16 digits = if n < UInt64.size then some (UInt64.ofNat n) else none := by
  rw [wordValue?, numeralValue?_hex_iff.mpr h]

/-- A word is read from hexadecimal digits exactly when they spell its value. -/
theorem wordValue?_hex_iff {digits : List Char} {w : UInt64} :
    wordValue? 16 digits = some w ↔ SpellsHex digits w.toNat := by
  constructor
  · intro h
    unfold wordValue? at h
    split at h
    case h_1 n hn =>
      obtain ⟨hfits, hword⟩ := Option.ite_none_right_eq_some.mp h
      rw [← Option.some.inj hword, UInt64.toNat_ofNat_of_lt' hfits]
      exact numeralValue?_hex_iff.mp hn
    case h_2 => cases h
  · intro h
    rw [wordValue?_of_spellsHex h, if_pos w.toNat_lt_size, UInt64.ofNat_toNat]

/-- Spellings are made of hexadecimal digits. -/
theorem SpellsHex.isDigitIn {digits : List Char} {n : Nat} (h : SpellsHex digits n) :
    ∀ c ∈ digits, isDigitIn 16 c = true := by
  induction digits using List.reverseRecOn generalizing n with
  | nil => simp
  | append_singleton digits c ih =>
    obtain ⟨hfront, hc⟩ := spellsHex_concat_iff.mp h
    have hdigit := digitIn?_hex_iff.mpr ⟨Nat.mod_lt n (by omega), hc⟩
    intro other hother
    rcases List.mem_append.mp hother with hmem | hmem
    · rcases hfront with ⟨rfl, -⟩ | hspells
      · cases hmem
      · exact ih hspells other hmem
    · obtain rfl := List.mem_singleton.mp hmem
      rw [Text.isDigitIn, hdigit]
      rfl

/-! ## Marks -/

/-- Stripping takes off a mark. -/
theorem exists_mark_append_stripHexMark (text : List Char) :
    ∃ mark ∈ hexMarks, text = mark ++ stripHexMark text := by
  unfold stripHexMark
  split
  · exact ⟨['0', 'x'], by simp [hexMarks], rfl⟩
  · exact ⟨['0', 'X'], by simp [hexMarks], rfl⟩
  · exact ⟨[], by simp [hexMarks], rfl⟩

/-- Stripping takes off the mark alone when none stands behind it. -/
theorem stripHexMark_append {mark text : List Char} (hmark : mark ∈ hexMarks)
    (htext : stripHexMark text = text) : stripHexMark (mark ++ text) = text := by
  simp only [hexMarks, List.mem_cons, List.not_mem_nil, or_false] at hmark
  rcases hmark with rfl | rfl | rfl
  · exact htext
  · rfl
  · rfl

/-- Digits hold no mark. -/
theorem SpellsHex.stripHexMark_eq {digits : List Char} {n : Nat} (h : SpellsHex digits n) :
    stripHexMark digits = digits := by
  have hdigit := h.isDigitIn
  unfold stripHexMark
  split
  · exact absurd (hdigit 'x' (by simp)) (by decide)
  · exact absurd (hdigit 'X' (by simp)) (by decide)
  · rfl

/-- A word is read, behind an optional mark, from exactly the literals of its number. -/
theorem wordValue?_stripHexMark_iff {text : List Char} {w : UInt64} :
    wordValue? 16 (stripHexMark text) = some w ↔ IsHexLiteral text w.toNat := by
  rw [wordValue?_hex_iff]
  constructor
  · intro h
    obtain ⟨mark, hmark, htext⟩ := exists_mark_append_stripHexMark text
    exact ⟨mark, hmark, stripHexMark text, htext, h⟩
  · rintro ⟨mark, hmark, digits, rfl, h⟩
    rwa [stripHexMark_append hmark h.stripHexMark_eq]

/-- A hexadecimal literal is not empty. -/
theorem IsHexLiteral.ne_nil {text : List Char} {n : Nat} (h : IsHexLiteral text n) : text ≠ [] := by
  obtain ⟨mark, -, digits, rfl, hdigits⟩ := h
  intro hnil
  rw [(List.append_eq_nil_iff.mp hnil).2] at hdigits
  exact not_spellsHex_nil hdigits

/-- The characters of a literal are symbol characters, those of its mark included. -/
theorem IsHexLiteral.isSymbolChar {text : List Char} {n : Nat} (h : IsHexLiteral text n) :
    ∀ c ∈ text, isSymbolChar c = true := by
  obtain ⟨mark, hmark, digits, rfl, hdigits⟩ := h
  intro c hc
  rcases List.mem_append.mp hc with hmem | hmem
  · have hmarks : (hexMarks.all fun mark => mark.all Text.isSymbolChar) = true := rfl
    exact List.all_eq_true.mp (List.all_eq_true.mp hmarks mark hmark) c hmem
  · have hdigit := hdigits.isDigitIn c hmem
    apply isSymbolChar_of_digitValue?_ne_none
    intro hnone
    simp [isDigitIn, digitIn?, hnone] at hdigit

end FirmwareModel.Text
