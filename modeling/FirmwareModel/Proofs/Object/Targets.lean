import FirmwareModel.Object.Relocation
import FirmwareModel.Proofs.Text.Hexadecimal

/-!
# Targets of relocation records

A target names a symbol under the stem of a section. Under a code section it refers to code,
whatever stands behind the symbol. Under a data section it refers to data at an offset, which is
documented to stand behind the symbol as a plus sign and hexadecimal digits. Every target in this
form is read as it says, but two other forms are read as well: text that does not begin with a plus
sign counts as no offset, and a second plus sign may stand in front of the digits.
-/

namespace FirmwareModel

open FirmwareModel.Text

namespace ReferenceTarget

/-! ## Symbols under stems -/

/-- The target names a symbol under the stem of a section: both stand in front, with a dot between
them, and the rest of the target does not go on with the symbol. -/
structure IsUnder (stem target symbol rest : List Char) : Prop where
  text : target = stem ++ ['.'] ++ symbol ++ rest
  symbol_ne_nil : symbol ≠ []
  symbol_chars : ∀ c ∈ symbol, isSymbolChar c
  rest_head : ∀ c ∈ rest.head?, isSymbolChar c = false

/-- The target names some symbol under the stem. -/
def Fits (target : String) (stem : String) : Prop :=
  ∃ symbol rest, IsUnder stem.toList target.toList symbol rest

/-- The target names a symbol under the first of the stems that it fits. -/
def IsUnderFirst (stems : List String) (target symbol : String) (rest : List Char) : Prop :=
  ∃ before stem after, stems = before ++ stem :: after ∧
    IsUnder stem.toList target.toList symbol.toList rest ∧ ∀ other ∈ before, ¬ Fits target other

/-- A target is split when it is the stem, a dot, a symbol and a rest. -/
theorem splitSection?_eq_some_iff {target stem symbol rest : List Char} :
    splitSection? target stem = some (symbol, rest) ↔ IsUnder stem target symbol rest := by
  simp only [splitSection?, bind, Option.bind_eq_some_iff, stripStart?_eq_some_iff,
    Option.ite_none_left_eq_some, Option.some.injEq, Prod.mk.injEq, List.isEmpty_iff]
  rw [exists_symbol_cut_iff]
  constructor
  · rintro ⟨htext, hne, hsymbol, hrest⟩
    exact ⟨htext, hne, hsymbol, hrest⟩
  · rintro ⟨htext, hne, hsymbol, hrest⟩
    exact ⟨htext, hne, hsymbol, hrest⟩

/-- A target is not split when it does not fit the stem. -/
theorem splitSection?_eq_none_iff {target stem : String} :
    splitSection? target.toList stem.toList = none ↔ ¬ Fits target stem := by
  simp only [Option.eq_none_iff_forall_ne_some, Prod.forall, ne_eq, splitSection?_eq_some_iff, Fits,
    not_exists]

/-- Of several stems, the first one that fits splits the target. -/
theorem findSome?_splitSection?_eq_some_iff {stems : List String} {target symbol : String}
    {rest : List Char} :
    (stems.findSome? fun stem => splitSection? target.toList stem.toList) =
        some (symbol.toList, rest) ↔ IsUnderFirst stems target symbol rest := by
  simp only [List.findSome?_eq_some_iff, splitSection?_eq_some_iff, splitSection?_eq_none_iff,
    IsUnderFirst]

/-- The code symbol of a target is the one under the first code section that it fits. -/
theorem code?_of_isUnderFirst {stems : List String} {target symbol : String} {rest : List Char}
    (h : IsUnderFirst stems target symbol rest) :
    code? stems target.toList = some (.code symbol) := by
  simp only [code?, findSome?_splitSection?_eq_some_iff.mpr h, Option.map_some,
    String.ofList_toList]

/-- A target is no reference to code when it fits no stem of code. -/
theorem code?_eq_none_iff {stems : List String} {target : String} :
    code? stems target.toList = none ↔ ∀ stem ∈ stems, ¬ Fits target stem := by
  simp only [code?, Option.map_eq_none_iff, List.findSome?_eq_none_iff, splitSection?_eq_none_iff]

/-- The data symbol of a target is the one under the first data section that it fits. No further
section is tried when its offset cannot be read. -/
theorem data?_of_isUnderFirst {stems : List String} {target symbol : String} {rest : List Char}
    (h : IsUnderFirst stems target symbol rest) :
    data? stems target.toList = (offset? rest).map (.data symbol) := by
  simp only [data?, findSome?_splitSection?_eq_some_iff.mpr h, bind, Option.bind_some,
    String.ofList_toList]
  cases offset? rest <;> rfl

/-- A target is a reference to data when it is under the first fitting stem of data and its rest is
an offset. -/
theorem data?_eq_some_iff {stems : List String} {target symbol : String} {offset : UInt64} :
    data? stems target.toList = some (.data symbol offset) ↔
      ∃ rest, IsUnderFirst stems target symbol rest ∧ offset? rest = some offset := by
  constructor
  · intro h
    obtain ⟨⟨chars, rest⟩, hfind, hrest⟩ := Option.bind_eq_some_iff.mp h
    obtain ⟨offset', hoffset, hdata⟩ := Option.bind_eq_some_iff.mp hrest
    obtain ⟨rfl, rfl⟩ : String.ofList chars = symbol ∧ offset' = offset := by simpa using hdata
    refine ⟨rest, findSome?_splitSection?_eq_some_iff.mp ?_, hoffset⟩
    rw [hfind, String.toList_ofList]
  · rintro ⟨rest, hfirst, hoffset⟩
    rw [data?_of_isUnderFirst hfirst, hoffset, Option.map_some]

/-! ## Offsets -/

/-- The documented forms of what follows a data symbol: nothing for the offset zero, or a plus sign
and the offset in hexadecimal. -/
inductive IsAddend : List Char → Nat → Prop
  | zero : IsAddend [] 0
  | plus {literal : List Char} {n : Nat} : IsHexLiteral literal n → IsAddend ('+' :: literal) n

/-- The further forms that are read: text that does not begin with a plus sign, as the offset zero,
and a plus sign too many in front of the digits. -/
inductive IsLooseAddend : List Char → Nat → Prop
  | ignored {c : Char} {text : List Char} : c ≠ '+' → IsLooseAddend (c :: text) 0
  | doubled {mark digits : List Char} {n : Nat} : mark ∈ hexMarks → SpellsHex digits n →
      IsLooseAddend ('+' :: (mark ++ '+' :: digits)) n

/-- No text is both in a documented form and in one of the others. -/
theorem IsLooseAddend.not_isAddend {text : List Char} {n m : Nat} (h : IsLooseAddend text n) :
    ¬ IsAddend text m := by
  intro haddend
  cases h with
  | ignored hc =>
    cases haddend with
    | plus => exact hc rfl
  | doubled hmark hdigits =>
    cases haddend with
    | plus hliteral =>
      have hplus := hliteral.isSymbolChar '+' (by simp)
      exact absurd hplus (by decide)

/-- A number in hexadecimal is read when it fits a word. -/
theorem addend?_of_isHexLiteral {literal : List Char} {n : Nat} (h : IsHexLiteral literal n) :
    addend? literal = if n < UInt64.size then some (UInt64.ofNat n) else none := by
  obtain ⟨mark, hmark, digits, rfl, hdigits⟩ := h
  unfold addend?
  rw [stripHexMark_append hmark hdigits.stripHexMark_eq]
  split
  · exact absurd (hdigits.isDigitIn '+' (by simp)) (by decide)
  · exact wordValue?_of_spellsHex hdigits

/-- A text is read as a word when it is the number in hexadecimal, with a plus in front of its
digits at most. -/
theorem addend?_eq_some_iff {text : List Char} {w : UInt64} :
    addend? text = some w ↔ IsHexLiteral text w.toNat ∨
      ∃ mark ∈ hexMarks, ∃ digits, text = mark ++ '+' :: digits ∧ SpellsHex digits w.toNat := by
  constructor
  · intro h
    unfold addend? at h
    split at h
    case h_1 digits hstrip =>
      obtain ⟨mark, hmark, htext⟩ := exists_mark_append_stripHexMark text
      rw [hstrip] at htext
      exact Or.inr ⟨mark, hmark, digits, htext, wordValue?_hex_iff.mp h⟩
    case h_2 => exact Or.inl (wordValue?_stripHexMark_iff.mp h)
  · rintro (hliteral | ⟨mark, hmark, digits, rfl, hdigits⟩)
    · rw [addend?_of_isHexLiteral hliteral, if_pos w.toNat_lt_size, UInt64.ofNat_toNat]
    · rw [addend?, stripHexMark_append hmark rfl]
      exact wordValue?_hex_iff.mpr hdigits

/-- An offset in a documented form is read as it is written if it fits in a word, and makes the
target unreadable otherwise. -/
theorem offset?_of_isAddend {text : List Char} {n : Nat} (h : IsAddend text n) :
    offset? text = if n < UInt64.size then some (UInt64.ofNat n) else none := by
  cases h with
  | zero => rfl
  | plus hliteral => exact addend?_of_isHexLiteral hliteral

/-- An offset is read from a documented form or one of the others. -/
theorem offset?_eq_some_iff {text : List Char} {w : UInt64} :
    offset? text = some w ↔ IsAddend text w.toNat ∨ IsLooseAddend text w.toNat := by
  constructor
  · intro h
    unfold offset? at h
    split at h
    case h_1 behind =>
      rcases addend?_eq_some_iff.mp h with hliteral | ⟨mark, hmark, digits, rfl, hdigits⟩
      · exact Or.inl (.plus hliteral)
      · exact Or.inr (.doubled hmark hdigits)
    case h_2 hplus =>
      obtain rfl := Option.some.inj h
      cases text with
      | nil => exact Or.inl .zero
      | cons c behind =>
        refine Or.inr (.ignored ?_)
        rintro rfl
        exact hplus behind rfl
  · rintro (haddend | hloose)
    · rw [offset?_of_isAddend haddend, if_pos w.toNat_lt_size, UInt64.ofNat_toNat]
    · generalize hn : w.toNat = n at hloose
      cases hloose with
      | ignored hc =>
        obtain rfl : w = 0 := UInt64.toNat_inj.mp hn
        simp [offset?, hc]
      | doubled hmark hdigits =>
        subst hn
        exact addend?_eq_some_iff.mpr (Or.inr ⟨_, hmark, _, rfl, hdigits⟩)

/-! ## Whole targets -/

/-- A target is read as data exactly when it fits no code section, and what follows its symbol under
the first data section that it fits gives the offset, in a documented form or in one of the others.
No text is in both, so the targets that go beyond the documented form are those with a loose
addend. -/
theorem ofText?_eq_data_iff {sections : SectionSettings} {target symbol : String}
    {offset : UInt64} :
    (ofText? sections target = some (.data symbol offset) ↔
      (∀ stem ∈ sections.codeStems, ¬ Fits target stem) ∧
        ∃ rest, IsUnderFirst sections.dataStems target symbol rest ∧
          (IsAddend rest offset.toNat ∨ IsLooseAddend rest offset.toNat)) ∧
    ∀ rest n m, IsLooseAddend rest n → ¬ IsAddend rest m := by
  refine ⟨?_, fun rest n m hloose => hloose.not_isAddend⟩
  have hcode : code? sections.codeStems target.toList ≠ some (.data symbol offset) := by
    intro h
    obtain ⟨found, -, hfound⟩ := Option.map_eq_some_iff.mp h
    cases hfound
  simp only [ofText?, Option.or_eq_some_iff, hcode, false_or, code?_eq_none_iff, data?_eq_some_iff,
    offset?_eq_some_iff]

/-- A target can be read as data without being in the documented form: a negative addend is passed
over, and one with a second plus sign is read. -/
theorem ofText?_reads_undocumented_addends :
    let sections : SectionSettings := {}
    ∀ reference ∈ [(".data._ZN3Foo3objE-0x2", (0 : UInt64)), (".data._ZN3Foo3objE+0x+5", 5)],
      ofText? sections reference.1 = some (.data "_ZN3Foo3objE" reference.2) ∧
      ¬ ∃ stem ∈ sections.dataStems, ∃ rest,
        reference.1.toList = stem.toList ++ ['.'] ++ "_ZN3Foo3objE".toList ++ rest ∧
          IsAddend rest reference.2.toNat := by
  intro sections reference hreference
  refine ⟨?_, ?_⟩
  · revert reference
    decide +kernel
  · rintro ⟨stem, hstem, rest, htext, haddend⟩
    simp only [List.mem_cons, List.not_mem_nil, or_false, sections] at hreference hstem
    have hloose : IsLooseAddend rest reference.2.toNat := by
      rcases hreference with rfl | rfl <;> rcases hstem with rfl | rfl
      · obtain rfl : rest = ['-', '0', 'x', '2'] := by simpa using htext.symm
        exact .ignored (by decide)
      · simp at htext
      · obtain rfl : rest = '+' :: (['0', 'x'] ++ '+' :: ['5']) := by simpa using htext.symm
        exact .doubled (by decide) (numeralValue?_hex_iff.mp (by decide))
      · simp at htext
    exact hloose.not_isAddend haddend

/-- The first of the stems that the target begins with, followed by a dot. -/
def firstStem? (stems : List String) (target : String) : Option String :=
  stems.find? fun stem => stem.toList ++ ['.'] <+: target.toList

/-- A target that fits a stem begins with it and a dot. -/
theorem Fits.isPrefix {target stem : String} (h : Fits target stem) :
    stem.toList ++ ['.'] <+: target.toList := by
  obtain ⟨symbol, rest, hunder⟩ := h
  exact ⟨symbol ++ rest, by rw [hunder.text, List.append_assoc _ symbol]⟩

/-- Where no stem comes first, none fits. -/
theorem not_fits_of_firstStem?_eq_none {stems : List String} {target : String}
    (h : firstStem? stems target = none) : ∀ stem ∈ stems, ¬ Fits target stem := by
  intro stem hstem hfits
  have hnot := List.find?_eq_none.mp h stem hstem
  exact hnot (decide_eq_true hfits.isPrefix)

/-- A symbol behind the first stem that the target begins with is the one under the first stem that
the target fits. -/
theorem isUnderFirst_of_firstStem? {stems : List String} {target stem symbol : String}
    {rest : List Char} (h : firstStem? stems target = some stem)
    (hunder : IsUnder stem.toList target.toList symbol.toList rest) :
    IsUnderFirst stems target symbol rest := by
  obtain ⟨-, before, after, rfl, hbefore⟩ := List.find?_eq_some_iff_append.mp h
  refine ⟨before, stem, after, rfl, hunder, fun other hother hfits => ?_⟩
  have hnot := hbefore other hother
  simp [hfits.isPrefix] at hnot

/-- A written target names its symbol under its stem. -/
theorem isUnder_written {symbol : String} (hsymbol : IsIdentifier symbol) (stem addend : String)
    {n : Nat} (haddend : IsAddend addend.toList n) :
    IsUnder stem.toList (stem ++ "." ++ symbol ++ addend).toList symbol.toList addend.toList := by
  refine ⟨by simp, by simpa using hsymbol.1, ?_, ?_⟩
  · intro c hc
    exact isSymbolChar_iff.mpr (hsymbol.2 c hc)
  · intro c hc
    generalize addend.toList = rest at haddend hc
    cases haddend with
    | zero => cases hc
    | plus =>
      obtain rfl := Option.some.inj hc
      decide

end ReferenceTarget

/-- The record shows the target in its last column: the text in front of it, if any, ends in a
blank, and only blanks stand behind. -/
structure RelocationRecord.Shows (r : RelocationRecord) (target : String) : Prop where
  line : ∃ before after, r.reference.toList = before ++ target.toList ++ after ∧
    (∀ c ∈ before.getLast?, isBlank c) ∧ ∀ c ∈ after, isBlank c
  column : ∀ c ∈ target.toList, isBlank c = false

/-- The last column of a record is the target that it shows. -/
theorem RelocationRecord.Shows.targetText?_eq {r : RelocationRecord} {target : String}
    (h : r.Shows target) (hne : target ≠ "") : r.targetText? = some target := by
  obtain ⟨before, after, hline, hbefore, hafter⟩ := h.line
  rw [targetText?, hline, lastColumn?_append hbefore (by simpa using hne) h.column hafter]
  simp

namespace ReferenceTarget

/-- The target is read with the result, by itself and in the last column of every record. -/
def ReadsAs (sections : SectionSettings) (target : String) (result : Option ReferenceTarget) :
    Prop :=
  ofText? sections target = result ∧
    ∀ r : RelocationRecord, r.Shows target → r.target? sections = result

/-- A target that is not empty is read in records as it is by itself. -/
theorem readsAs_iff {sections : SectionSettings} {target : String}
    {result : Option ReferenceTarget} (hne : target ≠ "") :
    ReadsAs sections target result ↔ ofText? sections target = result := by
  refine ⟨fun h => h.1, fun h => ⟨h, fun r hr => ?_⟩⟩
  rw [RelocationRecord.target?, hr.targetText?_eq hne, Option.bind_some, h]

/-- Targets are read as they are written, by themselves and in records. A symbol under the first
code section that the target begins with is code. Under the first data section, when there is no
such code section, it is data at the offset written behind it; a number too large for a word makes
the target unreadable. -/
theorem written_targets_read_as_written (sections : SectionSettings) {symbol : String}
    (hsymbol : IsIdentifier symbol) (stem : String) :
    (firstStem? sections.codeStems (stem ++ "." ++ symbol) = some stem →
      ReadsAs sections (stem ++ "." ++ symbol) (some (.code symbol))) ∧
    ∀ addend target : String, target = stem ++ "." ++ symbol ++ addend →
      firstStem? sections.codeStems target = none →
      firstStem? sections.dataStems target = some stem →
      (∀ offset : UInt64, IsAddend addend.toList offset.toNat →
        ReadsAs sections target (some (.data symbol offset))) ∧
      (∀ n, IsAddend addend.toList n → UInt64.size ≤ n → ReadsAs sections target none) := by
  constructor
  · intro hcode
    have hunder := isUnder_written hsymbol stem "" .zero
    rw [String.append_empty] at hunder
    have hfirst := isUnderFirst_of_firstStem? hcode hunder
    rw [readsAs_iff (by simp), ofText?, code?_of_isUnderFirst hfirst, Option.some_or]
  · rintro addend target rfl hcode hdata
    have hread : ∀ n, IsAddend addend.toList n →
        ofText? sections (stem ++ "." ++ symbol ++ addend) =
          (offset? addend.toList).map (.data symbol) := by
      intro n haddend
      have hunder := isUnder_written hsymbol stem addend haddend
      have hnone := code?_eq_none_iff.mpr (not_fits_of_firstStem?_eq_none hcode)
      rw [ofText?, hnone, Option.none_or,
        data?_of_isUnderFirst (isUnderFirst_of_firstStem? hdata hunder)]
    constructor
    · intro offset haddend
      rw [readsAs_iff (by simp), hread _ haddend, offset?_of_isAddend haddend,
        if_pos offset.toNat_lt_size, UInt64.ofNat_toNat, Option.map_some]
    · intro n haddend hlarge
      rw [readsAs_iff (by simp), hread n haddend, offset?_of_isAddend haddend,
        if_neg (Nat.not_lt.mpr hlarge), Option.map_none]

/-- A pointer into code, one into data under the first of two sections that its target begins with,
and an offset that does not fit in a word. -/
theorem store_targets_read_as_written :
    let sections : SectionSettings := { dataStems := [".data.rel", ".data"] }
    IsIdentifier "store_1" ∧
      ReadsAs sections ".text.store_1" (some (.code "store_1")) ∧
      ReadsAs sections ".data.rel.store_1+0X000fF" (some (.data "store_1" 255)) ∧
      ReadsAs sections ".data.rel.store_1+10000000000000000" none ∧
      RelocationRecord.target? sections
          ⟨".rodata.p", "00000000 R_AVR_16 .data.rel.store_1+0X000fF "⟩ =
        some (.data "store_1" 255) := by
  intro sections
  have hsymbol : IsIdentifier "store_1" := isIdentifier_iff.mp (by decide)
  have hcode := (written_targets_read_as_written sections hsymbol ".text").1 (by decide)
  have hdata := (written_targets_read_as_written sections hsymbol ".data.rel").2
  have hoffset := (hdata "+0X000fF" ".data.rel.store_1+0X000fF" rfl (by decide) (by decide)).1 255
    (.plus ⟨['0', 'X'], by decide, ['0', '0', '0', 'f', 'F'], rfl,
      numeralValue?_hex_iff.mp (by decide)⟩)
  have hlarge := (hdata "+10000000000000000" ".data.rel.store_1+10000000000000000" rfl (by decide)
    (by decide)).2 (2 ^ 64)
    (.plus ⟨[], by decide, "10000000000000000".toList, rfl, numeralValue?_hex_iff.mp (by decide)⟩)
    (by decide)
  have hshows : RelocationRecord.Shows
      ⟨".rodata.p", "00000000 R_AVR_16 .data.rel.store_1+0X000fF "⟩
      ".data.rel.store_1+0X000fF" :=
    ⟨⟨"00000000 R_AVR_16 ".toList, [' '], by decide, by simp [isBlank], by simp [isBlank]⟩,
      by simp [isBlank]⟩
  exact ⟨hsymbol, hcode, hoffset, hlarge, hoffset.2 _ hshows⟩

end ReferenceTarget

end FirmwareModel
