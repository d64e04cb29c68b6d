import FirmwareModel.Proofs.Memory.Windows
import FirmwareModel.Proofs.Text.Hexadecimal

/-!
# Layouts of linker maps

A linker map lays out each entry on one line or on two: the indented section of the symbol, and its
load address in the column behind it or first on the next line. Lines that name no section may stand
around the entries, and any lines without the header in front of the memory map. Whichever layout is
chosen for an entry, and however its address is spelled, reading the map gives back the entries that
were laid out, in their order.
-/

namespace FirmwareModel

open FirmwareModel.Text

namespace MapEntry

/-- The name of the section that holds the symbol of an entry. -/
def sectionName (e : MapEntry) : List Char :=
  e.place.stem.toList ++ e.symbol.toList

/-- The text is an address in hexadecimal with any further columns, which a blank sets off. -/
def ShowsAddress (text : List Char) (load : UInt64) : Prop :=
  ∃ literal further, text = literal ++ further ∧ IsHexLiteral literal load.toNat ∧
    ∀ c ∈ further.head?, isBlank c = true

/-- The text is a gap between columns. -/
def IsGap (text : List Char) : Prop :=
  text ≠ [] ∧ ∀ c ∈ text, isBlank c = true

/-- The lines lay out the entries: each on one line or on two, among lines that name no section. -/
inductive LaysOut : List (List Char) → List MapEntry → Prop
  | nil : LaysOut [] []
  | other {line : List Char} {lines : List (List Char)} {entries : List MapEntry} :
      (∀ place symbol rest, ¬ IsSection line place symbol rest) → LaysOut lines entries →
      LaysOut (line :: lines) entries
  | oneLine {e : MapEntry} {indent gap text : List Char} {lines : List (List Char)}
      {entries : List MapEntry} :
      IsIdentifier e.symbol → IsGap indent → IsGap gap → ShowsAddress text e.loadAddress →
      LaysOut lines entries →
      LaysOut ((indent ++ e.sectionName ++ (gap ++ text)) :: lines) (e :: entries)
  | twoLines {e : MapEntry} {indent trailing blanks text : List Char} {lines : List (List Char)}
      {entries : List MapEntry} :
      IsIdentifier e.symbol → IsGap indent → (∀ c ∈ trailing, isBlank c = true) →
      (∀ c ∈ blanks, isBlank c = true) → ShowsAddress text e.loadAddress → LaysOut lines entries →
      LaysOut ((indent ++ e.sectionName ++ trailing) :: (blanks ++ text) :: lines) (e :: entries)

/-! ## Columns -/

/-- An address with only blanks in front of it leads the line. -/
theorem ShowsAddress.leadingAddress?_eq {text blanks : List Char} {load : UInt64}
    (h : ShowsAddress text load) (hblanks : ∀ c ∈ blanks, isBlank c = true) :
    leadingAddress? (blanks ++ text) = some load := by
  obtain ⟨literal, further, rfl, hliteral, hfurther⟩ := h
  have hblank : ∀ c ∈ literal, isBlank c = false :=
    fun c hc => isBlank_eq_false_of_isSymbolChar (hliteral.isSymbolChar c hc)
  rw [leadingAddress?, ← List.append_assoc,
    firstColumn?_append hblanks hliteral.ne_nil hblank hfurther,
    Option.bind_some]
  exact wordValue?_stripHexMark_iff.mpr hliteral

/-- No address leads a line of blanks. -/
theorem leadingAddress?_eq_none_of_blank {text : List Char}
    (hblank : ∀ c ∈ text, isBlank c = true) : leadingAddress? text = none := by
  have htrim : trimStart text = [] := List.dropWhile_eq_nil_iff.mpr hblank
  rw [leadingAddress?, firstColumn?, htrim]
  rfl

/-- A line with the section of an entry behind its indentation names that section. -/
theorem isSection_sectionName {e : MapEntry} (hsymbol : IsIdentifier e.symbol)
    {indent rest : List Char} (hindent : IsGap indent)
    (hrest : ∀ c ∈ rest.head?, isBlank c = true) :
    IsSection (indent ++ e.sectionName ++ rest) e.place e.symbol.toList rest := by
  constructor
  case indented =>
    obtain ⟨c, indent, rfl⟩ := List.exists_cons_of_ne_nil hindent.1
    exact ⟨c, rfl, hindent.2 c (by simp)⟩
  case text =>
    rw [trimStart, List.append_assoc, List.dropWhile_append_of_pos hindent.2, sectionName]
    cases e.place <;> rfl
  case symbol_ne_nil =>
    simpa using hsymbol.1
  case symbol_chars =>
    intro c hc
    exact isSymbolChar_iff.mpr (hsymbol.2 c hc)
  case rest_head =>
    intro c hc
    by_contra hsymbolChar
    have hblank := isBlank_eq_false_of_isSymbolChar (Bool.not_eq_false _ ▸ hsymbolChar)
    rw [hrest c hc] at hblank
    cases hblank

/-! ## Lines -/

section

variable {number : Nat} {lines : List (List Char)} {entries : List MapEntry}

/-- A line that names no section is passed over. -/
theorem ofLines_cons_other {line : List Char}
    (hline : ∀ place symbol rest, ¬ IsSection line place symbol rest) :
    ofLines none number (line :: lines) = ofLines none (number + 1) lines := by
  rw [ofLines_none_cons, sectionLine?_eq_none_iff.mpr hline]

/-- The lines that lay out entries are read as these entries, whatever their numbers are. -/
theorem LaysOut.ofLines_eq (h : LaysOut lines entries) :
    ofLines none number lines = .ok entries := by
  induction h generalizing number with
  | nil => rfl
  | other hline _ ih => rw [ofLines_cons_other hline, ih]
  | @oneLine e indent gap text lines entries hsymbol hindent hgap htext _ ih =>
    have hhead : ∀ c ∈ (gap ++ text).head?, isBlank c = true := by
      obtain ⟨c, gap, rfl⟩ := List.exists_cons_of_ne_nil hgap.1
      simpa using hgap.2 c (by simp)
    have hsection := sectionLine?_eq_some_iff.mpr (isSection_sectionName hsymbol hindent hhead)
    rw [ofLines_none_cons, hsection]
    simp only [htext.leadingAddress?_eq hgap.2, ih, Except.map, String.ofList_toList]
  | @twoLines e indent trailing blanks text lines entries hsymbol hindent htrailing hblanks htext _
      ih =>
    have hhead : ∀ c ∈ trailing.head?, isBlank c = true :=
      fun c hc => htrailing c (List.mem_of_mem_head? hc)
    have hsection := sectionLine?_eq_some_iff.mpr (isSection_sectionName hsymbol hindent hhead)
    have hload := htext.leadingAddress?_eq hblanks
    -- The line of the address is read for itself as well, which gives nothing.
    have hother := not_isSection_of_leadingAddress? hload
    rw [ofLines_none_cons, hsection]
    simp only [leadingAddress?_eq_none_of_blank htrailing, ofLines_some_cons, hload,
      ofLines_cons_other hother, ih, Except.map, String.ofList_toList]

end

/-! ## Texts -/

/-- A line break cuts a line off. -/
theorem lines_append_break {line : List Char} (hline : '\n' ∉ line) (rest : List Char) :
    lines (line ++ '\n' :: rest) = line :: lines rest := by
  induction line with
  | nil => rfl
  | cons c line ih =>
    obtain ⟨hc, hbreak⟩ : '\n' ≠ c ∧ '\n' ∉ line := by simpa using hline
    rw [List.cons_append, lines, ih hbreak]
    exact Ne.symm hc

/-- A text without line breaks is one line, or none if it is empty. -/
theorem lines_of_notMem {line : List Char} (hline : '\n' ∉ line) :
    lines line = if line = [] then [] else [line] := by
  induction line with
  | nil => rfl
  | cons c line ih =>
    obtain ⟨hc, hbreak⟩ : '\n' ≠ c ∧ '\n' ∉ line := by simpa using hline
    rw [lines, ih hbreak]
    · by_cases hnil : line = [] <;> simp [hnil]
    · exact Ne.symm hc

/-- Joining lines by line breaks and cutting the text gives them back, less an empty last line. -/
theorem lines_intercalate {ls : List (List Char)} (hbreak : ∀ line ∈ ls, '\n' ∉ line) :
    lines (['\n'].intercalate ls) = if ls.getLast? = some [] then ls.dropLast else ls := by
  induction ls with
  | nil => rfl
  | cons line ls ih =>
    have hline : '\n' ∉ line := hbreak line (by simp)
    cases ls with
    | nil =>
      rw [List.intercalate_singleton, lines_of_notMem hline]
      by_cases hnil : line = [] <;> simp [hnil]
    | cons next ls =>
      have hrest := ih fun l hl => hbreak l (List.mem_cons_of_mem _ hl)
      rw [List.intercalate_cons_cons, List.append_assoc, List.singleton_append,
        lines_append_break hline, hrest, List.getLast?_cons_cons, List.dropLast_cons_cons]
      split <;> rfl

/-- An empty last line lays out no entry. -/
theorem LaysOut.dropLast {lines : List (List Char)} {entries : List MapEntry}
    (h : LaysOut lines entries) (hlast : lines.getLast? = some []) :
    LaysOut lines.dropLast entries := by
  have hnonempty : ∀ {load text blanks}, ShowsAddress text load → blanks ++ text ≠ [] := by
    rintro load text blanks ⟨literal, further, rfl, hliteral, -⟩ hnil
    simp [hliteral.ne_nil] at hnil
  induction h with
  | nil => cases hlast
  | @other line lines entries hline hlines ih =>
    cases lines with
    | nil => cases hlines; exact .nil
    | cons next lines => exact .other hline (ih hlast)
  | @oneLine e indent gap text lines entries hsymbol hindent hgap htext hlines ih =>
    cases lines with
    | nil =>
      simp [hindent.1] at hlast
    | cons next lines => exact .oneLine hsymbol hindent hgap htext (ih hlast)
  | @twoLines e indent trailing blanks text lines entries hsymbol hindent htrailing hblanks htext
      hlines ih =>
    cases lines with
    | nil => exact absurd (Option.some.inj hlast) (hnonempty htext)
    | cons next lines =>
      exact .twoLines hsymbol hindent htrailing hblanks htext (ih hlast)

/-- Reading a map gives back the entries that it lays out. The header of the memory map stands in
front of them, on the first line that has it; neither an empty last line nor a line break at the end
of the last one makes a difference. -/
theorem ofText_of_laysOut {before lines : List (List Char)} {opening : List Char}
    {entries : List MapEntry} (hbefore : ∀ line ∈ before, ¬ header.toList <:+: line)
    (hopening : header.toList <:+: opening) (hlines : LaysOut lines entries)
    (hbreak : ∀ line ∈ before ++ opening :: lines, '\n' ∉ line) :
    ofText (String.ofList (['\n'].intercalate (before ++ opening :: lines))) = .ok entries := by
  obtain ⟨rest, hcut, hrest⟩ : ∃ rest,
      MapEntry.lines (['\n'].intercalate (before ++ opening :: lines)) = before ++ opening :: rest ∧
        LaysOut rest entries := by
    rw [lines_intercalate hbreak]
    split
    case isTrue hlast =>
      cases lines with
      | nil =>
        have hempty : opening = [] := by simpa using hlast
        rw [hempty] at hopening
        exact absurd (List.infix_nil.mp hopening) (by decide)
      | cons next lines =>
        have hlast' : (next :: lines).getLast? = some [] := by
          simpa [List.getLast?_append] using hlast
        exact ⟨(next :: lines).dropLast, by simp, hlines.dropLast hlast'⟩
    case isFalse => exact ⟨lines, rfl, hlines⟩
  have hmap : memoryMap? (String.ofList (['\n'].intercalate (before ++ opening :: lines))) =
      some rest := by
    rw [memoryMap?, String.toList_ofList, hcut,
      List.dropWhile_append_of_pos (by simpa using hbefore),
      List.dropWhile_cons_of_neg (by simpa using hopening)]
  rw [ofText_eq, hmap]
  exact hrest.ofLines_eq

/-- Two entries in the two layouts, the second at the last address of all, with lines that name no
section around them. -/
theorem ofText_of_update_and_store :
    let update : MapEntry := ⟨.text, "update", 0x200⟩
    let store : MapEntry := ⟨.bss, "store", 0xFFFFFFFFFFFFFFFF⟩
    let before := ["Memory Configuration".toList]
    let lines := [" .text 0x0 0x1a4".toList, " .text.update".toList, "\t0x00200 0x10 a.o".toList,
      " .bss.store 0xffffFFFFffffFFFF".toList, "".toList]
    (∀ line ∈ before, ¬ header.toList <:+: line) ∧ LaysOut lines [update, store] ∧
      (∀ line ∈ before ++ header.toList :: lines, '\n' ∉ line) ∧
      ofText (String.ofList (['\n'].intercalate (before ++ header.toList :: lines))) =
        .ok [update, store] := by
  intro update store before lines
  have hspace : IsGap [' '] := ⟨by decide, List.forall_mem_singleton.mpr rfl⟩
  have hend : LaysOut ["".toList] [] := .other (sectionLine?_eq_none_iff.mp (by decide)) .nil
  have hstore : LaysOut (([' '] ++ store.sectionName ++ ([' '] ++ "0xffffFFFFffffFFFF".toList)) ::
      ["".toList]) [store] :=
    .oneLine (isIdentifier_iff.mp (by decide)) hspace hspace
      ⟨"0xffffFFFFffffFFFF".toList, [], by decide, wordValue?_stripHexMark_iff.mp (by decide),
        by simp⟩ hend
  have hload : ShowsAddress ("0x00200".toList ++ ' ' :: "0x10 a.o".toList) update.loadAddress :=
    ⟨_, _, rfl, wordValue?_stripHexMark_iff.mp (by decide), by simp [isBlank]⟩
  have hupdate : LaysOut (([' '] ++ update.sectionName ++ []) ::
      (['\t'] ++ ("0x00200".toList ++ ' ' :: "0x10 a.o".toList)) :: _) [update, store] :=
    .twoLines (isIdentifier_iff.mp (by decide)) hspace (List.forall_mem_nil _)
      (List.forall_mem_singleton.mpr rfl) hload hstore
  have hshape : lines = " .text 0x0 0x1a4".toList :: ([' '] ++ update.sectionName ++ []) ::
      (['\t'] ++ ("0x00200".toList ++ ' ' :: "0x10 a.o".toList)) ::
      ([' '] ++ store.sectionName ++ ([' '] ++ "0xffffFFFFffffFFFF".toList)) :: ["".toList] := by
    decide
  have hlines : LaysOut lines [update, store] := by
    rw [hshape]
    exact .other (sectionLine?_eq_none_iff.mp (by decide)) hupdate
  have hbefore : ∀ line ∈ before, ¬ header.toList <:+: line := by decide
  have hbreak : ∀ line ∈ before ++ header.toList :: lines, '\n' ∉ line := by decide
  exact ⟨hbefore, hlines, hbreak, ofText_of_laysOut hbefore (List.infix_refl _) hlines hbreak⟩

end MapEntry

end FirmwareModel
