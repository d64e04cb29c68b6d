import Mathlib.Data.List.Infix
import FirmwareModel.Memory.Map
import FirmwareModel.Proofs.Outcome
import FirmwareModel.Proofs.Text.Qualified

/-!
# Reading a linker map line by line

The lines of a memory map are read with one section pending at most. What comes of a line depends on
that line and the one behind it only: the map has an entry for each line that names the section of a
symbol and has its load address in the next column, on the line itself or first on the line behind.
Reading fails when the last line of the map leaves an address open.
-/

namespace FirmwareModel

open FirmwareModel.Text

namespace MapEntry

/-! ## Lines that name sections -/

/-- The line names the section of a symbol: it is indented, and what stands there first is the stem
of the section, the symbol and some rest that does not go on with it. -/
structure IsSection (line : List Char) (place : MapSection) (symbol rest : List Char) : Prop where
  indented : ∃ c ∈ line.head?, isBlank c
  text : trimStart line = place.stem.toList ++ symbol ++ rest
  symbol_ne_nil : symbol ≠ []
  symbol_chars : ∀ c ∈ symbol, isSymbolChar c
  rest_head : ∀ c ∈ rest.head?, isSymbolChar c = false

/-- A line names a symbol of a section when it begins with the section and goes on with all
characters of the symbol. -/
theorem symbolIn?_eq_some_iff {line symbol rest : List Char} {kind place : MapSection} :
    symbolIn? line kind = some (place, symbol, rest) ↔
      place = kind ∧ line = kind.stem.toList ++ symbol ++ rest ∧ symbol ≠ [] ∧
        (∀ c ∈ symbol, isSymbolChar c) ∧ ∀ c ∈ rest.head?, isSymbolChar c = false := by
  simp only [symbolIn?, bind, Option.bind_eq_some_iff, stripStart?_eq_some_iff,
    Option.ite_none_left_eq_some, Option.some.injEq, Prod.mk.injEq, List.isEmpty_iff]
  rw [← exists_symbol_cut_iff]
  constructor
  · rintro ⟨text, hline, hne, rfl, hcut⟩
    exact ⟨rfl, text, hline, hne, hcut⟩
  · rintro ⟨rfl, text, hline, hne, hcut⟩
    exact ⟨text, hline, hne, rfl, hcut⟩

/-- No stem of a section begins with another. -/
theorem place_eq_of_stem_append {place other : MapSection} {s s' : List Char}
    (h : place.stem.toList ++ s = other.stem.toList ++ s') : place = other := by
  cases place <;> cases other <;> simp_all [MapSection.stem]

/-- A line is read as that of a section exactly when it names one. -/
theorem sectionLine?_eq_some_iff {line symbol rest : List Char} {place : MapSection} :
    sectionLine? line = some (place, symbol, rest) ↔ IsSection line place symbol rest := by
  have hfind : MapSection.all.findSome? (symbolIn? (trimStart line)) = some (place, symbol, rest) ↔
      symbolIn? (trimStart line) place = some (place, symbol, rest) := by
    constructor
    · intro h
      obtain ⟨kind, -, hkind⟩ := List.exists_of_findSome?_eq_some h
      obtain ⟨rfl, -⟩ := symbolIn?_eq_some_iff.mp hkind
      exact hkind
    · intro h
      cases hfound : MapSection.all.findSome? (symbolIn? (trimStart line)) with
      | none =>
        have hnone := List.findSome?_eq_none_iff.mp hfound place (by cases place <;> decide)
        rw [h] at hnone
        cases hnone
      | some found =>
        obtain ⟨place', symbol', rest'⟩ := found
        obtain ⟨kind, -, hkind⟩ := List.exists_of_findSome?_eq_some hfound
        obtain ⟨rfl, htext', -⟩ := symbolIn?_eq_some_iff.mp hkind
        obtain ⟨-, htext, -⟩ := symbolIn?_eq_some_iff.mp h
        rw [htext, List.append_assoc, List.append_assoc] at htext'
        obtain rfl := place_eq_of_stem_append htext'
        exact hkind.symm.trans h
  cases line with
  | nil =>
    constructor
    · intro h
      cases h
    · intro h
      obtain ⟨c, hc, -⟩ := h.indented
      cases hc
  | cons c line =>
    simp only [sectionLine?, Option.ite_none_right_eq_some, hfind, symbolIn?_eq_some_iff, true_and]
    constructor
    · rintro ⟨hblank, htext, hne, hsymbol, hrest⟩
      exact ⟨⟨c, rfl, hblank⟩, htext, hne, hsymbol, hrest⟩
    · rintro ⟨⟨c', hc', hblank⟩, htext, hne, hsymbol, hrest⟩
      obtain rfl : c = c' := Option.some.inj hc'
      exact ⟨hblank, htext, hne, hsymbol, hrest⟩

/-- A line is passed over when it begins with no section that has a symbol. -/
theorem sectionLine?_eq_none_iff {line : List Char} :
    sectionLine? line = none ↔ ∀ place symbol rest, ¬ IsSection line place symbol rest := by
  simp only [Option.eq_none_iff_forall_ne_some, Prod.forall, ne_eq, sectionLine?_eq_some_iff]

/-- A line has no load address in its first column when that begins with no symbol character. -/
theorem leadingAddress?_eq_none_of_trimStart {line text : List Char} {c : Char}
    (htext : trimStart line = c :: text) (hsymbol : isSymbolChar c = false) :
    leadingAddress? line = none := by
  have hblank : isBlank c = false := by
    have hhead := List.head?_dropWhile_not isBlank line
    rwa [show line.dropWhile isBlank = c :: text from htext] at hhead
  have hdigit : digitIn? 16 c = none := by
    have hnone : digitValue? c = none := by
      by_contra hsome
      rw [isSymbolChar_of_digitValue?_ne_none hsome] at hsymbol
      cases hsymbol
    simp [digitIn?, hnone]
  have hmark : ∀ column, stripHexMark (c :: column) = c :: column := by
    intro column
    have hzero : c ≠ '0' := by
      rintro rfl
      exact absurd hsymbol (by decide)
    simp [stripHexMark, hzero]
  simp [leadingAddress?, firstColumn?, htext, hblank, address?, hmark, wordValue?, numeralValue?,
    continueNumeral?, hdigit]

/-- A line that names a section has no load address in its first column, so it is never taken for
the address of the section before it. -/
theorem IsSection.leadingAddress?_eq_none {line symbol rest : List Char} {place : MapSection}
    (h : IsSection line place symbol rest) : leadingAddress? line = none := by
  obtain ⟨text, htext⟩ : ∃ text, trimStart line = '.' :: text := by
    rw [h.text]
    cases place <;> exact ⟨_, rfl⟩
  exact leadingAddress?_eq_none_of_trimStart htext (by decide)

/-- A line that an address leads names no section. -/
theorem not_isSection_of_leadingAddress? {line : List Char} {load : UInt64}
    (hload : leadingAddress? line = some load) :
    ∀ place symbol rest, ¬ IsSection line place symbol rest := by
  intro place symbol rest hsection
  rw [hsection.leadingAddress?_eq_none] at hload
  cases hload

/-! ## Windows of two lines -/

/-- The lines of a memory map, each with the one behind it if there is one. -/
def windows (lines : List (List Char)) : List (List Char × Option (List Char)) :=
  lines.zip ((lines.drop 1).map some ++ [none])

/-- The entry of a window: the section that its first line names, with the load address in the
column behind the symbol or else in the first column of the line behind. -/
def entryOfWindow? (window : List Char × Option (List Char)) : Option MapEntry :=
  (sectionLine? window.1).bind fun (place, symbol, rest) =>
    ((leadingAddress? rest).or (window.2.bind leadingAddress?)).map fun load =>
      ⟨place, String.ofList symbol, load⟩

/-- The last of the lines names the section of a symbol and leaves its load address open. -/
def EndsOpen (lines : List (List Char)) (symbol : String) : Prop :=
  ∃ last place chars rest, lines.getLast? = some last ∧ IsSection last place chars rest ∧
    leadingAddress? rest = none ∧ symbol = String.ofList chars

/-- Each line is looked at together with the next one. -/
theorem windows_cons (line : List Char) (lines : List (List Char)) :
    windows (line :: lines) = (line, lines.head?) :: windows lines := by
  cases lines <;> rfl

/-- The entries of a map are that of its first line, if there is one, and those of the lines after
it. -/
theorem filterMap_windows_cons (line : List Char) (lines : List (List Char)) :
    (windows (line :: lines)).filterMap entryOfWindow? =
      (entryOfWindow? (line, lines.head?)).toList ++ (windows lines).filterMap entryOfWindow? := by
  rw [windows_cons, List.filterMap_cons]
  cases entryOfWindow? (line, lines.head?) <;> rfl

/-- A line that names a section and its symbol makes an entry with the address behind them, or else
at the start of the next line. -/
theorem entryOfWindow?_eq_some_iff {line : List Char} {next : Option (List Char)} {e : MapEntry} :
    entryOfWindow? (line, next) = some e ↔
      ∃ symbol rest, IsSection line e.place symbol rest ∧ e.symbol = String.ofList symbol ∧
        (leadingAddress? rest).or (next.bind leadingAddress?) = some e.loadAddress := by
  simp only [entryOfWindow?, Option.bind_eq_some_iff, Option.map_eq_some_iff, Prod.exists,
    sectionLine?_eq_some_iff]
  constructor
  · rintro ⟨place, symbol, rest, hsection, load, hload, rfl⟩
    exact ⟨symbol, rest, hsection, rfl, hload⟩
  · rintro ⟨symbol, rest, hsection, hsymbol, hload⟩
    refine ⟨e.place, symbol, rest, hsection, e.loadAddress, hload, ?_⟩
    rw [← hsymbol]

/-! ## One line -/

section

variable {number : Nat} {line : List Char} {lines : List (List Char)}

/-- How a line is read when no section is pending. -/
theorem ofLines_none_cons :
    ofLines none number (line :: lines) =
      match sectionLine? line with
      | none => ofLines none (number + 1) lines
      | some (place, symbol, rest) =>
        match leadingAddress? rest with
        | some load =>
          (ofLines none (number + 1) lines).map (⟨place, String.ofList symbol, load⟩ :: ·)
        | none => ofLines (some ⟨number, place, String.ofList symbol⟩) (number + 1) lines := rfl

/-- A pending section gets the address that leads the next line, if there is one. The line is then
read as if nothing had been pending. -/
theorem ofLines_some_cons (a : Awaiting) :
    ofLines (some a) number (line :: lines) =
      match leadingAddress? line with
      | none => ofLines none number (line :: lines)
      | some load =>
        (ofLines none number (line :: lines)).map (⟨a.place, a.symbol, load⟩ :: ·) := by
  cases hload : leadingAddress? line with
  | none => simp only [ofLines, hload]
  | some load =>
    -- Reading the line by itself gives nothing.
    have hsection := sectionLine?_eq_none_iff.mpr (not_isSection_of_leadingAddress? hload)
    simp only [ofLines, hload, hsection]

/-- The last line makes reading fail when it leaves an address open. -/
theorem ofLines_singleton_of_open {place : MapSection} {symbol rest : List Char}
    (hsection : sectionLine? line = some (place, symbol, rest))
    (hopen : leadingAddress? rest = none) :
    ofLines none number [line] = .error (.endsBeforeAddress number (String.ofList symbol)) := by
  simp only [ofLines, hsection, hopen]

/-- A line that is not the last one, or leaves no address open, gives the entry of its window. -/
theorem ofLines_cons_of_closed
    (hclosed : lines = [] → ∀ place symbol rest, sectionLine? line = some (place, symbol, rest) →
      leadingAddress? rest ≠ none) :
    ofLines none number (line :: lines) =
      (ofLines none (number + 1) lines).map ((entryOfWindow? (line, lines.head?)).toList ++ ·) := by
  have hid : ∀ x : Except ArtifactFault (List MapEntry), x = x.map ([] ++ ·) := by
    intro x
    cases x <;> rfl
  rw [ofLines_none_cons]
  cases hsection : sectionLine? line with
  | none =>
    have hwindow : entryOfWindow? (line, lines.head?) = none := by simp [entryOfWindow?, hsection]
    rw [hwindow]
    exact hid _
  | some found =>
    obtain ⟨place, symbol, rest⟩ := found
    have hwindow : entryOfWindow? (line, lines.head?) =
        ((leadingAddress? rest).or (lines.head?.bind leadingAddress?)).map fun load =>
          ⟨place, String.ofList symbol, load⟩ := by
      simp [entryOfWindow?, hsection]
    rw [hwindow]
    cases hload : leadingAddress? rest with
    | some load =>
      simp only [hload]
      rfl
    | none =>
      -- The section is open, so the next line decides; it is read for itself all the same.
      cases lines with
      | nil => exact absurd hload (hclosed rfl place symbol rest hsection)
      | cons next lines =>
        simp only [hload, ofLines_some_cons, Option.none_or, List.head?_cons, Option.bind_some]
        cases leadingAddress? next with
        | none => exact hid _
        | some load => rfl

end

/-! ## All lines -/

/-- The lines of a memory map are read window by window, unless the last one leaves an address
open. -/
theorem ofLines_eq (number : Nat) (lines : List (List Char)) :
    (∀ symbol, EndsOpen lines symbol →
      ofLines none number lines = .error (.endsBeforeAddress (number + lines.length - 1) symbol)) ∧
    ((∀ symbol, ¬ EndsOpen lines symbol) →
      ofLines none number lines = .ok ((windows lines).filterMap entryOfWindow?)) := by
  induction lines generalizing number with
  | nil =>
    refine ⟨?_, fun _ => rfl⟩
    rintro symbol ⟨last, _, _, _, hlast, -⟩
    cases hlast
  | cons line lines ih =>
    obtain ⟨ihOpen, ihClosed⟩ := ih (number + 1)
    cases lines with
    | nil =>
      constructor
      · rintro symbol ⟨last, place, chars, rest, hlast, hsection, hopen, rfl⟩
        obtain rfl : line = last := Option.some.inj hlast
        exact ofLines_singleton_of_open (sectionLine?_eq_some_iff.mpr hsection) hopen
      · intro hclosed
        rw [ofLines_cons_of_closed, filterMap_windows_cons]
        · rfl
        · intro _ place symbol rest hsection hopen
          exact hclosed _ ⟨line, place, symbol, rest, rfl, sectionLine?_eq_some_iff.mp hsection,
            hopen, rfl⟩
    | cons next lines =>
      -- A line that another one follows cannot leave the map open, whatever it is.
      have hends : ∀ symbol, EndsOpen (line :: next :: lines) symbol ↔
          EndsOpen (next :: lines) symbol := by
        intro symbol
        simp only [EndsOpen, List.getLast?_cons_cons]
      rw [ofLines_cons_of_closed fun hnil => absurd hnil (by simp)]
      constructor
      · intro symbol hopen
        rw [ihOpen symbol ((hends symbol).mp hopen)]
        simp only [Except.map, List.length_cons]
        congr 2
        omega
      · intro hclosed
        rw [ihClosed fun symbol hopen => hclosed symbol ((hends symbol).mpr hopen),
          filterMap_windows_cons line]
        rfl

/-! ## Whole maps -/

/-- The lines of a text behind the first one that contains the header of the memory map, if there
is such a line. -/
def memoryMap? (text : String) : Option (List (List Char)) :=
  match (lines text.toList).dropWhile fun line => ¬ header.toList <:+: line with
  | [] => none
  | _ :: rest => some rest

/-- The lines behind the header are found with the number of the first of them, so that the last one
has the number of all lines. -/
theorem behindHeader?_eq (number : Nat) (lines : List (List Char)) :
    behindHeader? number lines =
      match lines.dropWhile fun line => ¬ header.toList <:+: line with
      | [] => none
      | _ :: rest => some (number + lines.length - rest.length, rest) := by
  induction lines generalizing number with
  | nil => rfl
  | cons line lines ih =>
    rw [behindHeader?, List.dropWhile_cons]
    by_cases hheader : header.toList <:+: line
    · rw [if_pos (cutBefore?_isSome_iff.mpr hheader)]
      simp [hheader]
      omega
    · rw [if_neg (fun h => hheader (cutBefore?_isSome_iff.mp h)), ih]
      simp only [hheader, not_false_eq_true, decide_true, if_true, List.length_cons]
      split
      · rfl
      · congr 2
        omega

/-- When the lines are closed at their end, no error tells of an open one. -/
theorem ofLines_eq_endsBeforeAddress_iff {number line : Nat} {lines : List (List Char)}
    {symbol : String} :
    ofLines none number lines = .error (.endsBeforeAddress line symbol) ↔
      line = number + lines.length - 1 ∧ EndsOpen lines symbol := by
  obtain ⟨hopen, hclosed⟩ := ofLines_eq number lines
  constructor
  · intro herror
    by_cases hends : ∃ other, EndsOpen lines other
    · obtain ⟨other, hother⟩ := hends
      rw [hopen other hother] at herror
      obtain ⟨rfl, rfl⟩ : number + lines.length - 1 = line ∧ other = symbol := by
        simpa using herror
      exact ⟨rfl, hother⟩
    · rw [hclosed (not_exists.mp hends)] at herror
      cases herror
  · rintro ⟨rfl, hends⟩
    exact hopen symbol hends

/-- A text is read by the lines of its memory map, the last of which has the number of all lines. -/
theorem ofText_eq (text : String) : ofText text =
    match memoryMap? text with
    | none => .error .noMemoryMap
    | some rest => ofLines none (1 + (lines text.toList).length - rest.length) rest := by
  rw [ofText, behindHeader?_eq, memoryMap?]
  cases (lines text.toList).dropWhile fun line => decide (¬ header.toList <:+: line) <;> rfl

/-- What is read without failing is read window by window. -/
theorem eq_windows_of_ofText {text : String} {entries : List MapEntry}
    (hread : ofText text = .ok entries) :
    ∃ rest, memoryMap? text = some rest ∧ entries = (windows rest).filterMap entryOfWindow? := by
  rw [ofText_eq] at hread
  cases hmap : memoryMap? text with
  | none =>
    rw [hmap] at hread
    cases hread
  | some rest =>
    rw [hmap] at hread
    obtain ⟨hopen, hclosed⟩ := ofLines_eq (1 + (lines text.toList).length - rest.length) rest
    refine ⟨rest, rfl, ?_⟩
    by_cases hends : ∃ symbol, EndsOpen rest symbol
    · obtain ⟨symbol, hsymbol⟩ := hends
      simp [hopen symbol hsymbol] at hread
    · simpa [hclosed (not_exists.mp hends)] using hread.symm

/-- A linker map is read by windows of two lines. Without the header there is no memory map. Behind
the header, each line that names the section of a symbol gives an entry if its load address is in
the next column, on the line itself or else first on the line behind, and no other line gives any;
only a map whose last line leaves an address open is malformed, at that line. A line that names a
section is never the address of another. -/
theorem ofText_eq_windows (text : String) :
    (memoryMap? text = none ↔ ofText text = .error .noMemoryMap) ∧
    (∀ rest, memoryMap? text = some rest →
      (∀ number symbol, ofText text = .error (.endsBeforeAddress number symbol) ↔
        number = (lines text.toList).length ∧ EndsOpen rest symbol) ∧
      ((∀ symbol, ¬ EndsOpen rest symbol) →
        ofText text = .ok ((windows rest).filterMap entryOfWindow?))) ∧
    (∀ line next e, entryOfWindow? (line, next) = some e ↔
      ∃ symbol tail, IsSection line e.place symbol tail ∧ e.symbol = String.ofList symbol ∧
        (leadingAddress? tail).or (next.bind leadingAddress?) = some e.loadAddress) ∧
    (∀ line place symbol tail, IsSection line place symbol tail → leadingAddress? line = none) := by
  have hread := ofText_eq text
  refine ⟨?_, ?_, fun line next e => entryOfWindow?_eq_some_iff,
    fun line place symbol tail h => h.leadingAddress?_eq_none⟩
  · cases hmap : memoryMap? text with
    | none => simp [hread, hmap]
    | some rest =>
      obtain ⟨hopen, hclosed⟩ :=
        ofLines_eq (1 + (lines text.toList).length - rest.length) rest
      simp only [hread, hmap, reduceCtorEq, false_iff]
      by_cases hends : ∃ symbol, EndsOpen rest symbol
      · obtain ⟨symbol, hsymbol⟩ := hends
        simp [hopen symbol hsymbol]
      · simp [hclosed (not_exists.mp hends)]
  · intro rest hmap
    have hlength : rest.length < (lines text.toList).length := by
      have hsuffix := List.dropWhile_suffix (l := lines text.toList)
        fun line => decide (¬ header.toList <:+: line)
      unfold memoryMap? at hmap
      split at hmap
      · cases hmap
      case h_2 hdrop =>
        obtain rfl := Option.some.inj hmap
        rw [hdrop] at hsuffix
        exact hsuffix.length_le
    rw [hread, hmap]
    refine ⟨fun number symbol => ?_, (ofLines_eq _ rest).2⟩
    rw [ofLines_eq_endsBeforeAddress_iff]
    have hnumber : 1 + (lines text.toList).length - rest.length + rest.length - 1 =
        (lines text.toList).length := by omega
    rw [hnumber]

/-- The section of `a` has no address and is dropped; those of `b` and `c` have theirs in the two
layouts. -/
example : ofText ("Linker script and memory map\n .text.a\n .text.b 0x10 x.o\n .bss.c\n" ++
    "   0x20 0x4 x.o\n") = .ok [⟨.text, "b", 0x10⟩, ⟨.bss, "c", 0x20⟩] := by
  rfl

end MapEntry

end FirmwareModel
