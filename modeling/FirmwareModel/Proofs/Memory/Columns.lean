import FirmwareModel.Proofs.Memory.Windows

/-!
# Columns that name sections

The name of a section stands in the first column of its line. An entry of a linker map has what
follows the stem there, up to the first character that is none of a symbol. So it has the whole name
of the section exactly when nothing else stands in the column; what else stands there is no address,
so the address of such a section leads the line behind.
-/

namespace FirmwareModel

open FirmwareModel.Text

namespace MapEntry

/-- The name of a section has no blanks. -/
theorem isBlank_eq_false_of_mem_stem {place : MapSection} :
    ∀ c ∈ place.stem.toList, isBlank c = false := by
  have hstem : (place.stem.toList.all fun c => !isBlank c) = true := by
    cases place <;> rfl
  simpa using hstem

/-- The first column of a line that names a section goes on behind the symbol up to the next
blank. -/
theorem IsSection.firstColumn?_eq {line symbol rest : List Char} {place : MapSection}
    (h : IsSection line place symbol rest) :
    firstColumn? line =
      some (place.stem.toList ++ symbol ++ rest.takeWhile fun c => !isBlank c) := by
  have hnonblank : ∀ c ∈ place.stem.toList ++ symbol, (!isBlank c) = true := by
    intro c hc
    rw [Bool.not_eq_true']
    rcases List.mem_append.mp hc with hstem | hsymbol
    · exact isBlank_eq_false_of_mem_stem c hstem
    · exact isBlank_eq_false_of_isSymbolChar (h.symbol_chars c hsymbol)
  rw [firstColumn?, h.text, List.takeWhile_append_of_pos hnonblank]
  split
  case h_1 hnil =>
    obtain ⟨hsymbol, -⟩ := List.append_eq_nil_iff.mp (List.append_eq_nil_iff.mp hnil).1
    cases place <;> cases hsymbol
  case h_2 => rfl

/-- What goes on with the column behind the symbol is no address. -/
theorem IsSection.leadingAddress?_rest_eq_none {line symbol rest : List Char} {place : MapSection}
    (h : IsSection line place symbol rest) (hrest : (rest.takeWhile fun c => !isBlank c) ≠ []) :
    leadingAddress? rest = none := by
  cases rest with
  | nil => exact absurd rfl hrest
  | cons c rest =>
    have hblank : isBlank c = false := by
      by_contra hblank
      simp [hblank] at hrest
    have htext : trimStart (c :: rest) = c :: rest := by
      simp [trimStart, hblank]
    exact leadingAddress?_eq_none_of_trimStart htext (h.rest_head c rfl)

/-- Every entry of a linker map comes from a line of its memory map in whose first column its symbol
stands behind the stem of its section. The symbol is a beginning of what stands there: `behind` is
the rest of the column and goes on with no symbol character, so the entry has the whole name of the
section exactly when `behind` is empty. Otherwise its address leads the line behind. -/
theorem ofText_reads_beginnings_of_columns {text : String} {entries : List MapEntry}
    (hread : ofText text = .ok entries) :
    ∀ e ∈ entries, IsIdentifier e.symbol ∧
      ∃ rest line next behind, memoryMap? text = some rest ∧ (line, next) ∈ windows rest ∧
        firstColumn? line = some (e.place.stem.toList ++ e.symbol.toList ++ behind) ∧
        (∀ c ∈ behind.head?, isSymbolChar c = false) ∧
        (behind ≠ [] → next.bind leadingAddress? = some e.loadAddress) := by
  obtain ⟨rest, hmap, rfl⟩ := eq_windows_of_ofText hread
  intro e he
  obtain ⟨⟨line, next⟩, hwindow, hentry⟩ := List.mem_filterMap.mp he
  obtain ⟨symbol, tail, hsection, hsymbol, hload⟩ := entryOfWindow?_eq_some_iff.mp hentry
  refine ⟨?_, rest, line, next, tail.takeWhile fun c => !isBlank c, hmap, hwindow, ?_, ?_, ?_⟩
  · rw [← isIdentifier_iff, isIdentifier, hsymbol]
    simpa [hsection.symbol_ne_nil] using hsection.symbol_chars
  · rw [hsection.firstColumn?_eq, hsymbol, String.toList_ofList]
  · intro c hc
    rw [List.head?_takeWhile, Option.mem_filter_iff] at hc
    exact hsection.rest_head c hc.1
  · intro hbehind
    rwa [hsection.leadingAddress?_rest_eq_none hbehind, Option.none_or] at hload

/-- In a map with the section of a symbol and that of a clone of it, the symbol `f` of the second
entry is a beginning only of the name in the column, so the address leads the line behind. -/
theorem ofText_reads_beginning_of_clone :
    let text := "Linker script and memory map\n .text.f 0x10 0x4 a.o\n .text.f.clone\n" ++
      "   0x20 0x4 a.o\n"
    let entries : List MapEntry := [⟨.text, "f", 0x10⟩, ⟨.text, "f", 0x20⟩]
    ofText text = .ok entries ∧
      ∀ e ∈ entries, ∃ rest line next behind, memoryMap? text = some rest ∧
        (line, next) ∈ windows rest ∧
        firstColumn? line = some (e.place.stem.toList ++ e.symbol.toList ++ behind) ∧
        (behind ≠ [] → next.bind leadingAddress? = some e.loadAddress) := by
  intro text entries
  have hread : ofText text = .ok entries := by decide +kernel
  refine ⟨hread, fun e he => ?_⟩
  obtain ⟨-, rest, line, next, behind, hmap, hwindow, hcolumn, -, hload⟩ :=
    ofText_reads_beginnings_of_columns hread e he
  exact ⟨rest, line, next, behind, hmap, hwindow, hcolumn, hload⟩

/-- Not every entry has the whole name of a section. The only section of this map is that of a
clone, and its address is recorded under the name of the symbol that was cloned. -/
theorem ofText_names_symbol_without_section :
    let text := "Linker script and memory map\n .text._ZN3Foo3barEv.constprop.0\n" ++
      "                0x0000000000000100       0x10 a.o\n"
    let e : MapEntry := ⟨.text, "_ZN3Foo3barEv", 0x100⟩
    ofText text = .ok [e] ∧
      ∀ line ∈ lines text.toList,
        firstColumn? line ≠ some (e.place.stem.toList ++ e.symbol.toList) := by
  decide +kernel

end MapEntry

end FirmwareModel
