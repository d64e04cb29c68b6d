/-!
# Blank characters and the columns between them

Blank means the Unicode property `White_Space`: twenty-five code points, of which six are the
ASCII blanks. Texts are lists of characters here; `trim` takes the blanks off both ends, and the
columns of a line are its maximal runs of other characters.
-/

namespace FirmwareModel.Text

/-- The characters with the Unicode property `White_Space`. -/
def isBlank (c : Char) : Bool :=
  let n := c.toNat
  (9 ≤ n && n ≤ 13) || n == 0x20 || n == 0x85 || n == 0xA0 || n == 0x1680 ||
    (0x2000 ≤ n && n ≤ 0x200A) || n == 0x2028 || n == 0x2029 || n == 0x202F || n == 0x205F ||
    n == 0x3000

/-- The text without the blanks at its start. -/
def trimStart (s : List Char) : List Char :=
  s.dropWhile isBlank

/-- The text without the blanks at its end. -/
def trimEnd (s : List Char) : List Char :=
  (s.reverse.dropWhile isBlank).reverse

/-- The text without the blanks at either end. -/
def trim (s : List Char) : List Char :=
  trimEnd (trimStart s)

/-- The first maximal run of characters that are not blank. -/
def firstColumn? (s : List Char) : Option (List Char) :=
  match (trimStart s).takeWhile (fun c => !isBlank c) with
  | [] => none
  | column => some column

/-- The last maximal run of characters that are not blank. -/
def lastColumn? (s : List Char) : Option (List Char) :=
  (firstColumn? s.reverse).map List.reverse

/-- A column that only blanks stand in front of, and a blank or nothing behind, is the first. -/
theorem firstColumn?_append {before column after : List Char}
    (hbefore : ∀ c ∈ before, isBlank c = true) (hne : column ≠ [])
    (hcolumn : ∀ c ∈ column, isBlank c = false) (hafter : ∀ c ∈ after.head?, isBlank c = true) :
    firstColumn? (before ++ column ++ after) = some column := by
  have htrim : trimStart (before ++ column ++ after) = column ++ after := by
    rw [trimStart, List.append_assoc, List.dropWhile_append_of_pos hbefore]
    cases column with
    | nil => exact absurd rfl hne
    | cons c column => simp [hcolumn c (by simp)]
  have htake : (column ++ after).takeWhile (fun c => !isBlank c) = column := by
    rw [List.takeWhile_append_of_pos (by simpa using hcolumn)]
    cases after with
    | nil => simp
    | cons c after => simp [hafter c rfl]
  rw [firstColumn?, htrim, htake]
  cases column with
  | nil => exact absurd rfl hne
  | cons c column => rfl

/-- A column that a blank or nothing stands in front of, and only blanks behind, is the last. -/
theorem lastColumn?_append {before column after : List Char}
    (hbefore : ∀ c ∈ before.getLast?, isBlank c = true) (hne : column ≠ [])
    (hcolumn : ∀ c ∈ column, isBlank c = false) (hafter : ∀ c ∈ after, isBlank c = true) :
    lastColumn? (before ++ column ++ after) = some column := by
  have hreverse : (before ++ column ++ after).reverse =
      after.reverse ++ column.reverse ++ before.reverse := by simp
  rw [lastColumn?, hreverse, firstColumn?_append]
  · simp
  · simpa using hafter
  · simpa using hne
  · simpa using hcolumn
  · simpa using hbefore

end FirmwareModel.Text
