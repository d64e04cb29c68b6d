/-!
# Qualified names and their segments

A qualified name such as `LEDControl::Effects` is cut at each `::`, from left to right and without
overlap, into at least one segment. Joining the segments gives the name back.
-/

namespace FirmwareModel.Text

/-- The text left after `start`, when the text begins with it. -/
def stripStart? : List Char → List Char → Option (List Char)
  | [], s => some s
  | _ :: _, [] => none
  | p :: start, c :: s => if p = c then stripStart? start s else none

/-- The text from just before the first occurrence of `wanted` on, split there. -/
def cutBefore? (wanted : List Char) : List Char → Option (List Char × List Char)
  | [] => if wanted.isEmpty then some ([], []) else none
  | c :: s =>
    if (stripStart? wanted (c :: s)).isSome then some ([], c :: s)
    else (cutBefore? wanted s).map fun (before, rest) => (c :: before, rest)

/-- The segments of a qualified name. -/
def splitSegments : List Char → List (List Char)
  | [] => [[]]
  | ':' :: ':' :: rest => [] :: splitSegments rest
  | c :: rest =>
    match splitSegments rest with
    | [] => [[c]]
    | segment :: others => (c :: segment) :: others

/-- The qualified name with the given segments. -/
def joinSegments : List (List Char) → List Char
  | [] => []
  | [segment] => segment
  | segment :: other :: others => segment ++ ':' :: ':' :: joinSegments (other :: others)

/-- The segments of a qualified name, as strings. -/
def segments (name : String) : List String :=
  (splitSegments name.toList).map String.ofList

/-- The qualified name with the given segments, as a string. -/
def qualified (parts : List String) : String :=
  String.ofList (joinSegments (parts.map String.toList))

/-- Characters of a symbol as the linker and the object file spell it: ASCII letters, digits and
the underscore. -/
def isSymbolChar (c : Char) : Bool :=
  ('a' ≤ c && c ≤ 'z') || ('A' ≤ c && c ≤ 'Z') || ('0' ≤ c && c ≤ '9') || c == '_'

/-- Whether a name is non-empty and made of symbol characters. -/
def isIdentifier (name : String) : Bool :=
  !name.toList.isEmpty && name.toList.all isSymbolChar

/-- Behind a start, the rest of the text is left. -/
theorem stripStart?_append (start s : List Char) : stripStart? start (start ++ s) = some s := by
  induction start with
  | nil => cases s <;> rfl
  | cons p start ih => simp [stripStart?, ih]

/-- Stripping succeeds exactly on the texts that begin with `start`. -/
theorem stripStart?_eq_some_iff {start s rest : List Char} :
    stripStart? start s = some rest ↔ s = start ++ rest := by
  induction start generalizing s with
  | nil => cases s <;> simp [stripStart?, eq_comm]
  | cons p start ih =>
    cases s with
    | nil => simp [stripStart?]
    | cons c s =>
      by_cases hpc : p = c
      · simp [stripStart?, hpc, ih]
      · simp [stripStart?, hpc, Ne.symm hpc]

/-- A name has at least one segment. -/
theorem splitSegments_ne_nil (s : List Char) : splitSegments s ≠ [] := by
  fun_induction splitSegments s <;> simp_all

/-- Joining the segments of a name gives the name back. -/
theorem joinSegments_splitSegments (s : List Char) : joinSegments (splitSegments s) = s := by
  fun_induction splitSegments s with
  | case1 => rfl
  | case2 rest ih =>
    cases hparts : splitSegments rest with
    | nil => exact absurd hparts (splitSegments_ne_nil rest)
    | cons segment others =>
      rw [hparts] at ih
      simp [joinSegments, ih]
  | case3 c rest _ hparts _ => exact absurd hparts (splitSegments_ne_nil rest)
  | case4 c rest _ segment others hparts ih =>
    rw [hparts] at ih
    cases others with
    | nil => simpa [joinSegments] using ih
    | cons other others => simpa [joinSegments] using ih

end FirmwareModel.Text
