import FirmwareModel.Text.Segments

/-!
# Module paths

A module is named by the segments on the way to it, none of which may be empty. The text of a path
determines its segments, so paths are compared by their texts.
-/

namespace FirmwareModel

open FirmwareModel.Text

/-- A module path such as `LEDControl::Effects`. -/
structure ModulePath where
  text : String
  segments_nonempty : "" ∉ segments text
  deriving DecidableEq

namespace ModulePath

instance : Repr ModulePath where
  reprPrec p n := reprPrec p.text n

/-- The path that a text spells. -/
def ofText? (text : String) : Option ModulePath :=
  if h : "" ∉ segments text then some ⟨text, h⟩ else none

/-- The segments of the path, the outermost first. -/
def segments (p : ModulePath) : List String :=
  Text.segments p.text

/-- The name of the module itself. -/
def name (p : ModulePath) : String :=
  p.segments.getLastD ""

/-- The length of the path in octets of UTF-8. -/
def length (p : ModulePath) : Nat :=
  p.text.utf8ByteSize

/-- A module path names at least one module. -/
theorem segments_ne_nil (p : ModulePath) : p.segments ≠ [] := by
  simp [segments, Text.segments, splitSegments_ne_nil]

/-- Module paths with the same text are the same. -/
theorem text_injective {p q : ModulePath} (h : p.text = q.text) : p = q := by
  cases p; cases q; cases h; rfl

/-- The text of a module path is read back as that path. -/
theorem ofText?_text (p : ModulePath) : ofText? p.text = some p := by
  simp [ofText?, p.segments_nonempty]

/-- A module path that has been read has the text that it was read from. -/
theorem text_of_ofText?_eq_some {text : String} {p : ModulePath} (h : ofText? text = some p) :
    p.text = text := by
  unfold ofText? at h
  split at h
  · cases h; rfl
  · cases h

/-- The segments of a path spell its text. -/
theorem qualified_segments (p : ModulePath) : qualified p.segments = p.text := by
  simp [qualified, segments, Text.segments, Function.comp_def, joinSegments_splitSegments]

end ModulePath

end FirmwareModel
