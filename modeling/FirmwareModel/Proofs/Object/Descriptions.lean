import FirmwareModel.Object.Literal
import FirmwareModel.Proofs.Text.Utf8

/-!
# Decoding descriptions

A description is decoded character by character, so corrupt octets on either side of a well-formed
text leave it as it is. One zero byte at the end is the terminator, and all others are characters of
the text.
-/

namespace FirmwareModel

open FirmwareModel.Text

namespace Text

/-- What does not begin with a continuation is read on its own. -/
theorem lenientText_append {tail : List UInt8} (htail : ∀ b ∈ tail.head?, ¬ IsContinuation b)
    (bytes : List UInt8) : lenientText (bytes ++ tail) = lenientText bytes ++ lenientText tail := by
  rw [lenientText, units_append htail, List.map_append, String.ofList_append]
  rfl

/-- A text in front of other octets is read as it is. -/
theorem lenientText_octets_append (s : String) (rest : List UInt8) :
    lenientText (octets s ++ rest) = s ++ lenientText rest := by
  rw [lenientText, units_octets_append, List.map_append, String.ofList_append, List.map_map]
  simp [Function.comp_def, lenientText]

end Text

namespace Literal

/-- One zero byte at the end is not part of the text. -/
theorem decodeDescription_concat_zero (bytes : List UInt8) :
    decodeDescription (bytes ++ [0]) = lenientText bytes := by
  simp [decodeDescription, stripTerminator]

/-- Without a zero byte at the end, all bytes are part of the text. -/
theorem decodeDescription_of_getLast?_ne {bytes : List UInt8} (h : bytes.getLast? ≠ some 0) :
    decodeDescription bytes = lenientText bytes := by
  rw [decodeDescription, stripTerminator, if_neg h]

/-- A text that is not empty is kept whole among any other bytes, which are decoded as if it were
not there. A terminated text is decoded as itself, with all its zero bytes but the last, and a
terminator that is missing makes no difference. -/
theorem decodeDescription_keeps_text :
    (∀ (before after : List UInt8) (s : String), s ≠ "" →
      decodeDescription (before ++ octets s ++ after ++ [0]) =
        decodeDescription (before ++ [0]) ++ s ++ decodeDescription (after ++ [0])) ∧
    decodeDescription [0] = "" ∧
    (∀ s, decodeDescription (octets s ++ [0]) = s) ∧
    ∀ bytes, bytes.getLast? ≠ some 0 →
      decodeDescription bytes = decodeDescription (bytes ++ [0]) := by
  refine ⟨fun before after s hs => ?_, ?_, fun s => ?_, fun bytes hbytes => ?_⟩
  · have hstart := not_isContinuation_head_octets hs after
    rw [decodeDescription_concat_zero, decodeDescription_concat_zero,
      decodeDescription_concat_zero, List.append_assoc, lenientText_append hstart,
      lenientText_octets_append, String.append_assoc]
  · simpa [lenientText, units] using decodeDescription_concat_zero []
  · rw [decodeDescription_concat_zero]
    simpa [lenientText, units] using lenientText_octets_append s []
  · rw [decodeDescription_of_getLast?_ne hbytes, decodeDescription_concat_zero]

/-- Between a character that breaks off and a continuation with another such character behind it, a
text that ends in a zero byte is kept, with or without the terminator. -/
theorem decodeDescription_keeps_text_of_corrupt :
    let before : List UInt8 := [0xE2, 0x82]
    let after : List UInt8 := [0x82, 0xF0, 0x9F]
    let s := "\u00e9\x00"
    let decoded := "\uFFFD\u00e9\x00\uFFFD\uFFFD"
    s ≠ "" ∧ decodeDescription (before ++ octets s ++ after ++ [0]) = decoded ∧
      (before ++ octets s ++ after).getLast? ≠ some 0 ∧
      decodeDescription (before ++ octets s ++ after) = decoded := by
  intro before after s decoded
  have hs : s ≠ "" := by decide
  have hbefore : decodeDescription (before ++ [0]) = "\uFFFD" := by decide +kernel
  have hafter : decodeDescription (after ++ [0]) = "\uFFFD\uFFFD" := by decide +kernel
  have hkept : decodeDescription (before ++ octets s ++ after ++ [0]) = decoded := by
    rw [decodeDescription_keeps_text.1 before after s hs, hbefore, hafter]
    decide +kernel
  have hlast : (before ++ octets s ++ after).getLast? ≠ some 0 := by decide +kernel
  exact ⟨hs, hkept, hlast, (decodeDescription_keeps_text.2.2.2 _ hlast).trans hkept⟩

end Literal

end FirmwareModel
