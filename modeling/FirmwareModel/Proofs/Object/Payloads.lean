import FirmwareModel.Object.Snapshot
import FirmwareModel.Proofs.Outcome

/-!
# Bytes kept in a snapshot

Bytes are kept as hexadecimal text and are read when they are asked for. Asking for the literal of a
symbol reads the first section that the symbol has and no other, so only an ill-formed text there is
a fault, and a symbol without any section is none.
-/

namespace FirmwareModel

namespace Text

/-- A text that spells bytes: pairs of hexadecimal digits. -/
def IsHex (s : String) : Prop :=
  (octets s).length % 2 = 0 ∧
    ∀ octet ∈ octets s, (digitIn? 16 (Char.ofNat octet.toNat)).isSome

/-- An octet is taken for a digit when it is the code of a hexadecimal one, wherever it stands. -/
theorem exists_octetDigit_iff {octet : UInt8} (position : Nat) :
    (∃ digit, octetDigit octet position = .ok digit) ↔
      (digitIn? 16 (Char.ofNat octet.toNat)).isSome := by
  unfold octetDigit
  cases digitIn? 16 (Char.ofNat octet.toNat) <;> simp

/-- Pairs of octets are read exactly when all of them are digits. -/
theorem exists_bytesOfDigits_iff {position : Nat} {digits : List UInt8}
    (heven : digits.length % 2 = 0) :
    (∃ bytes, bytesOfDigits position digits = .ok bytes) ↔
      ∀ octet ∈ digits, (digitIn? 16 (Char.ofNat octet.toNat)).isSome := by
  induction position, digits using bytesOfDigits.induct with
  | case1 position high low rest ih =>
    have hrest : rest.length % 2 = 0 := by
      rw [List.length_cons, List.length_cons] at heven
      omega
    rw [List.forall_mem_cons, List.forall_mem_cons, ← ih hrest,
      ← exists_octetDigit_iff position,
      ← exists_octetDigit_iff (position + 1)]
    simp only [bytesOfDigits, bind_eq_ok_iff]
    constructor
    · rintro ⟨_, h, hh, l, hl, bytes, hbytes, -⟩
      exact ⟨⟨h, hh⟩, ⟨l, hl⟩, bytes, hbytes⟩
    · rintro ⟨⟨h, hh⟩, ⟨l, hl⟩, bytes, hbytes⟩
      exact ⟨_, h, hh, l, hl, bytes, hbytes, rfl⟩
  | case2 digits position hpair =>
    match digits with
    | [] => simp [bytesOfDigits]
    | [digit] => simp at heven
    | high :: low :: rest => exact (hpair high low rest rfl).elim

/-- A text is read as bytes exactly when it spells bytes. -/
theorem exists_bytesOfHex_iff {s : String} : (∃ bytes, bytesOfHex s = .ok bytes) ↔ IsHex s := by
  unfold bytesOfHex IsHex
  split
  case isTrue hodd => simp [hodd]
  case isFalse hodd =>
    have heven : (octets s).length % 2 = 0 := by omega
    simp [heven, exists_bytesOfDigits_iff heven]

end Text

open FirmwareModel.Text

namespace Snapshot

variable {s : Snapshot} {symbol name hex : String} {kinds : List SectionKind}

/-- Reading bytes kept under a name fails exactly when their text spells none, and the fault tells
the name. -/
theorem failsBy_decodeHex (name hex : String) : FailsBy (decodeHex name hex)
    [fun fault => ¬ IsHex hex ∧ ∃ why, fault = .invalidHex name why] := by
  refine .single (fun fault hfault => ?_) ?_
  · obtain ⟨why, hwhy, rfl⟩ := mapError_eq_error_iff.mp hfault
    refine ⟨fun hhex => ?_, why, rfl⟩
    obtain ⟨bytes, hbytes⟩ := exists_bytesOfHex_iff.mpr hhex
    cases hwhy.symm.trans hbytes
  · rintro _ ⟨hhex, -⟩
    cases hbytes : bytesOfHex hex with
    | ok bytes => exact absurd (exists_bytesOfHex_iff.mp ⟨bytes, hbytes⟩) hhex
    | error why => exact ⟨.invalidHex name why, by simp [decodeHex, hbytes, Except.mapError]⟩

/-- The text of the first section that a symbol has, searching the kinds in order. -/
def firstSection? (s : Snapshot) (symbol : String) (kinds : List SectionKind) :
    Option (SectionKind × String) :=
  kinds.findSome? fun kind => ((s.sections.table kind).find? symbol).map fun hex => (kind, hex)

/-- What is found for a symbol is read from its first section. -/
theorem findPayload_eq (s : Snapshot) (symbol : String) (kinds : List SectionKind) :
    s.findPayload symbol kinds =
      match s.firstSection? symbol kinds with
      | none => .ok none
      | some (kind, hex) =>
        (decodeHex (kind.sectionName symbol) hex).map fun bytes => some (kind, bytes) := by
  induction kinds with
  | nil => rfl
  | cons kind kinds ih =>
    rw [findPayload, firstSection?, List.findSome?_cons, ← firstSection?, ih, sectionBytes]
    cases hfind : (s.sections.table kind).find? symbol with
    | none => rfl
    | some hex =>
      cases hbytes : decodeHex (kind.sectionName symbol) hex with
      | error fault => simp [hbytes, Except.map, bind, Except.bind]
      | ok bytes => simp [hbytes, Except.map, bind, Except.bind, pure, Except.pure]

end Snapshot

end FirmwareModel
