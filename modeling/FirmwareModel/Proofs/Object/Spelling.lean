import FirmwareModel.Object.Snapshot
import FirmwareModel.Tree.Entity

/-!
# Spellings of symbols

A snapshot gives every symbol one unmangled spelling, whatever asks for it. Asking only fails when
that spelling is empty.
-/

namespace FirmwareModel

namespace Snapshot

/-- The unmangled spelling that a snapshot gives to a symbol. -/
def unmangled (s : Snapshot) (symbol : String) : String :=
  (s.demangled.find? symbol).getD symbol

/-- A symbol in both spellings. -/
def spell (s : Snapshot) (symbol : String) : SymbolName :=
  ⟨symbol, s.unmangled symbol⟩

/-- The callable that a code symbol is, in the spelling of the snapshot. -/
def callable (s : Snapshot) (symbol : String) : Callable :=
  { symbol := s.spell symbol }

/-- A symbol is demangled to the spelling that the snapshot has for it, if that is not empty. -/
theorem demangle_eq_ok_iff {s : Snapshot} {symbol text : String} :
    s.demangle symbol = .ok text ↔ text = s.unmangled symbol ∧ text ≠ "" := by
  unfold demangle
  dsimp only
  split
  case isTrue hempty =>
    rw [← unmangled] at hempty
    simp only [reduceCtorEq, false_iff, not_and, Decidable.not_not]
    rintro rfl
    exact hempty
  case isFalse hempty =>
    rw [← unmangled] at hempty
    rw [← unmangled, Except.ok.injEq]
    exact ⟨fun h => ⟨h.symm, h ▸ hempty⟩, fun h => h.1.symm⟩

/-- A symbol cannot be demangled when the spelling that the snapshot has for it is empty. -/
theorem demangle_eq_error_iff {s : Snapshot} {symbol : String} {fault : ArtifactFault} :
    s.demangle symbol = .error fault ↔
      s.unmangled symbol = "" ∧ fault = .emptyDemangling symbol := by
  unfold demangle
  dsimp only
  rw [← unmangled]
  split
  case isTrue hempty => simp [hempty, eq_comm]
  case isFalse hempty => simp [hempty]

end Snapshot

/-- The symbol of a location, if it has one, is in the spelling of the snapshot. -/
def Storage.Spelled (snapshot : Snapshot) (s : Storage) : Prop :=
  ∀ symbol ∈ s.symbol, symbol = snapshot.spell symbol.mangled

end FirmwareModel
