import FirmwareModel.Text.Hex

/-!
# Faults of build artifacts

What can be wrong with the captured answers about an object file or with a linker map.
-/

namespace FirmwareModel

/-- Why a build artifact cannot answer. -/
inductive ArtifactFault where
  | unreadableFile
  | undecodableSnapshot
  /-- The bytes kept under a name are no hexadecimal text. -/
  | invalidHex (name : String) (fault : Text.HexFault)
  /-- The unmangled spelling of a symbol is empty. -/
  | emptyDemangling (symbol : String)
  | noMemoryMap
  /-- The map ends on the line that should be followed by the load address of a symbol. -/
  | endsBeforeAddress (line : Nat) (symbol : String)
  deriving DecidableEq, Repr

/-- The words for a fault of a build artifact. -/
def ArtifactFault.message : ArtifactFault → String
  | unreadableFile => "IO error: the file cannot be read"
  | undecodableSnapshot => "Invalid snapshot: the text does not describe a snapshot"
  | invalidHex name fault => "Invalid hex payload for '" ++ name ++ "': " ++ fault.message
  | emptyDemangling symbol => "Demangler returned nothing for '" ++ symbol ++ "'"
  | noMemoryMap => "Linker map has no 'Linker script and memory map' section"
  | endsBeforeAddress line symbol =>
    "Malformed linker map at line " ++ Text.decimalText line ++
      ": map ends before the load address of '" ++ symbol ++ "'"

end FirmwareModel
