import FirmwareModel.Fault

/-!
# Settings files

A settings file has to hold usable settings.
-/

namespace FirmwareModel.Settings

/-- The settings that a file holds, given its octets if it exists. -/
def load (contents : Option (List UInt8)) : Except Fault Settings :=
  match Text.fileText? contents with
  | none => .error .unreadableFile
  | some text =>
    match ofText? text with
    | none => .error .undecodableSettings
    | some settings =>
      match settings.validate with
      | .error fault => .error (.settings fault)
      | .ok () => .ok settings

end FirmwareModel.Settings
