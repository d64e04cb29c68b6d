import FirmwareModel.Settings.File
import FirmwareModel.Proofs.Json.Removal
import FirmwareModel.Proofs.Text.Utf8

/-!
# Settings files with members left out

A settings file need not hold all members. Each one that it leaves out, at any level, has its own
default, and whether the settings are usable is decided of what comes out. Since the defaults are
usable, leaving members out can repair settings but never spoils them.
-/

namespace FirmwareModel

open FirmwareModel.Json FirmwareModel.Record

/-! ## Defaults in place of members -/

/-- The target settings with the defaults in place of the removed members. -/
def TargetSettings.withDefaults (t : TargetSettings) (removed : List String → Bool) :
    TargetSettings :=
  let defaults : TargetSettings := {}
  { ramBase := if removed ["ram_base"] then defaults.ramBase else t.ramBase
    instructionUnit :=
      if removed ["instruction_unit"] then defaults.instructionUnit else t.instructionUnit
    typeTable := if removed ["type_table"] then defaults.typeTable else t.typeTable
    noopCallable := if removed ["noop_callable"] then defaults.noopCallable else t.noopCallable
    argumentBase :=
      if removed ["args_base_symbol"] then defaults.argumentBase else t.argumentBase }

/-- The markers with the defaults in place of the removed members. -/
def Markers.withDefaults (m : Markers) (removed : List String → Bool) : Markers :=
  let defaults : Markers := {}
  { namespaceText := if removed ["namespace"] then defaults.namespaceText else m.namespaceText
    module := if removed ["module"] then defaults.module else m.module
    info := if removed ["info"] then defaults.info else m.info
    inputs := if removed ["inputs"] then defaults.inputs else m.inputs
    procedure := if removed ["procedure"] then defaults.procedure else m.procedure
    arguments := if removed ["arguments"] then defaults.arguments else m.arguments }

/-- The settings of sections with the defaults in place of the removed members. -/
def SectionSettings.withDefaults (s : SectionSettings) (removed : List String → Bool) :
    SectionSettings :=
  let defaults : SectionSettings := {}
  { codeStems := if removed ["code_prefixes"] then defaults.codeStems else s.codeStems
    dataStems := if removed ["data_prefixes"] then defaults.dataStems else s.dataStems
    payloadPriority :=
      if removed ["payload_priority"] then defaults.payloadPriority else s.payloadPriority }

namespace Settings

/-- The settings with the defaults in place of the removed members. A section that is removed has
the defaults of all its members. -/
def withDefaults (s : Settings) (removed : List String → Bool) : Settings where
  target := if removed ["target"] then {} else s.target.withDefaults (below removed "target")
  markers := if removed ["markers"] then {} else s.markers.withDefaults (below removed "markers")
  sections :=
    if removed ["sections"] then {} else s.sections.withDefaults (below removed "sections")
  parallelPayloads := if removed ["parallel_payloads"] then false else s.parallelPayloads

/-- Where nothing is removed, no default is taken. -/
theorem withDefaults_nothing (s : Settings) : s.withDefaults (fun _ => false) = s := rfl

end Settings

/-! ## Usable settings -/

/-- The target settings have an instruction unit and a type. -/
structure TargetSettings.Usable (t : TargetSettings) : Prop where
  unit : t.instructionUnit ≠ 0
  types : t.typeTable ≠ []

/-- None of the markers is empty. -/
def Markers.Usable (m : Markers) : Prop :=
  ∀ marker ∈ m.tokens, marker.2 ≠ ""

/-- There is a kind of section to search for literals. -/
def SectionSettings.Usable (s : SectionSettings) : Prop :=
  s.payloadPriority ≠ []

/-- The default settings of the target are usable. -/
theorem TargetSettings.usable_default : ({} : TargetSettings).Usable :=
  ⟨by decide, by decide⟩

/-- The default markers are usable. -/
theorem Markers.usable_default : ({} : Markers).Usable := by
  unfold Usable
  decide

/-- The default settings of sections are usable. -/
theorem SectionSettings.usable_default : ({} : SectionSettings).Usable := by
  unfold Usable
  decide

/-- Usable settings of the target stay usable with any defaults among them. -/
theorem TargetSettings.Usable.withDefaults {t : TargetSettings} (h : t.Usable)
    (removed : List String → Bool) : (t.withDefaults removed).Usable where
  unit := iteInduction (motive := (· ≠ 0)) (fun _ => usable_default.unit) fun _ => h.unit
  types := iteInduction (motive := (· ≠ [])) (fun _ => usable_default.types) fun _ => h.types

/-- Usable markers stay usable with any defaults among them. -/
theorem Markers.Usable.withDefaults {m : Markers} (h : m.Usable)
    (removed : List String → Bool) : (m.withDefaults removed).Usable := by
  have hkept {removed : Bool} {default token : String} (hdefault : default ≠ "")
      (htoken : token ≠ "") : (if removed then default else token) ≠ "" := by
    split_ifs
    · exact hdefault
    · exact htoken
  simp only [Usable, tokens, List.forall_mem_cons] at h ⊢
  obtain ⟨hnamespace, hmodule, hinfo, hinputs, hprocedure, harguments, hnil⟩ := h
  exact ⟨hkept (by decide) hnamespace, hkept (by decide) hmodule, hkept (by decide) hinfo,
    hkept (by decide) hinputs, hkept (by decide) hprocedure, hkept (by decide) harguments, hnil⟩

/-- Usable settings of sections stay usable with any defaults among them. -/
theorem SectionSettings.Usable.withDefaults {s : SectionSettings} (h : s.Usable)
    (removed : List String → Bool) : (s.withDefaults removed).Usable :=
  iteInduction (motive := (· ≠ [])) (fun _ => usable_default) fun _ => h

namespace Settings

/-- Exactly the settings whose sections are all usable are accepted. -/
theorem validate_eq_ok_iff {s : Settings} :
    s.validate = .ok () ↔ s.target.Usable ∧ s.sections.Usable ∧ s.markers.Usable := by
  have hfault : s.validate = .ok () ↔ s.fault? = none := by
    unfold validate
    cases s.fault? <;> simp
  have htarget : s.target.Usable ↔ s.target.instructionUnit ≠ 0 ∧ s.target.typeTable ≠ [] :=
    ⟨fun h => ⟨h.unit, h.types⟩, fun h => ⟨h.1, h.2⟩⟩
  rw [hfault, htarget, SectionSettings.Usable, Markers.Usable, fault?]
  split_ifs with hunit htypes hpriority
  · simp [hunit]
  · simp [List.isEmpty_iff.mp htypes]
  · simp [List.isEmpty_iff.mp hpriority]
  · rw [List.isEmpty_iff] at htypes hpriority
    simp [hunit, htypes, hpriority]

/-- Leaving members out of usable settings leaves them usable. -/
theorem validate_withDefaults {s : Settings} (h : s.validate = .ok ())
    (removed : List String → Bool) : (s.withDefaults removed).validate = .ok () := by
  obtain ⟨htarget, hsections, hmarkers⟩ := validate_eq_ok_iff.mp h
  refine validate_eq_ok_iff.mpr ⟨?_, ?_, ?_⟩
  · exact iteInduction (fun _ => TargetSettings.usable_default) fun _ => htarget.withDefaults _
  · exact iteInduction (fun _ => SectionSettings.usable_default) fun _ => hsections.withDefaults _
  · exact iteInduction (fun _ => Markers.usable_default) fun _ => hmarkers.withDefaults _

/-! ## Reading what is left -/

section

variable (removed : List String → Bool) (n : Nat)

/-- Where members of the written target are missing, their defaults are read. -/
theorem readTarget_without (t : TargetSettings) :
    readTarget dialect (n + 2) ((targetJson t).without removed) =
      some (t.withDefaults removed) := by
  refine record_readsRemaining (by decide) rfl fun ms hms => ?_
  have hramBase (default : UInt64) : ms.withDefault "ram_base" default dialect.word? =
      some (if removed ["ram_base"] then default else t.ramBase) :=
    withDefault_remaining hms rfl (dialect_word?_word _)
  have hunit (default : UInt64) : ms.withDefault "instruction_unit" default dialect.word? =
      some (if removed ["instruction_unit"] then default else t.instructionUnit) :=
    withDefault_remaining hms rfl (dialect_word?_word _)
  have htypes (default : List PrimitiveType) : ms.withDefault "type_table" default
      (dialect.list (dialect.choice PrimitiveType.ofName?) (n + 1)) =
        some (if removed ["type_table"] then default else t.typeTable) :=
    withDefault_remaining hms rfl (list_readsBack_of_flat readsBack_type (fun _ => rfl) _ n)
  have hnoop (default : String) : ms.withDefault "noop_callable" default dialect.text? =
      some (if removed ["noop_callable"] then default else t.noopCallable) :=
    withDefault_remaining hms rfl rfl
  have hbase (default : String) : ms.withDefault "args_base_symbol" default dialect.text? =
      some (if removed ["args_base_symbol"] then default else t.argumentBase) :=
    withDefault_remaining hms rfl rfl
  simp only [hramBase, hunit, htypes, hnoop, hbase]
  rfl

/-- Where members of the written markers are missing, their defaults are read. -/
theorem readMarkers_without (m : Markers) :
    readMarkers dialect (n + 1) ((markersJson m).without removed) =
      some (m.withDefaults removed) := by
  refine record_readsRemaining (by decide) rfl fun ms hms => ?_
  have hnamespace (default : String) : ms.withDefault "namespace" default dialect.text? =
      some (if removed ["namespace"] then default else m.namespaceText) :=
    withDefault_remaining hms rfl rfl
  have hmodule (default : String) : ms.withDefault "module" default dialect.text? =
      some (if removed ["module"] then default else m.module) :=
    withDefault_remaining hms rfl rfl
  have hinfo (default : String) : ms.withDefault "info" default dialect.text? =
      some (if removed ["info"] then default else m.info) :=
    withDefault_remaining hms rfl rfl
  have hinputs (default : String) : ms.withDefault "inputs" default dialect.text? =
      some (if removed ["inputs"] then default else m.inputs) :=
    withDefault_remaining hms rfl rfl
  have hprocedure (default : String) : ms.withDefault "procedure" default dialect.text? =
      some (if removed ["procedure"] then default else m.procedure) :=
    withDefault_remaining hms rfl rfl
  have harguments (default : String) : ms.withDefault "arguments" default dialect.text? =
      some (if removed ["arguments"] then default else m.arguments) :=
    withDefault_remaining hms rfl rfl
  simp only [hnamespace, hmodule, hinfo, hinputs, hprocedure, harguments]
  rfl

/-- Where members of the written sections are missing, their defaults are read. -/
theorem readSections_without (s : SectionSettings) :
    readSections dialect (n + 2) ((sectionsJson s).without removed) =
      some (s.withDefaults removed) := by
  refine record_readsRemaining (by decide) rfl fun ms hms => ?_
  have hcode (default : List String) : ms.withDefault "code_prefixes" default
      (dialect.list dialect.text (n + 1)) =
        some (if removed ["code_prefixes"] then default else s.codeStems) :=
    withDefault_remaining hms rfl (list_readsBack_of_flat readsBack_text (fun _ => rfl) _ n)
  have hdata (default : List String) : ms.withDefault "data_prefixes" default
      (dialect.list dialect.text (n + 1)) =
        some (if removed ["data_prefixes"] then default else s.dataStems) :=
    withDefault_remaining hms rfl (list_readsBack_of_flat readsBack_text (fun _ => rfl) _ n)
  have hpriority (default : List SectionKind) : ms.withDefault "payload_priority" default
      (dialect.list (dialect.choice SectionKind.ofName?) (n + 1)) =
        some (if removed ["payload_priority"] then default else s.payloadPriority) :=
    withDefault_remaining hms rfl (list_readsBack_of_flat readsBack_kind (fun _ => rfl) _ n)
  simp only [hcode, hdata, hpriority]
  rfl

/-- What is left of written settings is read as the settings with the defaults in place of the
removed members. -/
theorem read_without (s : Settings) :
    read dialect (n + 3) (s.toJson.without removed) = some (s.withDefaults removed) := by
  refine record_readsRemaining (by decide) rfl fun ms hms => ?_
  have htarget : ms.withDefault "target" {} (readTarget dialect (n + 2)) =
      some (s.withDefaults removed).target :=
    withDefault_remaining hms rfl (readTarget_without _ n s.target)
  have hmarkers : ms.withDefault "markers" {} (readMarkers dialect (n + 2)) =
      some (s.withDefaults removed).markers :=
    withDefault_remaining hms rfl (readMarkers_without _ (n + 1) s.markers)
  have hsections : ms.withDefault "sections" {} (readSections dialect (n + 2)) =
      some (s.withDefaults removed).sections :=
    withDefault_remaining hms rfl (readSections_without _ n s.sections)
  have hparallel : ms.withDefault "parallel_payloads" false dialect.flag? =
      some (s.withDefaults removed).parallelPayloads :=
    withDefault_remaining hms rfl rfl
  simp only [htarget, hmarkers, hsections, hparallel]
  rfl

end

/-! ## Texts and files -/

/-- Written settings are a plain value. -/
theorem plain_toJson (s : Settings) : s.toJson.Plain := by
  have hmarkers : (markersJson s.markers).Plain := .record <| by
    rintro member hmember
    obtain ⟨⟨name, token⟩, -, rfl⟩ := List.mem_map.mp hmember
    exact .text token
  refine .record ?_
  simp only [List.forall_mem_cons]
  refine ⟨.record ?_, hmarkers, .record ?_, .bool _, by simp⟩
  · simp only [List.forall_mem_cons]
    exact ⟨.nat _, .nat _, Value.plain_map fun type _ => .text _, .text _, .text _, by simp⟩
  · simp only [List.forall_mem_cons]
    exact ⟨Value.plain_map fun s _ => .text s, Value.plain_map fun s _ => .text s,
      Value.plain_map fun kind _ => .text _, by simp⟩

/-- A file with the text is loaded as the settings when they are usable, and is refused for what
makes them unusable otherwise. -/
structure LoadsAs (text : String) (s : Settings) : Prop where
  loaded : s.validate = .ok () → load (some (Text.octets text)) = .ok s
  refused : ∀ fault, s.validate = .error fault →
    load (some (Text.octets text)) = .error (.settings fault) ∧
      (Fault.settings fault).report = .config fault.message

/-- A file whose text is read as settings is loaded as these. -/
theorem loadsAs_of_ofText? {text : String} {s : Settings} (h : ofText? text = some s) :
    LoadsAs text s := by
  have hfile : Text.fileText? (some (Text.octets text)) = some text := Text.strictText?_octets _
  refine ⟨fun hvalid => ?_, fun fault hfault => ⟨?_, rfl⟩⟩
  · simp only [load, hfile, h, hvalid]
  · simp only [load, hfile, h, hfault]

/-- A file that is loaded as settings is accepted exactly when they are usable. -/
theorem LoadsAs.load_eq_ok_iff {text : String} {s : Settings} (h : LoadsAs text s) :
    load (some (Text.octets text)) = .ok s ↔ s.validate = .ok () := by
  refine ⟨fun hload => ?_, h.loaded⟩
  cases hvalid : s.validate with
  | ok _ => rfl
  | error fault =>
    rw [(h.refused fault hvalid).1] at hload
    cases hload

/-- A text that holds what is left of written settings is loaded as the settings with the defaults
in place of the removed members. -/
theorem loadsAs_of_read? {s : Settings} {removed : List String → Bool} {text : String}
    (htext : read? text = some (s.toJson.without removed)) :
    LoadsAs text (s.withDefaults removed) := by
  have hread : ofText? text = some (s.withDefaults removed) := by
    rw [ofText?, readRecord?, htext, Option.bind_some]
    -- Settings nest three of the 127 levels.
    exact read_without removed 124 s
  exact loadsAs_of_ofText? hread

/-- Any set of members may be taken out of the object that a settings file holds, at any level. The
file with what is left, however that is laid out, is loaded as the settings with the default in
place of each removed member, and is refused when these are not usable. A file from which nothing is
taken is loaded as the settings themselves exactly when they are usable. -/
theorem load_file_without_members (s : Settings) (removed : List String → Bool) :
    read? s.save = some s.toJson ∧
    LoadsAs (s.toJson.without removed).pretty (s.withDefaults removed) ∧
    (∀ text, read? text = some (s.toJson.without removed) →
      LoadsAs text (s.withDefaults removed)) ∧
    (load (some (Text.octets s.save)) = .ok s ↔ s.validate = .ok ()) := by
  have hsaved : read? s.save = some s.toJson := s.plain_toJson.read?_pretty
  have hleft := (s.plain_toJson.without removed).read?_pretty
  refine ⟨hsaved, loadsAs_of_read? hleft, fun text => loadsAs_of_read?, ?_⟩
  have hwhole : LoadsAs s.save (s.withDefaults fun _ => false) := by
    apply loadsAs_of_read?
    rw [hsaved, Value.without_nothing]
  rw [withDefaults_nothing] at hwhole
  exact hwhole.load_eq_ok_iff

/-- Settings with neither an instruction unit nor the marker of information: a file with their base
of data memory alone is loaded, and one that lacks nothing but the instruction unit is refused for
the marker. -/
theorem load_base_alone :
    let s : Settings :=
      { target := { ramBase := 4096, instructionUnit := 0 }, markers := { info := "" } }
    let others (path : List String) : Bool := path ∉ [["target"], ["target", "ram_base"]]
    let unit (path : List String) : Bool := path = ["target", "instruction_unit"]
    let text := "\x7b \"target\": \x7b \"ram_base\": 4096 \x7d \x7d"
    read? text = some (s.toJson.without others) ∧
      load (some (Text.octets text)) = .ok { target := { ramBase := 4096 } } ∧
      load (some (Text.octets (s.toJson.without unit).pretty)) =
        .error (.settings (.emptyMarker "info")) := by
  intro s others unit text
  have hbase : Value.word 4096 = .number "4096" := congrArg Value.number (by decide +kernel)
  have hleft : s.toJson.without others =
      .record [("target", .record [("ram_base", .word 4096)])] := rfl
  have htext : read? text = some (s.toJson.without others) := by
    rw [hleft, hbase]
    simp only [read?, text, String.reduceToList]
    rfl
  have hloads := (load_file_without_members s others).2.2.1 text htext
  have hrefused := (load_file_without_members s unit).2.1.refused (.emptyMarker "info") (by rfl)
  exact ⟨htext, hloads.loaded (by rfl), hrefused.1⟩

end Settings

end FirmwareModel
