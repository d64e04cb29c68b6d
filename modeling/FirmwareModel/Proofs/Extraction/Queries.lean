import FirmwareModel.Proofs.Document.Lookup
import FirmwareModel.Proofs.Extraction.Entities

/-!
# Finding the entities of a document

The document of an extraction can be searched by qualified names: siblings have different names at
every level, the qualified name of a module spells its path, and inputs and procedures are named by
identifiers. So every listed entity is found under its qualified name, and whatever is found is
listed there.
-/

namespace FirmwareModel

open Document

/-! ## Names of members -/

/-- The name of the input that a role speaks of is one of its names. -/
theorem Role.mem_names_of_inputName? {role : Role} {owner : ModulePath} {member : Member}
    {name : String} (howner : role.owner? = some (owner, member))
    (hname : member.inputName? = some name) : name ∈ role.names := by
  cases role <;> cases howner <;> simp_all [Member.inputName?, Role.names]

/-- The name of the procedure that a role speaks of is one of its names. -/
theorem Role.mem_names_of_procedureName? {role : Role} {owner : ModulePath} {member : Member}
    {name : String} (howner : role.owner? = some (owner, member))
    (hname : member.procedureName? = some name) : name ∈ role.names := by
  cases role <;> cases howner <;> simp_all [Member.procedureName?, Role.names]

/-- The names that symbols give to members are identifiers. -/
theorem SymbolSurvey.isIdentifier_of_mem_memberNames {markers : Markers} {snapshot : Snapshot}
    {path : List String} {select : Member → Option String} {name : String}
    (hselect : ∀ role owner member, Role.owner? role = some (owner, member) →
      select member = some name → name ∈ role.names)
    (hname : name ∈ memberNames (ofSpelled markers snapshot).classified path select) :
    Text.IsIdentifier name := by
  obtain ⟨s, hs, member, hmember, hselected⟩ := mem_memberNames_iff.mp hname
  obtain ⟨owner, howner, -⟩ := Role.memberAt?_eq_some_iff.mp hmember
  obtain ⟨-, -, -, hread, hsome⟩ := exists_of_mem_classified hs
  exact (eq_declaration_of_classify hread hsome).1.names_valid name
    (hselect s.role owner member howner hselected)

namespace Extraction

variable {settings : Settings} {snapshot : Snapshot} {map : List MapEntry} {x : Extraction}

/-- In a document that lists declared modules, siblings have different names. -/
theorem ListsModules.namesApart {document : Document} {paths : List ModulePath}
    (h : ListsModules document paths) : document.NamesApart where
  outermost := h.outermost ▸ nodup_eraseDups _
  below := fun path r hr => h.siblings path r hr ▸ nodup_eraseDups _

namespace Stages

variable (stages : Stages settings snapshot map x)

include stages

/-- The qualified name of a listed module is cut into its path. -/
theorem segments_qualified_of_mem {path : List String} {r : ModuleRecord}
    (hr : (path, r) ∈ x.document.listing) : Text.segments (Text.qualified path) = path :=
  stages.segments_qualified_of_mem_listing (List.mem_map.mpr ⟨_, hr, rfl⟩)

/-- Members whose names in every listed record are names that symbols give are found. -/
theorem findsMembers {α : Type} {members : ModuleRecord → List α} {nameOf : α → String}
    {select : Member → Option String} (kind : EntityKind)
    (hmembers : ∀ path r, (path, r) ∈ x.document.listing →
      (members r).map nameOf = memberNames stages.survey.classified path select)
    (hselect : ∀ name role owner member, Role.owner? role = some (owner, member) →
      select member = some name → name ∈ role.names) :
    x.document.FindsMembers members nameOf (findMember kind members nameOf x.document) := by
  refine stages.listsModules.namesApart.findsMembers
    (fun _ _ hr => stages.segments_qualified_of_mem hr) (fun path r hr => ?_) kind
    fun path r hr a ha => ?_
  · rw [hmembers path r hr]
    exact nodup_eraseDups _
  · have hname : nameOf a ∈ memberNames stages.survey.classified path select := by
      rw [← hmembers path r hr]
      exact List.mem_map_of_mem ha
    rw [stages.survey_eq] at hname
    exact (SymbolSurvey.isIdentifier_of_mem_memberNames (hselect (nameOf a)) hname).colon_notMem

end Stages

/-- Every module, input and procedure of the document of an extraction is found by its qualified
name, and nothing else is found: any other name is reported as not found, or as at fault itself if
a member is asked for without a module. -/
theorem run_finds_listed_entities (h : run settings snapshot map = .ok x) :
    x.document.FindsModules ∧
      x.document.FindsMembers ModuleRecord.inputs InputRecord.name x.document.findInput ∧
      x.document.FindsMembers ModuleRecord.procedures ProcedureRecord.name
        x.document.findProcedure := by
  obtain ⟨stages⟩ := exists_stages h
  refine ⟨?_, ?_, ?_⟩
  · exact stages.listsModules.namesApart.findsModules fun _ _ hr =>
      stages.segments_qualified_of_mem hr
  · exact stages.findsMembers .input (fun _ _ hr => (stages.listsMembers hr).inputs)
      fun _ _ _ _ => Role.mem_names_of_inputName?
  · exact stages.findsMembers .procedure (fun _ _ hr => (stages.listsMembers hr).procedures)
      fun _ _ _ _ => Role.mem_names_of_procedureName?

/-- The entities of the lamp are found: its glow, and there the level and the reset. An input that
the glow does not have is not found, and an input has to be asked for with its module. -/
theorem lamp_finds_listed_entities :
    ∃ x, run Lamp.settings Lamp.snapshot Lamp.map = .ok x ∧
      ((x.document.findModule "Lamp::Glow").map ModuleRecord.name = .ok "Glow" ∧
        (x.document.findInput "Lamp::Glow::level").map InputRecord.name = .ok "level" ∧
        (x.document.findProcedure "Lamp::Glow::reset").map ProcedureRecord.name = .ok "reset" ∧
        (x.document.findInput "Lamp::Glow::hue").map InputRecord.name =
          .error (.noMember .input "hue" ["Lamp", "Glow"]) ∧
        (x.document.findInput "level").map InputRecord.name =
          .error (.unqualifiedMember .input "level")) ∧
      x.document.FindsModules ∧
      x.document.FindsMembers ModuleRecord.inputs InputRecord.name x.document.findInput ∧
      x.document.FindsMembers ModuleRecord.procedures ProcedureRecord.name
        x.document.findProcedure := by
  exact Lamp.exists_run_and (by decide +kernel) fun _ hx => run_finds_listed_entities hx

end Extraction

end FirmwareModel
