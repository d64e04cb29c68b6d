import FirmwareModel.Proofs.Object.Spelling
import FirmwareModel.Proofs.Tree.Linking
import FirmwareModel.Tree.Literals

/-!
# Filling in literals

Literals describe entities and their storage. The one of a symbol goes to its field or leaves a
diagnostic. Filling them in keeps all entities and all callables, and neither records nor literals
settle anything: until the linker map is consulted, nothing is suppressed and storage refers to
symbols in the spelling of the snapshot.
-/

namespace FirmwareModel

/-! ## Modules before the linker map -/

/-- The edit leaves symbols of locations in the spelling of the snapshot. -/
def Edit.Respects (snapshot : Snapshot) : Edit → Prop
  | .store change => ∀ s : Storage, s.Spelled snapshot → (change s).Spelled snapshot
  | _ => True

/-- Nothing in the module has been settled by the linker map. -/
structure Module.Unsettled (snapshot : Snapshot) (m : Module) : Prop where
  unsuppressed : m.updateSuppressed = false
  inputs : m.inputs.All fun _ i => i.updateSuppressed = false ∧ i.data.Spelled snapshot

variable {snapshot : Snapshot}

/-- An edit that respects the spelling settles nothing. -/
theorem Module.Unsettled.edit {m : Module} (h : m.Unsettled snapshot) {e : Edit}
    (he : e.Respects snapshot) (member : Member) : (m.edit e member).Unsettled snapshot := by
  cases member with
  | self => cases e <;> exact ⟨h.unsuppressed, h.inputs⟩
  | procedure name => exact ⟨h.unsuppressed, h.inputs⟩
  | argument procedure name => exact ⟨h.unsuppressed, h.inputs⟩
  | input name =>
    have hfresh : ({} : Storage).Spelled snapshot := by simp [Storage.Spelled]
    refine ⟨h.unsuppressed, h.inputs.upsert ⟨rfl, hfresh⟩ fun i hi => ?_⟩
    cases e with
    | store change => exact ⟨hi.1, he i.data hi.2⟩
    | keep => exact hi
    | describe text => exact hi
    | call callable => exact hi

/-- A pointer to a symbol in the spelling of the snapshot respects it. -/
theorem ReferenceTarget.respects_edit {target : ReferenceTarget} {unmangled : String}
    (hunmangled : snapshot.demangle target.symbol = .ok unmangled) :
    (target.edit unmangled).Respects snapshot := by
  obtain ⟨rfl, -⟩ := Snapshot.demangle_eq_ok_iff.mp hunmangled
  cases target with
  | code symbol => trivial
  | data symbol offset =>
    intro s _ name hname
    obtain rfl := Option.some.inj hname
    rfl

/-- A literal leaves symbols of locations in the spelling of the snapshot. -/
theorem Literal.respects_edit (literal : Literal) : literal.edit.Respects snapshot := by
  cases literal with
  | description text => trivial
  | size bytes => exact fun s hs => hs
  | type primitive => exact fun s hs => hs
  | offset bytes => exact fun s hs => hs

/-- A literal is not a callable. -/
theorem Literal.callableFor?_edit (literal : Literal) (member : Member) :
    literal.edit.callableFor? member = none := by
  cases literal <;> cases member <;> rfl

namespace ModuleTree

variable {t t' : ModuleTree} {classified : List ClassifiedSymbol}

/-- Nothing in the tree has been settled by the linker map. -/
def Unsettled (snapshot : Snapshot) (t : ModuleTree) : Prop :=
  ∀ id m, t.module? id = some m → m.Unsettled snapshot

/-- In a tree of which nothing has been settled, nothing of the module at a path has been
settled. -/
theorem Unsettled.moduleAt? (h : t.Unsettled snapshot) {path : List String} {m : Module}
    (hm : t.moduleAt? path = some m) : m.Unsettled snapshot := by
  obtain ⟨id, -, hid⟩ := moduleAt?_eq_some_iff.mp hm
  exact h id m hid

/-- An edit of an entity whose module is there settles nothing when it respects the spelling. -/
theorem Unsettled.edit (h : t.Unsettled snapshot) {path : ModulePath} {m : Module}
    (hm : t.moduleAt? path.segments = some m) (member : Member) {e : Edit}
    (he : e.Respects snapshot) : (t.edit path member e).Unsettled snapshot := by
  obtain ⟨id, hfind, -⟩ := exists_find?_of_moduleAt? hm
  rw [edit_of_find? hfind]
  exact forall_module_editAt h (fun m hm => hm.edit he member) id

/-- Records settle nothing. -/
theorem Unsettled.linkAll (h : t.Unsettled snapshot) (hholds : t.Holds classified)
    {sections : SectionSettings} {records : List RelocationRecord} {count : Nat}
    (hlink : ModuleTree.linkAll snapshot sections classified t records = .ok (t', count)) :
    t'.Unsettled snapshot := by
  induction records generalizing t count with
  | nil =>
    obtain ⟨rfl, -⟩ := Prod.mk.inj (Except.ok.inj hlink)
    exact h
  | cons r records ih =>
    obtain ⟨mid, applied, rest, hmid, hrest, -⟩ := linkAll_cons_eq_ok_iff.mp hlink
    refine ih ?_ (hholds.link? hmid).1 hrest
    rcases link?_cases hmid with ⟨rfl, -⟩ |
      ⟨role, target, unmangled, path, member, hrole, -, hunmangled, howner, rfl⟩
    · exact h
    · obtain ⟨s, hs, rfl, -, -⟩ := exists_of_pointerRole? hrole
      obtain ⟨m, hm, -⟩ := hholds.declares s hs path member howner
      exact h.edit hm member (ReferenceTarget.respects_edit hunmangled)

end ModuleTree

/-! ## One literal -/

variable {settings : Settings}

/-- The literal of a symbol, if its field is one and its first section holds one. -/
def ClassifiedSymbol.literal? (snapshot : Snapshot) (settings : Settings) (s : ClassifiedSymbol) :
    Option Literal :=
  s.role.literalKind?.bind fun kind =>
    match snapshot.literal settings s.name.mangled kind with
    | .ok (.ok literal) => some literal
    | _ => none

/-- The diagnostic of a literal field that has no section, or whose bytes are no literal. -/
def ClassifiedSymbol.literalDiagnostic? (snapshot : Snapshot) (settings : Settings)
    (s : ClassifiedSymbol) : Option Diagnostic :=
  s.role.literalKind?.bind fun kind =>
    match snapshot.literal settings s.name.mangled kind with
    | .ok (.error fault) => some (.ofReport .payloads s.name.mangled fault.report)
    | _ => none

/-- The tree after the literal of a symbol, if it has one. -/
def ModuleTree.fillLiteral (snapshot : Snapshot) (settings : Settings) (t : ModuleTree)
    (s : ClassifiedSymbol) : ModuleTree :=
  (s.literal? snapshot settings).elim t fun literal => t.editOwner s.role literal.edit

namespace LiteralProgress

/-- What a step does when it causes no fault. -/
theorem step_eq {p p' : LiteralProgress} {s : ClassifiedSymbol}
    (h : p.step snapshot settings s = .ok p') :
    p' = {
      tree := p.tree.fillLiteral snapshot settings s
      stored := p.stored + (s.literal? snapshot settings).toList.length
      diagnostics := p.diagnostics ++ (s.literalDiagnostic? snapshot settings).toList } := by
  unfold step at h
  unfold ModuleTree.fillLiteral ClassifiedSymbol.literal? ClassifiedSymbol.literalDiagnostic?
  cases hkind : s.role.literalKind? with
  | none =>
    simp only [hkind, Except.ok.injEq] at h
    simp [h]
  | some kind =>
    simp only [hkind] at h
    obtain ⟨result, hresult, hstep⟩ := bind_eq_ok_iff.mp h
    cases result with
    | ok literal =>
      obtain rfl := pure_eq_ok_iff.mp hstep
      simp [hresult]
    | error fault =>
      obtain rfl := pure_eq_ok_iff.mp hstep
      simp [hresult]

/-- What all steps do when they cause no fault. -/
theorem foldlM_eq {p p' : LiteralProgress} {classified : List ClassifiedSymbol}
    (h : classified.foldlM (step snapshot settings) p = .ok p') :
    p' = {
      tree := classified.foldl (.fillLiteral snapshot settings) p.tree
      stored := p.stored + (classified.filterMap fun s => s.literal? snapshot settings).length
      diagnostics := p.diagnostics ++
        classified.filterMap fun s => s.literalDiagnostic? snapshot settings } := by
  induction classified generalizing p with
  | nil =>
    obtain rfl := pure_eq_ok_iff.mp h
    simp
  | cons s classified ih =>
    rw [List.foldlM_cons, bind_eq_ok_iff] at h
    obtain ⟨mid, hmid, hrest⟩ := h
    rw [ih hrest, step_eq hmid]
    cases hliteral : s.literal? snapshot settings <;>
      cases hdiagnostic : s.literalDiagnostic? snapshot settings <;>
        simp [hliteral, hdiagnostic, Nat.add_assoc, Nat.add_comm 1]

end LiteralProgress

/-! ## All literals -/

namespace ModuleTree

variable {t : ModuleTree} {classified : List ClassifiedSymbol}

/-- What filling in literals keeps of a tree. -/
structure FilledFrom (snapshot : Snapshot) (classified : List ClassifiedSymbol)
    (t t' : ModuleTree) : Prop where
  holds : t'.Holds classified
  outline : t'.outline = t.outline
  unsettled : t'.Unsettled snapshot
  callableAt? : ∀ path member, t'.callableAt? path member = t.callableAt? path member

/-- A literal of an entity that the tree has keeps all of this. -/
theorem FilledFrom.editOwner {mid : ModuleTree} (h : FilledFrom snapshot classified t mid)
    {s : ClassifiedSymbol} (hs : s ∈ classified) (literal : Literal) :
    FilledFrom snapshot classified t (mid.editOwner s.role literal.edit) := by
  unfold ModuleTree.editOwner
  split
  case h_1 path member howner =>
    have hdeclares := h.holds.declares s hs path member howner
    have ⟨m, hm, _⟩ := hdeclares
    refine ⟨h.holds.edit hdeclares _, (outline_edit hdeclares _).trans h.outline,
      h.unsettled.edit hm member literal.respects_edit, fun place other => ?_⟩
    rw [h.holds.wellFormed.callableAt?_edit hm, literal.callableFor?_edit,
      ← h.callableAt? place other]
    split <;> rfl
  case h_2 => exact h

/-- A literal keeps what literals keep of a tree. -/
theorem FilledFrom.fillLiteral {mid : ModuleTree} (h : FilledFrom snapshot classified t mid)
    {s : ClassifiedSymbol} (hs : s ∈ classified) :
    FilledFrom snapshot classified t (mid.fillLiteral snapshot settings s) := by
  unfold ModuleTree.fillLiteral
  cases s.literal? snapshot settings with
  | none => exact h
  | some literal => exact h.editOwner hs literal

/-- Filling in all literals keeps entities, callables and what is unsettled. -/
theorem Holds.fillLiterals (h : t.Holds classified) (hunsettled : t.Unsettled snapshot)
    {filled : LiteralProgress}
    (hfilled : t.fillLiterals snapshot settings classified = .ok filled) :
    FilledFrom snapshot classified t filled.tree := by
  have hstart : FilledFrom snapshot classified t t := ⟨h, rfl, hunsettled, fun _ _ => rfl⟩
  rw [LiteralProgress.foldlM_eq hfilled]
  exact List.foldlRecOn classified _ hstart fun mid hmid s hs => hmid.fillLiteral hs

end ModuleTree

end FirmwareModel
