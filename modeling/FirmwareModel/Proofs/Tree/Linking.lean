import FirmwareModel.Proofs.Outcome
import FirmwareModel.Proofs.Tree.Outline
import FirmwareModel.Tree.Links

/-!
# Following relocation records

A record is applied to the entity whose pointer field its container symbol is. The entities are
there, so records change what is filled in and nothing else, and the callable that an entity ends
up with is the one of the last record that refers from a pointer field of it to code.
-/

namespace FirmwareModel

/-! ## The callable of an entity -/

/-- The callable of an entity of the module. -/
def Module.callable? (m : Module) : Member → Option Callable
  | .self => m.callable
  | .input name => (m.inputs.find? name).bind Input.callable
  | .procedure name => (m.procedures.find? name).bind Procedure.callable
  | .argument _ _ => none

/-- The callable that an edit gives to an entity. -/
def Edit.callableFor? : Edit → Member → Option Callable
  | .call _, .argument _ _ => none
  | .call callable, _ => some callable
  | _, _ => none

/-- An edit gives a callable to the edited entity and leaves those of all others alone. -/
theorem Module.callable?_edit (e : Edit) (m : Module) (member other : Member) :
    (m.edit e member).callable? other =
      (if other = member then e.callableFor? member else none).or (m.callable? other) := by
  cases member with
  | self => cases other <;> cases e <;> rfl
  | input name =>
    cases other with
    | input key =>
      simp only [Module.edit, callable?, Table.find?_upsert, Member.input.injEq]
      by_cases hkey : key = name
      · subst hkey
        simp only [if_true, Option.bind_some]
        cases m.inputs.find? key <;> cases e <;> rfl
      · simp [hkey]
    | self => rfl
    | procedure key => rfl
    | argument procedure key => rfl
  | procedure name =>
    cases other with
    | procedure key =>
      simp only [Module.edit, callable?, Table.find?_upsert, Member.procedure.injEq]
      by_cases hkey : key = name
      · subst hkey
        simp only [if_true, Option.bind_some]
        cases m.procedures.find? key <;> cases e <;> rfl
      · simp [hkey]
    | self => rfl
    | input key => rfl
    | argument procedure key => rfl
  | argument procedure name =>
    cases other with
    | procedure key =>
      simp only [Module.edit, callable?, Table.find?_upsert, reduceCtorEq, if_false]
      by_cases hkey : key = procedure
      · subst hkey
        simp only [if_true, Option.bind_some]
        cases m.procedures.find? key <;> rfl
      · simp [hkey]
    | self => rfl
    | input key => rfl
    | argument other key => cases e <;> simp [callable?, Edit.callableFor?]

namespace ModuleTree

/-- The callable of an entity of the module at a path. -/
def callableAt? (t : ModuleTree) (path : List String) (member : Member) : Option Callable :=
  (t.moduleAt? path).bind fun m => m.callable? member

/-- An edit shows in the callable of its own entity only, if it sets one. -/
theorem WellFormed.callableAt?_edit {t : ModuleTree} (h : t.WellFormed) {path : ModulePath}
    {m : Module} (hm : t.moduleAt? path.segments = some m) (member : Member) (e : Edit)
    (place : List String) (other : Member) :
    (t.edit path member e).callableAt? place other =
      (if place = path.segments ∧ other = member then e.callableFor? member else none).or
        (t.callableAt? place other) := by
  rw [callableAt?, h.moduleAt?_edit hm, callableAt?]
  by_cases hplace : place = path.segments
  · subst hplace
    simp [hm, Module.callable?_edit]
  · simp [hplace]

end ModuleTree

/-! ## Trees that have all entities -/

/-- The entity at a path that a role speaks of. -/
def Role.memberAt? (role : Role) (path : List String) : Option Member :=
  role.owner?.bind fun owner => if owner.1.segments = path then some owner.2 else none

/-- A role speaks of a member at a path when it speaks of a member of the module there. -/
theorem Role.memberAt?_eq_some_iff {role : Role} {path : List String} {member : Member} :
    role.memberAt? path = some member ↔
      ∃ owner, role.owner? = some (owner, member) ∧ owner.segments = path := by
  simp only [memberAt?, Option.bind_eq_some_iff, Option.ite_none_right_eq_some,
    Option.some.injEq, Prod.exists]
  constructor
  · rintro ⟨owner, _, howner, hpath, rfl⟩
    exact ⟨owner, howner, hpath⟩
  · rintro ⟨owner, howner, hpath⟩
    exact ⟨owner, member, howner, hpath, rfl⟩

/-- A role speaks of an entity at a path exactly when the two are its own. -/
theorem Role.memberAt?_eq_some_iff_of_owner? {role : Role} {owner : ModulePath}
    {path : List String} {member other : Member} (howner : role.owner? = some (owner, other)) :
    role.memberAt? path = some member ↔ path = owner.segments ∧ member = other := by
  simp [memberAt?, howner, eq_comm]

/-- Pointer fields belong to modules, inputs and procedures. -/
theorem Role.owner?_of_isPointer {role : Role} (h : role.isPointer) :
    ∃ path member, role.owner? = some (path, member) ∧ ∀ p n, member ≠ .argument p n := by
  cases role <;> simp_all [Role.isPointer, Role.owner?]

namespace ModuleTree

/-- The tree is well-formed and has every entity that one of the symbols speaks of. -/
structure Holds (t : ModuleTree) (classified : List ClassifiedSymbol) : Prop where
  wellFormed : t.WellFormed
  declares : ∀ s ∈ classified, ∀ path member, s.role.owner? = some (path, member) →
    t.Declares path.segments member

variable {t t' : ModuleTree} {classified : List ClassifiedSymbol}

/-- An edit of an entity that the tree has keeps all entities. -/
theorem Holds.edit (h : t.Holds classified) {path : ModulePath} {member : Member}
    (hdeclares : t.Declares path.segments member) (e : Edit) :
    (t.edit path member e).Holds classified := by
  constructor
  · obtain ⟨m, hm, -⟩ := hdeclares
    exact h.wellFormed.edit hm member e
  · intro s hs owner other howner
    exact declares_of_outline_eq (outline_edit hdeclares e).symm
      (h.declares s hs owner other howner)

/-! ## One record -/

variable {snapshot : Snapshot} {sections : SectionSettings} {r : RelocationRecord}

/-- The role that a record is applied to is that of a pointer field whose symbol the container
names. -/
theorem exists_of_pointerRole? {role : Role} (h : r.pointerRole? classified = some role) :
    ∃ s ∈ classified, s.role = role ∧ s.role.isPointer ∧ s.name.mangled = r.containerSymbol := by
  obtain ⟨s, hs, rfl⟩ := Option.map_eq_some_iff.mp h
  have hcondition := List.find?_some hs
  simp only [Bool.and_eq_true, beq_iff_eq] at hcondition
  exact ⟨s, List.mem_of_find?_eq_some hs, rfl, hcondition.1, hcondition.2⟩

/-- What a record does when it causes no fault: it edits the entity of its pointer field, or
nothing if it has no such field or no target. -/
theorem link?_cases {applied : Bool}
    (h : t.link? snapshot sections classified r = .ok (t', applied)) :
    (t' = t ∧ (r.pointerRole? classified = none ∨ r.target? sections = none)) ∨
      ∃ role target unmangled path member,
        r.pointerRole? classified = some role ∧ r.target? sections = some target ∧
        snapshot.demangle target.symbol = .ok unmangled ∧ role.owner? = some (path, member) ∧
        t' = t.edit path member (target.edit unmangled) := by
  unfold link? at h
  cases hrole : r.pointerRole? classified with
  | none =>
    simp only [hrole] at h
    exact Or.inl ⟨(congrArg Prod.fst (Except.ok.inj h)).symm, Or.inl rfl⟩
  | some role =>
    cases htarget : r.target? sections with
    | none =>
      simp only [hrole, htarget] at h
      exact Or.inl ⟨(congrArg Prod.fst (Except.ok.inj h)).symm, Or.inr rfl⟩
    | some target =>
      obtain ⟨s, -, rfl, hpointer, -⟩ := exists_of_pointerRole? hrole
      obtain ⟨path, member, howner, -⟩ := Role.owner?_of_isPointer hpointer
      simp only [hrole, htarget, howner] at h
      cases hdemangle : snapshot.demangle target.symbol with
      | error fault => simp [hdemangle] at h
      | ok unmangled =>
        simp only [hdemangle] at h
        exact Or.inr ⟨s.role, target, unmangled, path, member, rfl, rfl, hdemangle, howner,
          (congrArg Prod.fst (Except.ok.inj h)).symm⟩

/-- A record keeps all entities and shows nothing in the outline. -/
theorem Holds.link? (h : t.Holds classified) {applied : Bool}
    (hlink : t.link? snapshot sections classified r = .ok (t', applied)) :
    t'.Holds classified ∧ t'.outline = t.outline := by
  rcases link?_cases hlink with ⟨rfl, -⟩ | ⟨role, target, u, path, member, hrole, -, -, howner, rfl⟩
  · exact ⟨h, rfl⟩
  · obtain ⟨s, hs, rfl, -, -⟩ := exists_of_pointerRole? hrole
    have hdeclares := h.declares s hs path member howner
    exact ⟨h.edit hdeclares _, outline_edit hdeclares _⟩

/-! ## All records -/

/-- A first record is applied before all others, and counts if it was applied. -/
theorem linkAll_cons_eq_ok_iff {records : List RelocationRecord} {count : Nat} :
    linkAll snapshot sections classified t (r :: records) = .ok (t', count) ↔
      ∃ mid applied rest, t.link? snapshot sections classified r = .ok (mid, applied) ∧
        linkAll snapshot sections classified mid records = .ok (t', rest) ∧
        count = rest + applied.toNat := by
  rw [linkAll, bind_eq_ok_iff]
  constructor
  · rintro ⟨⟨mid, applied⟩, hmid, hrest⟩
    obtain ⟨⟨last, rest⟩, hlast, heq⟩ := bind_eq_ok_iff.mp hrest
    obtain ⟨rfl, rfl⟩ := Prod.mk.inj (pure_eq_ok_iff.mp heq)
    exact ⟨mid, applied, rest, hmid, hlast, rfl⟩
  · rintro ⟨mid, applied, rest, hmid, hlast, rfl⟩
    exact ⟨(mid, applied), hmid, bind_eq_ok_iff.mpr ⟨(t', rest), hlast, rfl⟩⟩

/-- The records keep all entities and show nothing in the outline. -/
theorem Holds.linkAll (h : t.Holds classified) {records : List RelocationRecord} {count : Nat}
    (hlink : ModuleTree.linkAll snapshot sections classified t records = .ok (t', count)) :
    t'.Holds classified ∧ t'.outline = t.outline := by
  induction records generalizing t count with
  | nil =>
    obtain ⟨rfl, -⟩ := Prod.mk.inj (Except.ok.inj hlink)
    exact ⟨h, rfl⟩
  | cons r records ih =>
    obtain ⟨mid, applied, rest, hmid, hrest, -⟩ := linkAll_cons_eq_ok_iff.mp hlink
    obtain ⟨hholds, houtline⟩ := h.link? hmid
    obtain ⟨hholds', houtline'⟩ := ih hholds hrest
    exact ⟨hholds', houtline'.trans houtline⟩

end ModuleTree

end FirmwareModel
