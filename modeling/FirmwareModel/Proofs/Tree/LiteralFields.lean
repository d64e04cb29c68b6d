import FirmwareModel.Proofs.Grammar.Declarations
import FirmwareModel.Proofs.Tree.AnyOrder

/-!
# Literals and the fields they go to

At each entity a run leaves the edits of the literals that go there. No two symbols mean the same
field of the same entity, and edits of different fields commute, so the order of the symbols makes
no difference to the entities.
-/

namespace FirmwareModel

variable {snapshot : Snapshot} {settings : Settings}

/-! ## Fields -/

/-- The kind of a literal. -/
def Literal.kind : Literal → LiteralKind
  | description _ => .description
  | size _ => .size
  | type _ => .type
  | offset _ => .offset

/-- A decoded literal is of the kind that was asked for. -/
theorem Literal.kind_of_decode {table : List PrimitiveType} {kind : LiteralKind}
    {bytes : List UInt8} {literal : Literal} (h : decode table kind bytes = .ok literal) :
    literal.kind = kind := by
  have hmap : ∀ {α : Type} {x : Except LiteralFault α} {f : α → Literal},
      x.map f = .ok literal → ∃ a, literal = f a := by
    intro α x f hx
    cases x with
    | error fault => cases hx
    | ok a => exact ⟨a, (Except.ok.inj hx).symm⟩
  cases kind with
  | description =>
    obtain rfl := Except.ok.inj h
    rfl
  | size =>
    obtain ⟨_, rfl⟩ := hmap h
    rfl
  | type =>
    obtain ⟨_, rfl⟩ := hmap h
    rfl
  | offset =>
    obtain ⟨_, rfl⟩ := hmap h
    rfl

/-- A literal of a symbol is decoded as one of the kind that its field has. -/
theorem exists_decode_of_literal? {s : ClassifiedSymbol} {literal : Literal}
    (h : s.literal? snapshot settings = some literal) :
    ∃ kind bytes, s.role.literalKind? = some kind ∧
      Literal.decode settings.target.typeTable kind bytes = .ok literal := by
  obtain ⟨kind, hkind, hliteral⟩ := Option.bind_eq_some_iff.mp h
  split at hliteral
  case h_2 => cases hliteral
  case h_1 heq =>
    obtain rfl := Option.some.inj hliteral
    unfold Snapshot.literal at heq
    split at heq
    · cases heq
    · cases heq
    · exact ⟨kind, _, hkind, mapError_eq_ok_iff.mp (Except.ok.inj heq)⟩

/-- A literal of a symbol is of the kind that its field has. -/
theorem literalKind?_of_literal? {s : ClassifiedSymbol} {literal : Literal}
    (h : s.literal? snapshot settings = some literal) :
    s.role.literalKind? = some literal.kind := by
  obtain ⟨kind, bytes, hkind, hdecode⟩ := exists_decode_of_literal? h
  rw [hkind, Literal.kind_of_decode hdecode]

/-- The field of an entity that holds literals of a kind. -/
def Role.literalField? : ModulePath × Member → LiteralKind → Option Role
  | (module, .self), .description => some (moduleField module .description)
  | (module, .input name), .description => some (inputField module name .description)
  | (module, .input name), .size => some (inputField module name .size)
  | (module, .input name), .type => some (inputField module name .type)
  | (module, .procedure name), .description => some (procedureField module name .description)
  | (module, .argument procedure name), .description =>
    some (argumentField module procedure name .description)
  | (module, .argument procedure name), .size => some (argumentField module procedure name .size)
  | (module, .argument procedure name), .type => some (argumentField module procedure name .type)
  | (module, .argument procedure name), .offset =>
    some (argumentField module procedure name .offset)
  | _, _ => none

/-- An entity and the kind of a literal determine the field. -/
theorem Role.literalField?_eq {role : Role} {owner : ModulePath × Member} {kind : LiteralKind}
    (howner : role.owner? = some owner) (hkind : role.literalKind? = some kind) :
    literalField? owner kind = some role := by
  cases role with
  | marker module => cases howner
  | irrelevant => cases howner
  | moduleField module field => cases howner; cases field <;> cases hkind; rfl
  | inputField module input field => cases howner; cases field <;> cases hkind <;> rfl
  | procedureField module procedure field => cases howner; cases field <;> cases hkind; rfl
  | argumentField module procedure argument field =>
    cases howner; cases field <;> cases hkind <;> rfl

/-- Edits of different fields of an entity commute. -/
theorem Literal.edit_comm {literal other : Literal} (h : literal.kind ≠ other.kind)
    (entity : Entity) :
    (entity.edit literal.edit).edit other.edit = (entity.edit other.edit).edit literal.edit := by
  cases entity <;> cases literal <;> cases other <;> first | rfl | exact absurd rfl h

/-! ## All symbols -/

/-- The edit of an entity that the literal of a symbol makes, if it goes to that entity. -/
def ClassifiedSymbol.literalEdit? (snapshot : Snapshot) (settings : Settings) (path : List String)
    (member : Member) (s : ClassifiedSymbol) : Option Edit :=
  if s.role.memberAt? path = some member then (s.literal? snapshot settings).map Literal.edit
  else none

/-- The edits of an entity that the literals of symbols make, in order. -/
def literalEdits (snapshot : Snapshot) (settings : Settings) (path : List String)
    (member : Member) (classified : List ClassifiedSymbol) : List Edit :=
  classified.filterMap fun s => s.literalEdit? snapshot settings path member

namespace ModuleTree

variable {t u : ModuleTree} {classified classified' : List ClassifiedSymbol}

/-- Filling in one literal keeps all entities and edits the one that it goes to. -/
theorem Holds.fillLiteral (h : t.Holds classified) {s : ClassifiedSymbol} (hs : s ∈ classified) :
    (t.fillLiteral snapshot settings s).Holds classified ∧
      ∀ path member, (t.fillLiteral snapshot settings s).entityAt? path member =
        (t.entityAt? path member).map fun entity =>
          (s.literalEdit? snapshot settings path member).elim entity entity.edit := by
  unfold ModuleTree.fillLiteral ClassifiedSymbol.literalEdit?
  cases hliteral : s.literal? snapshot settings with
  | none => exact ⟨h, by simp⟩
  | some literal =>
    rw [Option.elim_some]
    unfold editOwner
    cases howner : s.role.owner? with
    | none => exact ⟨h, by simp [Role.memberAt?, howner]⟩
    | some entity =>
      obtain ⟨owner, other⟩ := entity
      have hdeclares := h.declares s hs owner other howner
      refine ⟨h.edit hdeclares _, fun path member => ?_⟩
      rw [h.wellFormed.entityAt?_edit hdeclares]
      simp only [Role.memberAt?_eq_some_iff_of_owner? howner]
      split <;> simp

/-- Filling in literals edits each entity by the literals that go to it. -/
theorem Holds.foldl_fillLiteral (h : t.Holds classified) {items : List ClassifiedSymbol}
    (hitems : ∀ s ∈ items, s ∈ classified) (path : List String) (member : Member) :
    (items.foldl (ModuleTree.fillLiteral snapshot settings) t).entityAt? path member =
      (t.entityAt? path member).map fun entity =>
        (literalEdits snapshot settings path member items).foldl (fun entity e => entity.edit e)
          entity := by
  induction items generalizing t with
  | nil => simp [literalEdits]
  | cons s items ih =>
    obtain ⟨hholds, hentity⟩ : (t.fillLiteral snapshot settings s).Holds classified ∧ _ :=
      h.fillLiteral (hitems s (by simp))
    rw [List.foldl_cons, ih hholds fun other hother => hitems other (by simp [hother]), hentity,
      Option.map_map, literalEdits, literalEdits, List.filterMap_cons]
    cases s.literalEdit? snapshot settings path member <;> rfl

/-- When different symbols have different roles, the literals that go to one entity make the same of
it in any order. -/
theorem foldl_literalEdits_perm (hperm : classified.Perm classified')
    (hinj : ∀ s ∈ classified, ∀ s' ∈ classified, s.role = s'.role → s = s')
    (path : List String) (member : Member) (entity : Entity) :
    (literalEdits snapshot settings path member classified).foldl (fun entity e => entity.edit e)
        entity =
      (literalEdits snapshot settings path member classified').foldl
        (fun entity e => entity.edit e) entity := by
  refine (hperm.filterMap _).foldl_eq' (fun e he e' he' entity => ?_) entity
  have hsource : ∀ e ∈ literalEdits snapshot settings path member classified,
      ∃ s ∈ classified, ∃ literal, s.role.memberAt? path = some member ∧
        s.literal? snapshot settings = some literal ∧ e = literal.edit := by
    intro e he
    obtain ⟨s, hs, hedit⟩ := List.mem_filterMap.mp he
    rw [ClassifiedSymbol.literalEdit?, Option.ite_none_right_eq_some] at hedit
    obtain ⟨literal, hliteral, rfl⟩ := Option.map_eq_some_iff.mp hedit.2
    exact ⟨s, hs, literal, hedit.1, hliteral, rfl⟩
  obtain ⟨s, hs, literal, hmember, hliteral, rfl⟩ := hsource e he
  obtain ⟨s', hs', literal', hmember', hliteral', rfl⟩ := hsource e' he'
  by_cases hkind : literal.kind = literal'.kind
  · -- Literals of one kind come from one field, hence from one symbol.
    obtain ⟨owner, howner, hpath⟩ := Role.memberAt?_eq_some_iff.mp hmember
    obtain ⟨owner', howner', hpath'⟩ := Role.memberAt?_eq_some_iff.mp hmember'
    obtain rfl := ModulePath.segments_injective (hpath.trans hpath'.symm)
    have hfield := Role.literalField?_eq howner (literalKind?_of_literal? hliteral)
    have hfield' := Role.literalField?_eq howner' (literalKind?_of_literal? hliteral')
    rw [hkind, hfield'] at hfield
    obtain rfl := hinj s hs s' hs' (Option.some.inj hfield).symm
    obtain rfl := Option.some.inj (hliteral.symm.trans hliteral')
    rfl
  · exact Literal.edit_comm hkind entity

/-- Literals of the same symbols in any order do the same to trees that are alike. -/
theorem Alike.foldl_fillLiteral (h : t.Alike u) (ht : t.Holds classified)
    (hu : u.Holds classified') (hperm : classified.Perm classified')
    (hinj : ∀ s ∈ classified, ∀ s' ∈ classified, s.role = s'.role → s = s') :
    (classified.foldl (ModuleTree.fillLiteral snapshot settings) t).Alike
      (classified'.foldl (ModuleTree.fillLiteral snapshot settings) u) := by
  intro path member
  rw [ht.foldl_fillLiteral fun _ hs => hs, hu.foldl_fillLiteral fun _ hs => hs, h path member]
  simp only [foldl_literalEdits_perm hperm hinj]

end ModuleTree

end FirmwareModel
