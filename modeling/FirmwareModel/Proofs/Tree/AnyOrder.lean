import FirmwareModel.Proofs.Tree.Alike
import FirmwareModel.Proofs.Tree.Built

/-!
# Trees from symbols in any order

Trees that are built from the same paths and symbols in different orders are alike: which entities
there are is told by the symbols, and nothing is filled in. Records are followed in their own order,
which keeps trees alike.
-/

namespace FirmwareModel

/-! ## Building -/

/-- A module of which nothing is filled in and whose entities are kept under their own names. -/
structure Module.Unfilled (m : Module) : Prop where
  description : m.description = ""
  callable : m.callable = none
  unsuppressed : m.updateSuppressed = false
  inputs : m.inputs.All fun key i => i = { name := key }
  procedures : m.procedures.All fun key p => p.bare = { name := key } ∧
    p.arguments.All fun name a => a = { name }

namespace Module

variable {m n : Module}

/-- Making sure of an entity fills in nothing. -/
theorem Unfilled.keep (h : m.Unfilled) (member : Member) : (m.edit .keep member).Unfilled := by
  cases member with
  | self => exact h
  | input name =>
    exact { h with inputs := h.inputs.upsert rfl fun i hi => hi }
  | procedure name =>
    exact { h with procedures := h.procedures.upsert ⟨rfl, .empty⟩ fun p hp => hp }
  | argument procedure name =>
    refine { h with procedures := h.procedures.upsert ⟨rfl, .empty⟩ fun p hp => ⟨hp.1, ?_⟩ }
    exact hp.2.upsert rfl fun a ha => ha

/-- The entity at a place of a module of which nothing is filled in. -/
def blank (m : Module) : Member → Entity
  | .self => .module { name := m.name, path := m.path, parent := none }
  | .input name => .input { name }
  | .procedure name => .procedure { name }
  | .argument _ name => .argument { name }

/-- Every entity of an unfilled module is blank. -/
theorem Unfilled.entity?_eq (h : m.Unfilled) {member : Member} (hmember : m.Has member) :
    m.entity? member = some (m.blank member) := by
  obtain ⟨entity, hentity⟩ := Option.isSome_iff_exists.mp (isSome_entity?_iff.mpr hmember)
  rw [hentity]
  cases member with
  | self =>
    obtain rfl := Option.some.inj hentity
    simp [blank, bare, h.description, h.callable, h.unsuppressed]
  | input name =>
    obtain ⟨i, hi, rfl⟩ := Option.map_eq_some_iff.mp hentity
    rw [h.inputs name i hi, blank]
  | procedure name =>
    obtain ⟨p, hp, rfl⟩ := Option.map_eq_some_iff.mp hentity
    rw [(h.procedures name p hp).1, blank]
  | argument procedure name =>
    obtain ⟨p, hp, hargument⟩ := Option.bind_eq_some_iff.mp hentity
    obtain ⟨a, ha, rfl⟩ := Option.map_eq_some_iff.mp hargument
    rw [(h.procedures procedure p hp).2 name a ha, blank]

/-- Modules of which nothing is filled in are alike when they are the same module with the same
entities. -/
theorem Unfilled.alike (hm : m.Unfilled) (hn : n.Unfilled) (hname : m.name = n.name)
    (hpath : m.path = n.path) (hhas : ∀ member, m.Has member ↔ n.Has member) : m.Alike n := by
  intro member
  by_cases hmember : m.Has member
  · rw [hm.entity?_eq hmember, hn.entity?_eq ((hhas member).mp hmember)]
    cases member <;> simp [blank, hname, hpath]
  · have hnone : ∀ {k : Module}, ¬ k.Has member → k.entity? member = none := by
      intro k hk
      simpa [← isSome_entity?_iff] using hk
    rw [hnone hmember, hnone (mt (hhas member).mpr hmember)]

end Module

namespace ModuleTree

variable {t u : ModuleTree}

/-- A well-formed tree of which nothing is filled in. -/
structure Unfilled (t : ModuleTree) : Prop where
  wellFormed : t.WellFormed
  modules : ∀ id m, t.module? id = some m → m.Unfilled

/-- Making sure of a path fills in nothing. -/
theorem Unfilled.ensure (h : t.Unfilled) (path : ModulePath) : (t.ensure path).1.Unfilled :=
  ⟨h.wellFormed.ensure path, h.wellFormed.forall_module_ensure
    (fun _ _ _ => ⟨rfl, rfl, rfl, .empty, .empty⟩) (fun _ _ hm => { hm with }) h.modules path⟩

/-- Making sure of the entity that a role speaks of fills in nothing. -/
theorem Unfilled.editOwner (h : t.Unfilled) (role : Role) : (t.editOwner role .keep).Unfilled := by
  exact editOwner_keeps h h.ensure fun u hu id member =>
    ⟨hu.wellFormed.mapModules (links_editAt id .keep member),
      forall_module_editAt hu.modules (fun m hm => hm.keep member) id⟩

/-- Nothing is filled in when a tree is built from paths and symbols. -/
theorem unfilled_foldl_editOwner (paths : List ModulePath) (classified : List ClassifiedSymbol) :
    (classified.foldl (fun t s => t.editOwner s.role .keep) (ofPaths paths)).Unfilled := by
  have hpaths : (ofPaths paths).Unfilled :=
    List.foldlRecOn paths _ (motive := Unfilled) ⟨.empty, fun id m hm => by cases hm⟩
      fun t ht path _ => ht.ensure path
  exact List.foldlRecOn classified _ hpaths fun t ht s _ => ht.editOwner s.role

/-- The module at the end of a path has the last name on it, and its text spells the path. -/
theorem WellFormed.eq_of_moduleAt?_concat (h : t.WellFormed) {path : List String} {name : String}
    {m : Module} (hm : t.moduleAt? (path ++ [name]) = some m) :
    m.name = name ∧ m.path = Text.qualified (path ++ [name]) := by
  obtain ⟨id, hplace, hid⟩ := moduleAt?_eq_some_iff.mp hm
  refine ⟨?_, h.path_eq_qualified hplace hid⟩
  obtain ⟨start, id', -, hfind, heq⟩ := placeAt?_concat_eq_some_iff.mp hplace
  obtain rfl := Option.some.inj heq
  obtain ⟨m', hm', hname, -⟩ := h.entry hfind
  obtain rfl := Option.some.inj (hid.symm.trans hm')
  exact hname

variable {paths paths' : List ModulePath} {classified classified' : List ClassifiedSymbol}

/-- The entities of a module are told by which symbols there are. -/
theorem BuiltFrom.has_congr (ht : BuiltFrom paths classified t)
    (hu : BuiltFrom paths' classified' u)
    (hclassified : ∀ s, s ∈ classified ↔ s ∈ classified') {path : List String} {m n : Module}
    (hm : t.moduleAt? path = some m) (hn : u.moduleAt? path = some n) (member : Member) :
    m.Has member ↔ n.Has member := by
  have hnames : ∀ select name, name ∈ memberNames classified path select ↔
      name ∈ memberNames classified' path select := by
    intro select name
    simp only [mem_memberNames_iff, hclassified]
  cases member with
  | self => exact Iff.rfl
  | input name => simp only [Module.Has, ht.inputs path m hm, hu.inputs path n hn, hnames]
  | procedure name =>
    simp only [Module.Has, ht.procedures path m hm, hu.procedures path n hn, hnames]
  | argument procedure name =>
    simp only [Module.Has, ht.arguments path m procedure hm, hu.arguments path n procedure hn,
      hnames]

/-- Trees built from the same paths and symbols in any order are alike. -/
theorem BuiltFrom.alike (ht : BuiltFrom paths classified t) (hu : BuiltFrom paths' classified' u)
    (htUnfilled : t.Unfilled) (huUnfilled : u.Unfilled)
    (hpaths : ∀ path, path ∈ paths ↔ path ∈ paths')
    (hclassified : ∀ s, s ∈ classified ↔ s ∈ classified') : t.Alike u := by
  refine alike_of_moduleAt?_rel fun path => ?_
  have hexists : (∃ m, t.moduleAt? path = some m) ↔ ∃ n, u.moduleAt? path = some n := by
    simp only [ht.exists_moduleAt?_iff, hu.exists_moduleAt?_iff, hpaths]
  cases hm : t.moduleAt? path with
  | none =>
    cases hn : u.moduleAt? path with
    | none => exact .none
    | some n => simp [hm, hn] at hexists
  | some m =>
    obtain ⟨n, hn⟩ := hexists.mp ⟨m, hm⟩
    rw [hn]
    obtain rfl | ⟨above, name, rfl⟩ := List.eq_nil_or_concat' path
    · cases hm
    obtain ⟨hname, hpath⟩ := ht.wellFormed.eq_of_moduleAt?_concat hm
    obtain ⟨hname', hpath'⟩ := hu.wellFormed.eq_of_moduleAt?_concat hn
    obtain ⟨id, -, hid⟩ := moduleAt?_eq_some_iff.mp hm
    obtain ⟨id', -, hid'⟩ := moduleAt?_eq_some_iff.mp hn
    exact .some ((htUnfilled.modules id m hid).alike (huUnfilled.modules id' n hid')
      (hname.trans hname'.symm) (hpath.trans hpath'.symm) (ht.has_congr hu hclassified hm hn))

/-! ## Records -/

/-- Trees that are alike and have an entity stay alike when it is edited. -/
theorem Alike.edit (h : t.Alike u) (ht : t.WellFormed) (hu : u.WellFormed) {path : ModulePath}
    {member : Member} (htDeclares : t.Declares path.segments member)
    (huDeclares : u.Declares path.segments member) (e : Edit) :
    (t.edit path member e).Alike (u.edit path member e) := by
  intro place other
  rw [ht.entityAt?_edit htDeclares, hu.entityAt?_edit huDeclares, h place other]

variable {snapshot snapshot' : Snapshot} {sections : SectionSettings} {t' u' : ModuleTree}

section

variable (hdemangle : ∀ symbol, snapshot.demangle symbol = snapshot'.demangle symbol)
  (hrole : ∀ r : RelocationRecord, r.pointerRole? classified = r.pointerRole? classified')

include hdemangle hrole

/-- A record does the same to trees that are alike. -/
theorem Alike.link? (h : t.Alike u) (ht : t.Holds classified) (hu : u.Holds classified')
    {r : RelocationRecord} {applied applied' : Bool}
    (htLink : t.link? snapshot sections classified r = .ok (t', applied))
    (huLink : u.link? snapshot' sections classified' r = .ok (u', applied')) :
    t'.Alike u' ∧ applied = applied' := by
  unfold ModuleTree.link? at htLink huLink
  rw [← hrole] at huLink
  cases hpointer : r.pointerRole? classified with
  | none =>
    simp only [hpointer, Except.ok.injEq, Prod.mk.injEq] at htLink huLink
    obtain ⟨⟨rfl, rfl⟩, rfl, rfl⟩ := And.intro htLink huLink
    exact ⟨h, rfl⟩
  | some role =>
    cases htarget : r.target? sections with
    | none =>
      simp only [hpointer, htarget, Except.ok.injEq, Prod.mk.injEq] at htLink huLink
      obtain ⟨⟨rfl, rfl⟩, rfl, rfl⟩ := And.intro htLink huLink
      exact ⟨h, rfl⟩
    | some target =>
      -- The role is one of a classified symbol of either survey, so both trees have its entity.
      obtain ⟨s, hs, rfl, -, -⟩ := exists_of_pointerRole? hpointer
      obtain ⟨s', hs', hsame, -, -⟩ := exists_of_pointerRole? ((hrole r).symm.trans hpointer)
      simp only [hpointer, htarget, ← hdemangle] at htLink huLink
      cases hresult : snapshot.demangle target.symbol with
      | error fault => simp [hresult] at htLink
      | ok unmangled =>
        cases howner : s.role.owner? with
        | none =>
          simp only [hresult, howner, Except.ok.injEq, Prod.mk.injEq] at htLink huLink
          obtain ⟨⟨rfl, rfl⟩, rfl, rfl⟩ := And.intro htLink huLink
          exact ⟨h, rfl⟩
        | some owner =>
          obtain ⟨path, member⟩ := owner
          simp only [hresult, howner, Except.ok.injEq, Prod.mk.injEq] at htLink huLink
          obtain ⟨⟨rfl, rfl⟩, rfl, rfl⟩ := And.intro htLink huLink
          exact ⟨h.edit ht.wellFormed hu.wellFormed (ht.declares s hs path member howner)
            (hu.declares s' hs' path member (hsame ▸ howner)) _, rfl⟩

/-- Records do the same to trees that are alike. -/
theorem Alike.linkAll (h : t.Alike u) (ht : t.Holds classified) (hu : u.Holds classified')
    {records : List RelocationRecord} {count count' : Nat}
    (htLink : ModuleTree.linkAll snapshot sections classified t records = .ok (t', count))
    (huLink : ModuleTree.linkAll snapshot' sections classified' u records = .ok (u', count')) :
    t'.Alike u' ∧ count = count' := by
  induction records generalizing t u count count' with
  | nil =>
    obtain ⟨rfl, rfl⟩ := Prod.mk.inj (Except.ok.inj htLink)
    obtain ⟨rfl, rfl⟩ := Prod.mk.inj (Except.ok.inj huLink)
    exact ⟨h, rfl⟩
  | cons r records ih =>
    obtain ⟨tMid, applied, rest, htMid, htRest, rfl⟩ := linkAll_cons_eq_ok_iff.mp htLink
    obtain ⟨uMid, applied', rest', huMid, huRest, rfl⟩ := linkAll_cons_eq_ok_iff.mp huLink
    obtain ⟨hmid, rfl⟩ := h.link? hdemangle hrole ht hu htMid huMid
    obtain ⟨hlast, rfl⟩ := ih hmid (ht.link? htMid).1 (hu.link? huMid).1 htRest huRest
    exact ⟨hlast, rfl⟩

end

end ModuleTree

end FirmwareModel
