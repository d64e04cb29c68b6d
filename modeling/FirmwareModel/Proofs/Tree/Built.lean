import FirmwareModel.Proofs.Tree.Filling

/-!
# Building trees from declarations

A tree is built from module paths, by making sure of each, and from classified symbols, by making
sure of the entity that each speaks of. When the symbols only speak of modules among the paths, the
built tree has exactly the modules on the way to the paths and the entities of the symbols, each
once and in order of arrival, and nothing is filled in.
-/

namespace FirmwareModel

/-- The names that a selection of entities of the module at a path has in the symbols, each where
it is first seen. -/
def memberNames (classified : List ClassifiedSymbol) (path : List String)
    (select : Member → Option String) : List String :=
  (classified.filterMap fun s => (s.role.memberAt? path).bind select).eraseDups

/-- One more symbol lets the name of its entity arrive, if that is selected. -/
theorem memberNames_concat (classified : List ClassifiedSymbol) (s : ClassifiedSymbol)
    (path : List String) (select : Member → Option String) :
    memberNames (classified ++ [s]) path select =
      ((s.role.memberAt? path).bind select).elim (memberNames classified path select)
        (arrive (memberNames classified path select)) := by
  rw [memberNames, List.filterMap_append]
  cases hselect : (s.role.memberAt? path).bind select with
  | none => simp [memberNames, hselect]
  | some name => simp [memberNames, hselect, eraseDups_concat]

/-- The names of members are those that symbols give to them. -/
theorem mem_memberNames_iff {classified : List ClassifiedSymbol} {path : List String}
    {select : Member → Option String} {name : String} :
    name ∈ memberNames classified path select ↔
      ∃ s ∈ classified, ∃ member, s.role.memberAt? path = some member ∧
        select member = some name := by
  simp [memberNames, Option.bind_eq_some_iff]

/-- A module that has no entities and of which nothing is filled in. -/
structure Module.Blank (m : Module) : Prop where
  inputs : m.inputs = .empty
  procedures : m.procedures = .empty
  callable : m.callable = none
  unsuppressed : m.updateSuppressed = false

namespace ModuleTree

variable {paths : List ModulePath} {classified : List ClassifiedSymbol} {t : ModuleTree}

/-- The modules of paths are blank. -/
theorem blank_ofPaths (paths : List ModulePath) :
    ∀ id m, (ofPaths paths).module? id = some m → m.Blank := by
  induction paths using List.reverseRecOn with
  | nil =>
    intro id m hm
    cases hm
  | append_singleton paths path ih =>
    rw [ofPaths_concat]
    exact (WellFormed.ofPaths paths).forall_module_ensure (fun _ _ _ => ⟨rfl, rfl, rfl, rfl⟩)
      (fun m _ h => ⟨h.inputs, h.procedures, h.callable, h.unsuppressed⟩) ih path

/-- A path leads to a module exactly when its last name is among the children of what is before. -/
theorem WellFormed.exists_moduleAt?_concat_iff (h : t.WellFormed) {path : List String}
    {name : String} : (∃ m, t.moduleAt? (path ++ [name]) = some m) ↔ name ∈ t.childNames path := by
  rw [mem_childNames_iff]
  constructor
  · rintro ⟨m, hm⟩
    obtain ⟨id, hplace, -⟩ := moduleAt?_eq_some_iff.mp hm
    simp [hplace]
  · intro hplace
    obtain ⟨place, hplace⟩ := Option.isSome_iff_exists.mp hplace
    obtain ⟨start, id, -, -, rfl⟩ := placeAt?_concat_eq_some_iff.mp hplace
    obtain ⟨m, hm⟩ := h.exists_module?_of_placeAt? hplace
    exact ⟨m, moduleAt?_eq_some_iff.mpr ⟨id, hplace, hm⟩⟩

/-! ## The built tree -/

/-- The tree has the modules on the way to the paths and the entities of the symbols, and nothing
is filled in. -/
structure BuiltFrom (paths : List ModulePath) (classified : List ClassifiedSymbol)
    (t : ModuleTree) : Prop where
  wellFormed : t.WellFormed
  childNames : ∀ path, t.childNames path = nextNames paths path
  inputs : ∀ path m, t.moduleAt? path = some m →
    m.inputs.keys = memberNames classified path Member.inputName?
  procedures : ∀ path m, t.moduleAt? path = some m →
    m.procedures.keys = memberNames classified path Member.procedureName?
  arguments : ∀ path m procedure, t.moduleAt? path = some m →
    m.argumentNames procedure = memberNames classified path (Member.argumentName? procedure)
  keyed : ∀ path m, t.moduleAt? path = some m → m.Keyed
  callableAt? : ∀ path member, t.callableAt? path member = none
  unsettled : ∀ snapshot, t.Unsettled snapshot

/-- Without symbols the tree is that of the paths. -/
theorem BuiltFrom.ofPaths (paths : List ModulePath) : BuiltFrom paths [] (ofPaths paths) := by
  have hblank : ∀ path m, (ModuleTree.ofPaths paths).moduleAt? path = some m → m.Blank := by
    intro path m hm
    obtain ⟨id, -, hid⟩ := moduleAt?_eq_some_iff.mp hm
    exact blank_ofPaths paths id m hid
  constructor
  case wellFormed => exact .ofPaths paths
  case childNames => exact childNames_ofPaths paths
  case inputs =>
    intro path m hm
    simp [(hblank path m hm).inputs, memberNames]
  case procedures =>
    intro path m hm
    simp [(hblank path m hm).procedures, memberNames]
  case arguments =>
    intro path m procedure hm
    simp [Module.argumentNames, (hblank path m hm).procedures, memberNames]
  case keyed =>
    intro path m hm
    constructor
    · rw [(hblank path m hm).inputs]
      exact Table.All.empty
    · rw [(hblank path m hm).procedures]
      exact Table.All.empty
  case callableAt? =>
    intro path member
    cases hm : (ModuleTree.ofPaths paths).moduleAt? path with
    | none => simp [ModuleTree.callableAt?, hm]
    | some m =>
      have hm' := hblank path m hm
      cases member <;>
        simp [ModuleTree.callableAt?, hm, Module.callable?, hm'.callable, hm'.inputs,
          hm'.procedures]
  case unsettled =>
    intro snapshot id m hm
    refine ⟨(blank_ofPaths paths id m hm).unsuppressed, ?_⟩
    rw [(blank_ofPaths paths id m hm).inputs]
    exact Table.All.empty

/-- The modules of the tree are those at the non-empty beginnings of the paths. -/
theorem BuiltFrom.exists_moduleAt?_iff (h : BuiltFrom paths classified t) {path : List String} :
    (∃ m, t.moduleAt? path = some m) ↔ path ≠ [] ∧ ∃ p ∈ paths, path <+: p.segments := by
  induction path using List.reverseRecOn with
  | nil =>
    simp only [ne_eq, not_true_eq_false, false_and, iff_false, not_exists]
    intro m hm
    cases hm
  | append_singleton path name =>
    rw [h.wellFormed.exists_moduleAt?_concat_iff, h.childNames, mem_nextNames_iff]
    simp

/-- Trees with the outline of the built tree keep their entities under their own names. -/
theorem BuiltFrom.keyed_of_outline_eq (h : BuiltFrom paths classified t) {u : ModuleTree}
    (houtline : u.outline = t.outline) {path : List String} {m : Module}
    (hm : u.moduleAt? path = some m) : m.Keyed := by
  obtain ⟨n, hn, hnm⟩ := exists_moduleAt?_of_outline_eq houtline hm
  rw [← Module.keyed_outline_iff, ← hnm, Module.keyed_outline_iff]
  exact h.keyed path n hn

/-- The paths themselves lead to modules. -/
theorem BuiltFrom.exists_moduleAt?_of_mem (h : BuiltFrom paths classified t) {p : ModulePath}
    (hp : p ∈ paths) : ∃ m, t.moduleAt? p.segments = some m :=
  h.exists_moduleAt?_iff.mpr ⟨p.segments_ne_nil, p, hp, List.prefix_refl _⟩

/-- When an edit lets the selected name of its entity arrive in a view of the module, and the view
shows the names of the symbols, then after making sure of one more entity it shows that one too. -/
theorem WellFormed.view_keep (h : t.WellFormed) (view : Module → List String)
    {select : Member → Option String}
    (hedit : ∀ m member, view (m.edit .keep member) =
      (select member).elim (view m) (arrive (view m)))
    (hview : ∀ path m, t.moduleAt? path = some m → view m = memberNames classified path select)
    {s : ClassifiedSymbol} {owner : ModulePath} {member : Member} {m : Module}
    (howner : s.role.owner? = some (owner, member)) (hm : t.moduleAt? owner.segments = some m) :
    ∀ path n, (t.edit owner member .keep).moduleAt? path = some n →
      view n = memberNames (classified ++ [s]) path select := by
  intro path n hn
  rw [h.moduleAt?_edit hm] at hn
  rw [memberNames_concat, Role.memberAt?, howner]
  by_cases hpath : path = owner.segments
  · subst hpath
    obtain rfl : m.edit .keep member = n := by simpa [hm] using hn
    simp [hedit, hview owner.segments m hm]
  · rw [if_neg hpath] at hn
    simp [hview path n hn, Ne.symm hpath]

/-- One more symbol adds its entity unless it is there, and nothing else. -/
theorem BuiltFrom.concat (h : BuiltFrom paths classified t) {s : ClassifiedSymbol}
    (hs : ∀ path member, s.role.owner? = some (path, member) → path ∈ paths) :
    BuiltFrom paths (classified ++ [s]) (t.editOwner s.role .keep) := by
  cases howner : s.role.owner? with
  | none =>
    -- A symbol without an entity adds nothing to the tree, and no name to any list of names.
    have hsame : ∀ path select,
        memberNames (classified ++ [s]) path select = memberNames classified path select := by
      intro path select
      simp [memberNames_concat, Role.memberAt?, howner]
    simp only [editOwner, howner]
    exact { h with
      inputs := by simpa only [hsame] using h.inputs
      procedures := by simpa only [hsame] using h.procedures
      arguments := by simpa only [hsame] using h.arguments }
  | some entity =>
    obtain ⟨owner, member⟩ := entity
    obtain ⟨m, hm⟩ := h.exists_moduleAt?_of_mem (hs owner member howner)
    simp only [editOwner, howner]
    constructor
    case wellFormed => exact h.wellFormed.edit hm member .keep
    case childNames =>
      intro path
      rw [WellFormed.childNames_edit hm, h.childNames]
    case inputs =>
      exact h.wellFormed.view_keep (fun m => m.inputs.keys) (Module.keys_inputs_edit .keep)
        h.inputs howner hm
    case procedures =>
      exact h.wellFormed.view_keep (fun m => m.procedures.keys)
        (Module.keys_procedures_edit .keep) h.procedures howner hm
    case arguments =>
      intro path n procedure hn
      exact h.wellFormed.view_keep (fun m => m.argumentNames procedure)
        (fun m member => m.argumentNames_edit .keep member procedure)
        (fun path m hm => h.arguments path m procedure hm) howner hm path n hn
    case keyed =>
      intro path n hn
      rw [h.wellFormed.moduleAt?_edit hm] at hn
      split at hn
      · obtain ⟨old, hold, rfl⟩ := Option.map_eq_some_iff.mp hn
        exact (h.keyed path old hold).edit .keep member
      · exact h.keyed path n hn
    case callableAt? =>
      intro path other
      have hkeep : Edit.keep.callableFor? member = none := by cases member <;> rfl
      rw [h.wellFormed.callableAt?_edit hm, h.callableAt?, hkeep, ite_self]
      rfl
    case unsettled => exact fun snapshot => (h.unsettled snapshot).edit hm member trivial

/-- With all symbols, the tree has all their entities. -/
theorem BuiltFrom.foldl_editOwner
    (howners : ∀ s ∈ classified, ∀ path member, s.role.owner? = some (path, member) →
      path ∈ paths) :
    BuiltFrom paths classified
      (classified.foldl (fun t s => t.editOwner s.role .keep) (ModuleTree.ofPaths paths)) := by
  induction classified using List.reverseRecOn with
  | nil => exact .ofPaths paths
  | append_singleton classified s ih =>
    rw [List.foldl_append]
    exact (ih fun s' hs' => howners s' (by simp [hs'])).concat (howners s (by simp))

/-- The built tree has the entity of every symbol. -/
theorem BuiltFrom.holds (h : BuiltFrom paths classified t)
    (howners : ∀ s ∈ classified, ∀ path member, s.role.owner? = some (path, member) →
      path ∈ paths) : t.Holds classified := by
  refine ⟨h.wellFormed, fun s hs path member howner => ?_⟩
  obtain ⟨m, hm⟩ := h.exists_moduleAt?_of_mem (howners s hs path member howner)
  have hmember : s.role.memberAt? path.segments = some member :=
    Role.memberAt?_eq_some_iff.mpr ⟨path, howner, rfl⟩
  refine ⟨m, hm, ?_⟩
  cases member with
  | self => trivial
  | input name =>
    rw [Module.Has, h.inputs path.segments m hm]
    exact mem_memberNames_iff.mpr ⟨s, hs, _, hmember, rfl⟩
  | procedure name =>
    rw [Module.Has, h.procedures path.segments m hm]
    exact mem_memberNames_iff.mpr ⟨s, hs, _, hmember, rfl⟩
  | argument procedure name =>
    rw [Module.Has, h.arguments path.segments m procedure hm]
    exact mem_memberNames_iff.mpr ⟨s, hs, _, hmember, if_pos rfl⟩

end ModuleTree

end FirmwareModel
