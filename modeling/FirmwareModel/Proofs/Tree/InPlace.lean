import FirmwareModel.Proofs.Tree.Ensure

/-!
# Changing modules in place

A change of modules that leaves their references alone moves nothing: every path leads where it
led, and a well-formed tree stays well-formed. An edit of an entity whose module is there is such
a change, and concerns the one module at the path of the entity.
-/

namespace FirmwareModel

/-- What a module tells about its place in the tree. -/
def Module.links (m : Module) : String × String × Option Nat × Table Nat :=
  (m.name, m.path, m.parent, m.modules)

/-- Modules have the same place when name, path, enclosing module and children are the same. -/
theorem Module.links_eq_iff {m n : Module} :
    m.links = n.links ↔
      m.name = n.name ∧ m.path = n.path ∧ m.parent = n.parent ∧ m.modules = n.modules := by
  simp [links]

/-- An edit of an entity leaves the place of its module alone. -/
theorem Module.links_edit (e : Edit) (m : Module) (member : Member) :
    (m.edit e member).links = m.links := by
  cases member with
  | self => cases e <;> rfl
  | input name => rfl
  | procedure name => rfl
  | argument procedure name => rfl

namespace ModuleTree

variable {t : ModuleTree} {f g : Nat → Module → Module}

/-! ## Changing every module -/

/-- A module is found changed under the index that it had. -/
@[simp] theorem module?_mapModules (t : ModuleTree) (f : Nat → Module → Module) (id : Nat) :
    (t.mapModules f).module? id = (t.module? id).map (f id) := by
  simp [mapModules, module?]

/-- A change of all modules depends only on what it does to those that are there. -/
theorem mapModules_congr (h : ∀ id m, t.module? id = some m → f id m = g id m) :
    t.mapModules f = t.mapModules g := by
  have hnodes : t.nodes.mapIdx f = t.nodes.mapIdx g := by
    apply Array.ext_getElem?
    intro id
    rw [Array.getElem?_mapIdx, Array.getElem?_mapIdx]
    cases hm : t.nodes[id]? with
    | none => rfl
    | some m => simp [h id m hm]
  simp [mapModules, hnodes]

/-- Two changes of all modules are one. -/
@[simp] theorem mapModules_mapModules (t : ModuleTree) (f g : Nat → Module → Module) :
    (t.mapModules f).mapModules g = t.mapModules fun id m => g id (f id m) := by
  simp [mapModules, Array.mapIdx_mapIdx, Function.comp_def]

/-- Changing no module changes nothing. -/
@[simp] theorem mapModules_id (t : ModuleTree) : (t.mapModules fun _ m => m) = t := by
  have hnodes : (t.nodes.mapIdx fun _ m => m) = t.nodes := by
    apply Array.ext_getElem?
    intro id
    rw [Array.getElem?_mapIdx]
    simp
  simp [mapModules, hnodes]

/-- A change of one module is a change of all modules that looks at their indices. -/
theorem modifyModule_eq_mapModules (t : ModuleTree) (id : Nat) (f : Module → Module) :
    t.modifyModule id f = t.mapModules fun i m => if i = id then f m else m := by
  have hnodes : t.nodes.modify id f = t.nodes.mapIdx fun i m => if i = id then f m else m := by
    apply Array.ext_getElem?
    intro i
    rw [Array.getElem?_modify, Array.getElem?_mapIdx]
    by_cases hi : id = i
    · simp [hi]
    · simp [hi, Ne.symm hi]
  simp [modifyModule, mapModules, hnodes]

section SameChildren

variable (h : ∀ id m, (f id m).modules = m.modules)

include h

/-- A change that leaves children alone leaves those of each module, and the roots. -/
theorem children_mapModules (start : Option Nat) :
    (t.mapModules f).children start = t.children start := by
  cases start with
  | none => rfl
  | some id =>
    simp only [children, module?_mapModules, Option.map_map]
    congr 2
    funext m
    exact h id m

/-- A change that leaves children alone leads every path where it led. -/
theorem placeAt?_mapModules (path : List String) :
    (t.mapModules f).placeAt? path = t.placeAt? path := by
  simp only [placeAt?, children_mapModules h]

/-- A change that leaves children alone leaves the names below every path. -/
theorem childNames_mapModules (path : List String) :
    (t.mapModules f).childNames path = t.childNames path := by
  simp only [childNames, placeAt?_mapModules h, children_mapModules h]

/-- The module at a path is the changed module that was there. -/
theorem moduleAt?_mapModules (path : List String) :
    (t.mapModules f).moduleAt? path =
      (t.placeAt? path).join.bind fun id => (t.module? id).map (f id) := by
  rw [moduleAt?, findFrom?_eq_join, ← placeAt?, placeAt?_mapModules h]
  congr 1
  funext id
  exact module?_mapModules t f id

end SameChildren

/-- The module at a path after all modules have been changed alike. -/
theorem moduleAt?_mapModules_const {f : Module → Module} (h : ∀ m, (f m).modules = m.modules)
    (path : List String) :
    (t.mapModules fun _ => f).moduleAt? path = (t.moduleAt? path).map f := by
  rw [moduleAt?_mapModules fun _ => h, moduleAt?, findFrom?_eq_join, ← placeAt?, Option.map_bind]
  rfl

/-- A tree stays well-formed when its modules keep their places. -/
theorem WellFormed.mapModules (h : t.WellFormed) (hlinks : ∀ id m, (f id m).links = m.links) :
    (t.mapModules f).WellFormed := by
  have hname : ∀ id m, (f id m).name = m.name :=
    fun id m => (Module.links_eq_iff.mp (hlinks id m)).1
  have hpath : ∀ id m, (f id m).path = m.path :=
    fun id m => (Module.links_eq_iff.mp (hlinks id m)).2.1
  have hparent : ∀ id m, (f id m).parent = m.parent :=
    fun id m => (Module.links_eq_iff.mp (hlinks id m)).2.2.1
  have hmodules : ∀ id m, (f id m).modules = m.modules :=
    fun id m => (Module.links_eq_iff.mp (hlinks id m)).2.2.2
  have hchildPath : ∀ parent name,
      (t.mapModules f).childPath parent name = t.childPath parent name := by
    intro parent name
    cases parent with
    | none => rfl
    | some p =>
      simp only [childPath, Option.bind_some, module?_mapModules]
      cases t.module? p <;> simp [hpath]
  constructor
  · intro start name id hfind
    rw [children_mapModules hmodules] at hfind
    obtain ⟨m, hm, hn, hp⟩ := h.entry hfind
    exact ⟨f id m, by simp [hm], by rw [hname, hn], by rw [hparent, hp]⟩
  · intro id m hm
    obtain ⟨old, hold, rfl⟩ := Option.map_eq_some_iff.mp (module?_mapModules t f id ▸ hm)
    rw [children_mapModules hmodules, hparent, hname]
    exact h.entered hold
  · intro id m p hm hp
    obtain ⟨old, hold, rfl⟩ := Option.map_eq_some_iff.mp (module?_mapModules t f id ▸ hm)
    exact h.parent_lt hold (hparent id old ▸ hp)
  · intro id m hm
    obtain ⟨old, hold, rfl⟩ := Option.map_eq_some_iff.mp (module?_mapModules t f id ▸ hm)
    rw [hpath, hparent, hname, hchildPath]
    exact h.path_eq hold

/-! ## Editing an entity -/

/-- A path that leads to a module, given by its segments. -/
theorem exists_find?_of_moduleAt? {path : ModulePath} {m : Module}
    (hm : t.moduleAt? path.segments = some m) :
    ∃ id, t.find? path = some id ∧ t.placeAt? path.segments = some (some id) := by
  obtain ⟨id, hplace, -⟩ := moduleAt?_eq_some_iff.mp hm
  exact ⟨id, findFrom?_none_eq_some_iff.mpr hplace, hplace⟩

/-- An edit of an entity whose module is there changes that module. -/
theorem edit_of_find? {path : ModulePath} {id : Nat} (hfind : t.find? path = some id)
    (member : Member) (e : Edit) :
    t.edit path member e = t.mapModules fun i m => if i = id then m.edit e member else m := by
  rw [edit, ensure_of_find? hfind]
  exact modifyModule_eq_mapModules t id _

/-- An edit of one module leaves the places of all modules alone. -/
theorem links_editAt (id : Nat) (e : Edit) (member : Member) (i : Nat) (m : Module) :
    (if i = id then m.edit e member else m).links = m.links := by
  split
  · exact Module.links_edit e m member
  · rfl

/-- What an edit keeps of a module, an edit of one module keeps of all. -/
theorem forall_module_editAt {p : Module → Prop} {e : Edit} {member : Member}
    (hall : ∀ i m, t.module? i = some m → p m) (hedit : ∀ m, p m → p (m.edit e member))
    (id : Nat) : ∀ i m,
      (t.mapModules fun i m => if i = id then m.edit e member else m).module? i = some m → p m := by
  intro i m hm
  obtain ⟨old, hold, rfl⟩ := Option.map_eq_some_iff.mp (module?_mapModules t _ i ▸ hm)
  split
  · exact hedit old (hall i old hold)
  · exact hall i old hold

namespace WellFormed

variable {path : ModulePath}

/-- A tree stays well-formed when an entity of a module that is there is edited. -/
theorem edit (h : t.WellFormed) {m : Module} (hm : t.moduleAt? path.segments = some m)
    (member : Member) (e : Edit) : (t.edit path member e).WellFormed := by
  obtain ⟨id, hfind, -⟩ := exists_find?_of_moduleAt? hm
  rw [edit_of_find? hfind]
  exact h.mapModules (links_editAt id e member)

/-- An edit shows at the path of its module only. -/
theorem moduleAt?_edit (h : t.WellFormed) {m : Module}
    (hm : t.moduleAt? path.segments = some m) (member : Member) (e : Edit) (other : List String) :
    (t.edit path member e).moduleAt? other =
      if other = path.segments then (t.moduleAt? other).map fun m => m.edit e member
      else t.moduleAt? other := by
  obtain ⟨id, hfind, hplace⟩ := exists_find?_of_moduleAt? hm
  rw [edit_of_find? hfind, moduleAt?_mapModules fun i m =>
    (Module.links_eq_iff.mp (links_editAt id e member i m)).2.2.2, moduleAt?, findFrom?_eq_join,
    ← placeAt?]
  cases hother : (t.placeAt? other).join with
  | none => simp
  | some i =>
    have hsame : i = id ↔ other = path.segments := by
      rw [Option.join_eq_some_iff] at hother
      constructor
      · rintro rfl
        exact h.placeAt?_injective hother hplace
      · rintro rfl
        exact Option.some.inj (Option.some.inj (hother.symm.trans hplace))
    by_cases hi : i = id
    · simp [hi, ← hsame]
    · have hne : other ≠ path.segments := fun heq => hi (hsame.mpr heq)
      simp [hi, hne]

/-- An edit of an entity whose module is there leaves the names below every path. -/
theorem childNames_edit {m : Module} (hm : t.moduleAt? path.segments = some m)
    (member : Member) (e : Edit) (other : List String) :
    (t.edit path member e).childNames other = t.childNames other := by
  obtain ⟨id, hfind, -⟩ := exists_find?_of_moduleAt? hm
  rw [edit_of_find? hfind]
  exact childNames_mapModules
    (fun i m => (Module.links_eq_iff.mp (links_editAt id e member i m)).2.2.2) other

end WellFormed

end ModuleTree

end FirmwareModel
