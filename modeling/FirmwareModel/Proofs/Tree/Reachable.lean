import FirmwareModel.Proofs.Text.Qualified
import FirmwareModel.Proofs.Tree.Ancestors
import FirmwareModel.Proofs.Tree.Outline

/-!
# Trees that can be built

A tree tells three times over which module encloses which: by the tables of children, by the
references to enclosing modules and by the texts of paths. Whatever is built from the empty tree by
making sure of module paths and by editing entities keeps the three in agreement, so the text of a
module's path leads back to that module, and following the references outwards meets the modules
at the beginnings of its path.
-/

namespace FirmwareModel

/-- A further name goes behind a separator. -/
theorem Text.qualified_concat {path : List String} (hpath : path ≠ []) (name : String) :
    qualified (path ++ [name]) = qualified path ++ "::" ++ name := by
  rw [← String.toList_inj, toList_qualified, List.map_append,
    joinSegments_append (by simpa using hpath) (by simp)]
  simp [toList_qualified, joinSegments]

/-- The entities of a module are kept under their own names when those of a module with the same
outline are. -/
theorem Module.Keyed.of_outline_eq {m n : Module} (h : m.Keyed) (heq : n.outline = m.outline) :
    n.Keyed := by
  rw [← Module.keyed_outline_iff, heq, Module.keyed_outline_iff]
  exact h

/-- Modules of the same outline have the same place. -/
theorem Module.links_of_outline_eq {m n : Module} (h : m.outline = n.outline) :
    m.links = n.links := by
  have houtline : m.outline.links = n.outline.links := congrArg Module.links h
  exact houtline

namespace ModuleTree

variable {t : ModuleTree}

/-- The trees that can be built from the empty one. -/
inductive Reachable : ModuleTree → Prop
  | empty : Reachable .empty
  | ensure {t : ModuleTree} (path : ModulePath) : Reachable t → Reachable (t.ensure path).1
  /-- The entity of a role is made sure of and edited. -/
  | editOwner {t : ModuleTree} (role : Role) (e : Edit) :
    Reachable t → Reachable (t.editOwner role e)
  /-- Descriptions, callables, storage and marks are rewritten at will: all that an outline leaves
  out. -/
  | refill {t : ModuleTree} (f : Nat → Module → Module)
    (hf : ∀ id m, (f id m).outline = m.outline) : Reachable t → Reachable (t.mapModules f)

/-- An edit first makes sure of the module, and then changes it in place. -/
theorem edit_eq_mapModules (t : ModuleTree) (path : ModulePath) (member : Member) (e : Edit) :
    t.edit path member e =
      (t.ensure path).1.mapModules fun i m =>
        if i = (t.ensure path).2 then m.edit e member else m :=
  modifyModule_eq_mapModules _ _ _

/-- What `ensure` keeps, and a change of all modules in place, an edit of an entity keeps. -/
theorem editOwner_keeps {p : ModuleTree → Prop} {role : Role} {e : Edit} (ht : p t)
    (hensure : ∀ path, p (t.ensure path).1)
    (hedit : ∀ u : ModuleTree, p u → ∀ id member,
      p (u.mapModules fun i m => if i = id then m.edit e member else m)) :
    p (t.editOwner role e) := by
  unfold editOwner
  split
  case h_1 path member howner =>
    rw [edit_eq_mapModules]
    exact hedit _ (hensure path) _ member
  case h_2 => exact ht

namespace Reachable

/-- A built tree is well-formed. -/
theorem wellFormed (h : t.Reachable) : t.WellFormed := by
  induction h with
  | empty => exact .empty
  | ensure path _ ih => exact ih.ensure path
  | editOwner role e _ ih =>
    exact editOwner_keeps ih ih.ensure fun u hu id member =>
      hu.mapModules (links_editAt id e member)
  | refill f hf _ ih => exact ih.mapModules fun id m => Module.links_of_outline_eq (hf id m)

/-- The modules of a built tree keep their entities under their own names. -/
theorem keyed (h : t.Reachable) : ∀ id m, t.module? id = some m → m.Keyed := by
  have hensure : ∀ {t : ModuleTree}, t.Reachable → (∀ id m, t.module? id = some m → m.Keyed) →
      ∀ path id m, (t.ensure path).1.module? id = some m → m.Keyed := by
    intro t ht hkeyed path
    exact ht.wellFormed.forall_module_ensure (fun _ _ _ => ⟨Table.All.empty, Table.All.empty⟩)
      (fun m _ hm => ⟨hm.inputs, hm.procedures⟩) hkeyed path
  induction h with
  | empty =>
    intro id m hm
    cases hm
  | ensure path ht ih => exact hensure ht ih path
  | editOwner role e ht ih =>
    exact editOwner_keeps (p := fun u => ∀ id m, u.module? id = some m → m.Keyed) ih
      (hensure ht ih) fun u hu id member =>
        forall_module_editAt hu (fun m hm => hm.edit e member) id
  | refill f hf _ ih =>
    intro id m hm
    obtain ⟨old, hold, rfl⟩ := Option.map_eq_some_iff.mp (module?_mapModules _ f id ▸ hm)
    exact (ih id old hold).of_outline_eq (hf id old)

/-- Whatever path leads to a module of a built tree is the beginning of a module path. -/
theorem exists_prefix (h : t.Reachable) :
    ∀ path, path ≠ [] → (t.placeAt? path).isSome → ∃ p : ModulePath, path <+: p.segments := by
  have hensure : ∀ {t : ModuleTree}, t.Reachable →
      (∀ path, path ≠ [] → (t.placeAt? path).isSome → ∃ p : ModulePath, path <+: p.segments) →
      ∀ q path, path ≠ [] → ((t.ensure q).1.placeAt? path).isSome →
        ∃ p : ModulePath, path <+: p.segments := by
    intro t ht hall q path hne hplace
    obtain rfl | ⟨above, name, rfl⟩ := List.eq_nil_or_concat' path
    · exact absurd rfl hne
    -- The last name was there before, or it is the one that arrived.
    rw [← mem_childNames_iff, childNames_ensure ht.wellFormed] at hplace
    cases hnext : nextName? above q.segments with
    | none =>
      rw [hnext, Option.elim_none, mem_childNames_iff] at hplace
      exact hall _ hne hplace
    | some next =>
      rw [hnext, Option.elim_some, arrive] at hplace
      split at hplace
      · exact hall _ hne (mem_childNames_iff.mp hplace)
      · rcases List.mem_append.mp hplace with hold | hnew
        · exact hall _ hne (mem_childNames_iff.mp hold)
        · obtain rfl := List.mem_singleton.mp hnew
          exact ⟨q, nextName?_eq_some_iff.mp hnext⟩
  induction h with
  | empty =>
    intro path hne hplace
    cases path with
    | nil => exact absurd rfl hne
    | cons name names => cases hplace
  | ensure path ht ih => exact hensure ht ih path
  | editOwner role e ht ih =>
    refine editOwner_keeps (p := fun u => ∀ path, path ≠ [] → (u.placeAt? path).isSome →
      ∃ p : ModulePath, path <+: p.segments) ih (hensure ht ih)
      fun u hu id member path hne hplace => ?_
    rw [placeAt?_mapModules fun i m =>
      (Module.links_eq_iff.mp (links_editAt id e member i m)).2.2.2] at hplace
    exact hu path hne hplace
  | refill f hf _ ih =>
    intro path hne hplace
    rw [placeAt?_mapModules fun id m =>
      (Module.links_eq_iff.mp (Module.links_of_outline_eq (hf id m))).2.2.2] at hplace
    exact ih path hne hplace

end Reachable

/-! ## The place of a module -/

namespace WellFormed

/-- Every module is at the end of a path, whose last name is its own. -/
theorem exists_placeAt? (h : t.WellFormed) {id : Nat} {m : Module} (hm : t.module? id = some m) :
    ∃ path, t.placeAt? path = some m.parent ∧ t.placeAt? (path ++ [m.name]) = some (some id) := by
  induction id using Nat.strongRecOn generalizing m with
  | ind id ih =>
    have hentered := h.entered hm
    have habove : ∃ path, t.placeAt? path = some m.parent := by
      cases hparent : m.parent with
      | none => exact ⟨[], rfl⟩
      | some p =>
        have hlt := h.parent_lt hm hparent
        have hsize := module?_lt hm
        obtain ⟨above, habove⟩ :=
          Option.isSome_iff_exists.mp (module?_isSome_iff.mpr (hlt.trans hsize))
        obtain ⟨path, -, hplace⟩ := ih p hlt habove
        exact ⟨_, hplace⟩
    obtain ⟨path, hpath⟩ := habove
    exact ⟨path, hpath, placeAt?_concat_eq_some_iff.mpr ⟨_, id, hpath, hentered, rfl⟩⟩

/-- The path of a module is spelled by the names that lead to it. -/
theorem path_eq_qualified (h : t.WellFormed) {path : List String} {id : Nat} {m : Module}
    (hplace : t.placeAt? path = some (some id)) (hm : t.module? id = some m) :
    m.path = Text.qualified path := by
  induction path using List.reverseRecOn generalizing id m with
  | nil => simp at hplace
  | append_singleton path name ih =>
    obtain ⟨start, id', hstart, hfind, hid⟩ := placeAt?_concat_eq_some_iff.mp hplace
    obtain rfl := Option.some.inj hid
    obtain ⟨m', hm', hname, hparent⟩ := h.entry hfind
    obtain rfl := Option.some.inj (hm.symm.trans hm')
    rw [h.path_eq hm, hname, hparent]
    cases start with
    | none =>
      obtain rfl := placeAt?_eq_some_none_iff.mp hstart
      simp [childPath, Text.qualified, Text.joinSegments]
    | some p =>
      have hne : path ≠ [] := by
        rintro rfl
        simp at hstart
      obtain ⟨above, habove⟩ := h.exists_module?_of_placeAt? hstart
      rw [Text.qualified_concat hne, ← ih hstart habove]
      simp [childPath, habove]

/-- The text of a module's path is that of the module that encloses it, a separator and its name,
or its name alone. -/
theorem path_eq_join (h : t.WellFormed) {id : Nat} {m : Module} (hm : t.module? id = some m) :
    (m.parent = none → m.path = m.name) ∧
      ∀ p, m.parent = some p → ∃ above, t.module? p = some above ∧
        m.path = above.path ++ "::" ++ m.name := by
  have hpath := h.path_eq hm
  refine ⟨fun hparent => ?_, fun p hparent => ?_⟩
  · rw [hpath, hparent]
    rfl
  · obtain ⟨above, habove⟩ := Option.isSome_iff_exists.mp
      (module?_isSome_iff.mpr ((h.parent_lt hm hparent).trans (module?_lt hm)))
    refine ⟨above, habove, ?_⟩
    rw [hpath, hparent]
    simp [childPath, habove]

/-- A module is entered under its name where it refers to, and nowhere else. -/
theorem find?_children_iff (h : t.WellFormed) {id : Nat} {m : Module}
    (hm : t.module? id = some m) {start : Option Nat} {name : String} :
    (t.children start).find? name = some id ↔ start = m.parent ∧ name = m.name := by
  constructor
  · intro hfind
    obtain ⟨m', hm', rfl, rfl⟩ := h.entry hfind
    obtain rfl := Option.some.inj (hm.symm.trans hm')
    exact ⟨rfl, rfl⟩
  · rintro ⟨rfl, rfl⟩
    exact h.entered hm

end WellFormed

/-- What leads to a place leads, cut short, to a place. -/
theorem placeAt?_isSome_of_prefix_of_isSome {path other : List String} (hpre : other <+: path)
    (hplace : (t.placeAt? path).isSome) : (t.placeAt? other).isSome := by
  obtain ⟨back, rfl⟩ := hpre
  obtain ⟨place, hplace⟩ := Option.isSome_iff_exists.mp hplace
  rw [placeAt?, List.foldlM_append, ← placeAt?] at hplace
  obtain ⟨mid, hmid, -⟩ := Option.bind_eq_some_iff.mp hplace
  exact Option.isSome_of_eq_some hmid

namespace Reachable

variable {path : List String} {id : Nat} {m : Module}

/-- The path of a module is cut back into the names that lead to the module, even if these hold
colons: they are the first segments of a module path. -/
theorem segments_path (h : t.Reachable) (hplace : t.placeAt? path = some (some id))
    (hm : t.module? id = some m) : Text.segments m.path = path := by
  have hne : path ≠ [] := by
    rintro rfl
    simp at hplace
  obtain ⟨p, hpre⟩ := h.exists_prefix path hne (Option.isSome_of_eq_some hplace)
  rw [h.wellFormed.path_eq_qualified hplace hm]
  exact Text.segments_qualified_of_prefix hne hpre

/-- The segments of a module's path lead to the module. -/
theorem placeAt?_segments (h : t.Reachable) (hm : t.module? id = some m) :
    t.placeAt? (Text.segments m.path) = some (some id) := by
  obtain ⟨path, -, hplace⟩ := h.wellFormed.exists_placeAt? hm
  rw [h.segments_path hplace hm]
  exact hplace

/-- The text of a module's path is a module path, and it names that module. -/
theorem find?_path (h : t.Reachable) (hm : t.module? id = some m) :
    ∃ p, ModulePath.ofText? m.path = some p ∧ t.find? p = some id := by
  have hplace := h.placeAt?_segments hm
  have hne : Text.segments m.path ≠ [] := by
    intro hnil
    simp [hnil] at hplace
  obtain ⟨p, hpre⟩ := h.exists_prefix _ hne (Option.isSome_of_eq_some hplace)
  have hnonempty : "" ∉ Text.segments m.path := fun hmem =>
    p.segments_nonempty (hpre.subset hmem)
  refine ⟨⟨m.path, hnonempty⟩, ?_, findFrom?_none_eq_some_iff.mpr hplace⟩
  exact ModulePath.ofText?_text ⟨m.path, hnonempty⟩

/-- Different modules have different paths. -/
theorem path_injective (h : t.Reachable) {other : Nat} {n : Module} (hm : t.module? id = some m)
    (hn : t.module? other = some n) (hpath : m.path = n.path) : id = other := by
  have hplace := h.placeAt?_segments hm
  rw [hpath, h.placeAt?_segments hn] at hplace
  exact (Option.some.inj (Option.some.inj hplace)).symm

end Reachable

/-! ## Following references outwards -/

/-- The modules that are met by following the references to enclosing modules to their end. -/
inductive Chain (t : ModuleTree) : Option Nat → List Module → Prop
  | done : Chain t none []
  | step {id : Nat} {m : Module} {enclosing : List Module} :
    t.module? id = some m → Chain t m.parent enclosing → Chain t (some id) (m :: enclosing)

/-- With room for more modules than come before it, a walk outwards reaches the end. -/
theorem WellFormed.chain_ancestorsUpTo (h : t.WellFormed) {id bound : Nat} (hid : id < t.size)
    (hbound : id < bound) : t.Chain (some id) (t.ancestorsUpTo bound (some id)) := by
  induction bound generalizing id with
  | zero => omega
  | succ bound ih =>
    obtain ⟨m, hm⟩ := Option.isSome_iff_exists.mp (module?_isSome_iff.mpr hid)
    simp only [ancestorsUpTo, hm]
    refine .step hm ?_
    cases hparent : m.parent with
    | none => cases bound <;> exact .done
    | some p =>
      have hlt := h.parent_lt hm hparent
      exact ih (by omega) (by omega)

/-- The chain of a module consists of the modules at the beginnings of its path, the longest one
first. -/
theorem Reachable.map_some_ancestors (h : t.Reachable) {id : Nat} {m : Module}
    (hm : t.module? id = some m) :
    (t.ancestors id).map some = (enclosingPaths (Text.segments m.path)).map t.moduleAt? := by
  have hplace := h.placeAt?_segments hm
  have hall : ∀ other ∈ enclosingPaths (Text.segments m.path), (t.moduleAt? other).isSome := by
    intro other hother
    obtain ⟨hne, hpre⟩ := mem_enclosingPaths_iff.mp hother
    obtain ⟨place, hotherPlace⟩ := Option.isSome_iff_exists.mp
      (placeAt?_isSome_of_prefix_of_isSome hpre (Option.isSome_of_eq_some hplace))
    cases place with
    | none => exact absurd (placeAt?_eq_some_none_iff.mp hotherPlace) hne
    | some id' =>
      obtain ⟨n, hn⟩ := h.wellFormed.exists_module?_of_placeAt? hotherPlace
      exact Option.isSome_of_eq_some (moduleAt?_eq_some_iff.mpr ⟨id', hotherPlace, hn⟩)
  rw [h.wellFormed.ancestors_eq hplace]
  generalize enclosingPaths (Text.segments m.path) = paths at hall
  induction paths with
  | nil => rfl
  | cons path paths ih =>
    obtain ⟨n, hn⟩ := Option.isSome_iff_exists.mp (hall path (by simp))
    rw [List.filterMap_cons_some hn, List.map_cons, List.map_cons, hn,
      ih fun other hother => hall other (by simp [hother])]

/-! ## The three accounts agree -/

/-- The tables of children, the references to enclosing modules and the texts of paths tell the same
hierarchy, and entities are kept under their own names. -/
structure Coherent (t : ModuleTree) : Prop where
  /-- Whatever is entered as a root or as a child is a module of the tree. -/
  entered_lt : ∀ start, ∀ id ∈ (t.children start).values, id < t.size
  /-- What a module refers to as enclosing it is a module of the tree, and comes before it. -/
  parent_lt : ∀ id m p, t.module? id = some m → m.parent = some p → p < t.size ∧ p < id
  /-- A module is entered once, under its name: where it refers to, or among the roots. -/
  entered_iff : ∀ id m, t.module? id = some m → ∀ start name,
    (name, id) ∈ (t.children start).entries ↔ start = m.parent ∧ name = m.name
  path_of_root : ∀ id m, t.module? id = some m → m.parent = none → m.path = m.name
  path_of_child : ∀ id m p, t.module? id = some m → m.parent = some p →
    ∃ above, t.module? p = some above ∧ m.path = above.path ++ "::" ++ m.name
  path_injective : ∀ id m other n, t.module? id = some m → t.module? other = some n →
    m.path = n.path → id = other
  /-- The text of a path is read as a module path, which names the module. -/
  find?_path : ∀ id m, t.module? id = some m →
    ∃ p, ModulePath.ofText? m.path = some p ∧ t.find? p = some id
  keyed : ∀ id m, t.module? id = some m → m.Keyed
  /-- The ancestors of a module are the whole chain of references from it. -/
  chain : ∀ id m, t.module? id = some m → t.Chain (some id) (t.ancestors id)
  /-- They are the modules at the beginnings of its path, the longest first. -/
  ancestors : ∀ id m, t.module? id = some m →
    (t.ancestors id).map some = (enclosingPaths (Text.segments m.path)).map t.moduleAt?

/-- Every tree that can be built by making sure of module paths and by editing entities is
coherent. -/
theorem coherent_of_reachable (h : t.Reachable) : t.Coherent := by
  have hwellFormed := h.wellFormed
  constructor
  case entered_lt =>
    intro start id hid
    obtain ⟨name, hfind⟩ := Table.mem_values_iff.mp hid
    obtain ⟨m, hm, -, -⟩ := hwellFormed.entry hfind
    exact module?_lt hm
  case parent_lt =>
    intro id m p hm hp
    have hlt := hwellFormed.parent_lt hm hp
    exact ⟨hlt.trans (module?_lt hm), hlt⟩
  case entered_iff =>
    intro id m hm start name
    rw [← Table.find?_eq_some_iff, hwellFormed.find?_children_iff hm]
  case path_of_root => exact fun id m hm => (hwellFormed.path_eq_join hm).1
  case path_of_child => exact fun id m p hm => (hwellFormed.path_eq_join hm).2 p
  case path_injective => exact fun id m other n => h.path_injective
  case find?_path => exact fun id m => h.find?_path
  case keyed => exact h.keyed
  case chain =>
    exact fun id m hm => hwellFormed.chain_ancestorsUpTo (module?_lt hm) (Nat.lt_succ_self id)
  case ancestors => exact fun id m => h.map_some_ancestors

/-- A tree with a module whose name begins with a colon, and with an argument that no symbol but
its own declares. -/
theorem coherent_lamp :
    let glow : ModulePath := ⟨"Lamp:::Glow::Ring", by decide⟩
    let pause := Role.argumentField glow "reset" "delay" .description
    let t := ((ModuleTree.empty.ensure glow).1.editOwner pause (.describe "pause")).mapModules
      fun _ m => { m with updateSuppressed := true }
    t.Reachable ∧ t.nodes.toList.map Module.name = ["Lamp", ":Glow", "Ring"] ∧ t.Coherent := by
  intro glow pause t
  have hreachable : t.Reachable :=
    .refill _ (fun _ _ => rfl) (.editOwner pause _ (.ensure glow .empty))
  exact ⟨hreachable, by decide, coherent_of_reachable hreachable⟩

end ModuleTree

end FirmwareModel
