import FirmwareModel.Proofs.Tree.Reachable

/-!
# Modules changed where they are

A pass over a tree moves no module. What it makes of each is told by the path of the module, and
passes that follow each other change each module by one after the other.
-/

namespace FirmwareModel.ModuleTree

/-- One tree is the other with its modules changed as is told for their paths: it has the same
modules at the same places. -/
structure ChangedAt (change : List String → Module → Module) (t t' : ModuleTree) : Prop where
  roots : t'.roots = t.roots
  size : t'.size = t.size
  modules : ∀ id m, t.module? id = some m →
    ∃ path, t.placeAt? path = some (some id) ∧ t'.module? id = some (change path m)

variable {t t' t'' : ModuleTree} {change change' : List String → Module → Module}

/-- Modules that keep their children stay where they are. -/
theorem ChangedAt.placeAt? (h : ChangedAt change t t')
    (hmodules : ∀ path m, (change path m).modules = m.modules) (path : List String) :
    t'.placeAt? path = t.placeAt? path := by
  have hchildren : ∀ start, t'.children start = t.children start := by
    intro start
    cases start with
    | none => exact h.roots
    | some id =>
      cases hm : t.module? id with
      | none =>
        have hnone : t'.module? id = none := by
          rw [← Option.not_isSome_iff_eq_none, module?_isSome_iff, h.size, ← module?_isSome_iff, hm]
          simp
        simp [ModuleTree.children, hm, hnone]
      | some m =>
        obtain ⟨path, -, hm'⟩ := h.modules id m hm
        simp [ModuleTree.children, hm, hm', hmodules]
  simp only [ModuleTree.placeAt?, hchildren]

/-- What is told for the paths of the modules alone counts. -/
theorem ChangedAt.congr (h : ChangedAt change t t')
    (hchange : ∀ path id m, t.placeAt? path = some (some id) → t.module? id = some m →
      change path m = change' path m) : ChangedAt change' t t' where
  roots := h.roots
  size := h.size
  modules := by
    intro id m hm
    obtain ⟨path, hplace, hm'⟩ := h.modules id m hm
    exact ⟨path, hplace, by rw [hm', hchange path id m hplace hm]⟩

/-- A tree is that with no module changed. -/
theorem WellFormed.changedAt_refl (h : t.WellFormed) : ChangedAt (fun _ m => m) t t where
  roots := rfl
  size := rfl
  modules := by
    intro id m hm
    obtain ⟨path, -, hplace⟩ := h.exists_placeAt? hm
    exact ⟨path ++ [m.name], hplace, hm⟩

/-- Changes that follow each other. -/
theorem ChangedAt.trans (h : ChangedAt change t t') (h' : ChangedAt change' t' t'')
    (hwellFormed : t.WellFormed) (hmodules : ∀ path m, (change path m).modules = m.modules) :
    ChangedAt (fun path m => change' path (change path m)) t t'' where
  roots := h'.roots.trans h.roots
  size := h'.size.trans h.size
  modules := by
    intro id m hm
    obtain ⟨path, hplace, hm'⟩ := h.modules id m hm
    obtain ⟨path', hplace', hm''⟩ := h'.modules id _ hm'
    rw [h.placeAt? hmodules] at hplace'
    obtain rfl := hwellFormed.placeAt?_injective hplace hplace'
    exact ⟨path, hplace, hm''⟩

/-- An edit of an entity whose module is there changes that module. -/
theorem WellFormed.changedAt_edit (h : t.WellFormed) {path : ModulePath} {m : Module}
    (hm : t.moduleAt? path.segments = some m) (member : Member) (e : Edit) :
    ChangedAt (fun place m => if place = path.segments then m.edit e member else m) t
      (t.edit path member e) := by
  obtain ⟨id, hfind, hplace⟩ := exists_find?_of_moduleAt? hm
  rw [edit_of_find? hfind]
  refine ⟨rfl, by simp [ModuleTree.size, ModuleTree.mapModules], fun i n hn => ?_⟩
  obtain ⟨above, -, hplaceOther⟩ := h.exists_placeAt? hn
  refine ⟨above ++ [n.name], hplaceOther, ?_⟩
  have hsame : i = id ↔ above ++ [n.name] = path.segments := by
    constructor
    · rintro rfl
      exact h.placeAt?_injective hplaceOther hplace
    · intro hpath
      rw [hpath, hplace] at hplaceOther
      exact (Option.some.inj (Option.some.inj hplaceOther)).symm
  rw [module?_mapModules, hn, Option.map_some]
  simp only [hsame]

/-- A change that is that of the edit at its module, and none elsewhere, is what the edit makes. -/
theorem WellFormed.changedAt_edit_of_eq (h : t.WellFormed) {path : ModulePath} {m : Module}
    (hm : t.moduleAt? path.segments = some m) {member : Member} {e : Edit}
    (hedit : m.edit e member = change path.segments m)
    (hothers : ∀ place ≠ path.segments, ∀ n, change place n = n) :
    ChangedAt change t (t.edit path member e) := by
  obtain ⟨id, hplace, hid⟩ := moduleAt?_eq_some_iff.mp hm
  refine (h.changedAt_edit hm member e).congr fun place other n hplaceOther hn => ?_
  by_cases hsame : place = path.segments
  · subst hsame
    obtain rfl : id = other := Option.some.inj (Option.some.inj (hplace.symm.trans hplaceOther))
    obtain rfl : m = n := Option.some.inj (hid.symm.trans hn)
    rw [if_pos rfl, hedit]
  · rw [if_neg hsame, hothers place hsame]

end FirmwareModel.ModuleTree
