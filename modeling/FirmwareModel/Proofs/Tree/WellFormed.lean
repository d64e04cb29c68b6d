import Mathlib.Data.List.Basic
import Mathlib.Data.List.Induction
import FirmwareModel.Proofs.Table
import FirmwareModel.Tree.Basic

/-!
# Well-formed module trees

The modules of a tree refer to each other by index. In a well-formed tree the references agree:
what is entered as a child refers back, every module is entered, and a module comes behind the one
that encloses it. Walking down along names leads to a place, and different names lead to different
places. Adding a missing child keeps all this and changes one place only.
-/

namespace FirmwareModel.ModuleTree

/-! ## Places -/

/-- Where a walk down along names ends: above all modules if there are no names, else at a
module. -/
def placeAt? (t : ModuleTree) (path : List String) : Option (Option Nat) :=
  path.foldlM (fun start name => ((t.children start).find? name).map some) none

/-- The module at the end of a path of names. -/
def moduleAt? (t : ModuleTree) (path : List String) : Option Module :=
  (t.findFrom? none path).bind t.module?

/-- The names of the modules directly below a path, or of the roots, in order of arrival. -/
def childNames (t : ModuleTree) (path : List String) : List String :=
  ((t.placeAt? path).map fun start => (t.children start).keys).getD []

/-- No names lead nowhere but above all modules. -/
@[simp] theorem placeAt?_nil (t : ModuleTree) : t.placeAt? [] = some none := rfl

/-- One more name leads to the child of that name. -/
theorem placeAt?_concat (t : ModuleTree) (path : List String) (name : String) :
    t.placeAt? (path ++ [name]) =
      (t.placeAt? path).bind fun start => ((t.children start).find? name).map some := by
  rw [placeAt?, List.foldlM_append, ← placeAt?]
  cases t.placeAt? path <;> simp

/-- Names lead to a place when all but the last lead somewhere and the last is that of a child
there. -/
theorem placeAt?_concat_eq_some_iff {t : ModuleTree} {path : List String} {name : String}
    {place : Option Nat} :
    t.placeAt? (path ++ [name]) = some place ↔
      ∃ start id, t.placeAt? path = some start ∧ (t.children start).find? name = some id ∧
        place = some id := by
  rw [placeAt?_concat]
  simp only [Option.bind_eq_some_iff, Option.map_eq_some_iff]
  constructor
  · rintro ⟨start, hstart, id, hid, rfl⟩
    exact ⟨start, id, hstart, hid, rfl⟩
  · rintro ⟨start, id, hstart, hid, rfl⟩
    exact ⟨start, hstart, id, hid, rfl⟩

/-- Only the empty path leads above all modules. -/
theorem placeAt?_eq_some_none_iff {t : ModuleTree} {path : List String} :
    t.placeAt? path = some none ↔ path = [] := by
  induction path using List.reverseRecOn with
  | nil => simp
  | append_singleton path name => simp [placeAt?_concat_eq_some_iff]

/-- A name is among the children at a path exactly when the path can be continued by it. -/
theorem mem_childNames_iff {t : ModuleTree} {path : List String} {name : String} :
    name ∈ t.childNames path ↔ (t.placeAt? (path ++ [name])).isSome := by
  rw [placeAt?_concat, childNames]
  cases hplace : t.placeAt? path with
  | none => simp
  | some start => simp [Table.mem_keys_iff]

/-- Walking down with `findFrom?` ends at the same place. -/
theorem findFrom?_eq_join (t : ModuleTree) (start : Option Nat) (names : List String) :
    t.findFrom? start names =
      (names.foldlM (fun start name => ((t.children start).find? name).map some) start).join := by
  induction names generalizing start with
  | nil => rfl
  | cons name names ih =>
    rw [findFrom?, List.foldlM_cons]
    cases (t.children start).find? name with
    | none => rfl
    | some id => simpa using ih (some id)

/-- The module that a path of names finds is the one to which the names lead. -/
theorem findFrom?_none_eq_some_iff {t : ModuleTree} {path : List String} {id : Nat} :
    t.findFrom? none path = some id ↔ t.placeAt? path = some (some id) := by
  rw [findFrom?_eq_join, ← placeAt?, Option.join_eq_some_iff]

/-- The module at a path is the one to which its names lead. -/
theorem moduleAt?_eq_some_iff {t : ModuleTree} {path : List String} {m : Module} :
    t.moduleAt? path = some m ↔ ∃ id, t.placeAt? path = some (some id) ∧ t.module? id = some m := by
  simp only [moduleAt?, Option.bind_eq_some_iff, findFrom?_none_eq_some_iff]

/-! ## References that agree -/

/-- The references between the modules of a tree agree. -/
structure WellFormed (t : ModuleTree) : Prop where
  /-- What is entered under a name has that name and refers back to where it is entered. -/
  entry : ∀ {start name id}, (t.children start).find? name = some id →
    ∃ m, t.module? id = some m ∧ m.name = name ∧ m.parent = start
  /-- Each module is entered under its name where it refers to. -/
  entered : ∀ {id m}, t.module? id = some m → (t.children m.parent).find? m.name = some id
  /-- Each module comes behind the one that encloses it. -/
  parent_lt : ∀ {id m p}, t.module? id = some m → m.parent = some p → p < id
  /-- The path of a module is that of a child with its name. -/
  path_eq : ∀ {id m}, t.module? id = some m → m.path = t.childPath m.parent m.name

/-- The index of a module is less than the number of modules. -/
theorem module?_lt {t : ModuleTree} {id : Nat} {m : Module} (hm : t.module? id = some m) :
    id < t.size :=
  (Array.getElem?_eq_some_iff.mp hm).1

/-- The indices of modules are the numbers less than their number. -/
theorem module?_isSome_iff {t : ModuleTree} {id : Nat} : (t.module? id).isSome ↔ id < t.size := by
  simp [module?, size]

/-- The tree without modules is well-formed. -/
theorem WellFormed.empty : ModuleTree.empty.WellFormed := by
  have hmodule : ∀ id, ModuleTree.empty.module? id = none := fun id => rfl
  have hchildren : ∀ start name, (ModuleTree.empty.children start).find? name = none := by
    intro start name
    cases start <;> rfl
  constructor <;> simp [hmodule, hchildren]

namespace WellFormed

variable {t : ModuleTree} {path above : List String} {start : Option Nat} {name : String}

/-- A place is above all modules or an existing module. -/
theorem exists_module?_of_placeAt? (h : t.WellFormed) {id : Nat}
    (hplace : t.placeAt? path = some (some id)) : ∃ m, t.module? id = some m := by
  obtain rfl | ⟨path, name, rfl⟩ := List.eq_nil_or_concat' path
  · simp at hplace
  · obtain ⟨start, id', hstart, hfind, hid⟩ := placeAt?_concat_eq_some_iff.mp hplace
    obtain ⟨m, hm, -, -⟩ := h.entry hfind
    obtain rfl := Option.some.inj hid
    exact ⟨m, hm⟩

/-- Names lead to modules of the tree only. -/
theorem lt_size_of_placeAt? (h : t.WellFormed) {id : Nat}
    (hplace : t.placeAt? path = some (some id)) : id < t.size := by
  obtain ⟨m, hm⟩ := h.exists_module?_of_placeAt? hplace
  exact module?_lt hm

/-- Different paths lead to different places: a module tells its name and where it is entered. -/
theorem placeAt?_injective (h : t.WellFormed) {other : List String} {place : Option Nat}
    (hpath : t.placeAt? path = some place) (hother : t.placeAt? other = some place) :
    path = other := by
  induction path using List.reverseRecOn generalizing other place with
  | nil =>
    obtain rfl : none = place := by simpa using hpath
    exact (placeAt?_eq_some_none_iff.mp hother).symm
  | append_singleton path name ih =>
    obtain ⟨start, id, hstart, hfind, rfl⟩ := placeAt?_concat_eq_some_iff.mp hpath
    obtain rfl | ⟨other, otherName, rfl⟩ := List.eq_nil_or_concat' other
    · simp at hother
    · obtain ⟨otherStart, otherId, hotherStart, hotherFind, hid⟩ :=
        placeAt?_concat_eq_some_iff.mp hother
      obtain rfl := Option.some.inj hid
      obtain ⟨m, hm, hname, hparent⟩ := h.entry hfind
      obtain ⟨m', hm', hname', hparent'⟩ := h.entry hotherFind
      obtain rfl := Option.some.inj (hm.symm.trans hm')
      subst hparent hname
      rw [ih hstart (hparent' ▸ hotherStart), hname']

end WellFormed

/-! ## Adding a missing child -/

section AddChild

variable {t : ModuleTree} {start : Option Nat} {name : String}

/-- The modules after a child has been added: the child comes last, and only the module that
encloses it has changed. -/
theorem module?_addChild (hstart : ∀ p ∈ start, p < t.size) (id : Nat) :
    (t.addChild start name).module? id =
      if id = t.size then some { name, path := t.childPath start name, parent := start }
      else (t.module? id).map fun m =>
        if start = some id then { m with modules := m.modules.insertNew name t.size } else m := by
  cases start with
  | none =>
    simp only [addChild, link, module?, size, Array.getElem?_push]
    by_cases hid : id = t.nodes.size <;> simp [hid]
  | some p =>
    have hp : p ≠ t.nodes.size := Nat.ne_of_lt (hstart p rfl)
    simp only [addChild, link, modifyModule, module?, size, Array.getElem?_modify,
      Array.getElem?_push, Option.some.injEq]
    by_cases hid : id = t.nodes.size
    · simp [hid, hp]
    · by_cases hpid : p = id <;> simp [hid, hpid]

/-- The children after a child has been added. -/
theorem children_addChild (hstart : ∀ p ∈ start, p < t.size) (place : Option Nat) :
    (t.addChild start name).children place =
      if place = start then (t.children start).insertNew name t.size
      else if place = some t.size then .empty else t.children place := by
  cases place with
  | none =>
    cases start with
    | none => rfl
    | some p => simp [children, addChild, link, modifyModule]
  | some id =>
    simp only [children, module?_addChild hstart, Option.some.injEq]
    by_cases hid : id = t.size
    · have hne : some t.size ≠ start := by
        rintro rfl
        exact absurd (hstart t.size rfl) (by omega)
      simp [hid, hne]
    · by_cases hs : some id = start
      · subst hs
        have hlt : id < t.size := hstart id rfl
        obtain ⟨m, hm⟩ := Option.isSome_iff_exists.mp (module?_isSome_iff.mpr hlt)
        simp [hid, hm]
      · simp [hid, hs, eq_comm (a := start)]

/-- Only the place where the child is added gets a further entry. -/
theorem find?_children_addChild (hstart : ∀ p ∈ start, p < t.size)
    (hfresh : (t.children start).find? name = none) (place : Option Nat) (other : String) :
    ((t.addChild start name).children place).find? other =
      if place = start ∧ other = name then some t.size
      else if place = some t.size then none else (t.children place).find? other := by
  rw [children_addChild hstart]
  by_cases hplace : place = start
  · subst hplace
    rw [if_pos rfl, Table.find?_insertNew, hfresh]
    by_cases hother : other = name
    · simp [hother]
    · have hne : place ≠ some t.size := by
        rintro rfl
        exact absurd (hstart t.size rfl) (by omega)
      simp [hother, hne]
  · simp only [hplace, false_and, if_false]
    split <;> rfl

/-- Adding a missing child keeps the references in agreement. -/
theorem WellFormed.addChild (h : t.WellFormed) (hstart : ∀ p ∈ start, p < t.size)
    (hfresh : (t.children start).find? name = none) : (t.addChild start name).WellFormed := by
  have hnot : some t.size ≠ start := by
    rintro rfl
    exact absurd (hstart t.size rfl) (by omega)
  -- A module of the grown tree is the child or has the references of a module that was there.
  have hcases : ∀ {id m}, (t.addChild start name).module? id = some m →
      (id = t.size ∧ m = { name, path := t.childPath start name, parent := start }) ∨
        (id < t.size ∧ ∃ old, t.module? id = some old ∧ m.name = old.name ∧
          m.path = old.path ∧ m.parent = old.parent) := by
    intro id m hm
    rw [module?_addChild hstart] at hm
    by_cases hid : id = t.size
    · rw [if_pos hid] at hm
      exact Or.inl ⟨hid, (Option.some.inj hm).symm⟩
    · rw [if_neg hid, Option.map_eq_some_iff] at hm
      obtain ⟨old, hold, rfl⟩ := hm
      exact Or.inr ⟨module?_lt hold, old, hold, by split <;> simp⟩
  have hpath : ∀ parent other, parent ≠ some t.size →
      (t.addChild start name).childPath parent other = t.childPath parent other := by
    intro parent other hparent
    cases parent with
    | none => rfl
    | some p =>
      have hp : p ≠ t.size := fun heq => hparent (heq ▸ rfl)
      simp only [childPath, Option.bind_some, module?_addChild hstart, if_neg hp]
      cases t.module? p with
      | none => rfl
      | some m =>
        simp only [Option.map_some]
        split <;> rfl
  constructor
  · intro place other id hfind
    rw [find?_children_addChild hstart hfresh] at hfind
    split at hfind
    case isTrue hplace =>
      obtain rfl := Option.some.inj hfind
      obtain ⟨rfl, rfl⟩ := hplace
      exact ⟨_, by rw [module?_addChild hstart, if_pos rfl], rfl, rfl⟩
    case isFalse =>
      split at hfind
      · simp at hfind
      · obtain ⟨m, hm, hname, hparent⟩ := h.entry hfind
        refine ⟨if start = some id then { m with modules := m.modules.insertNew name t.size }
          else m, ?_, ?_, ?_⟩
        · rw [module?_addChild hstart, if_neg (Nat.ne_of_lt (module?_lt hm)), hm, Option.map_some]
        · split <;> exact hname
        · split <;> exact hparent
  · intro id m hm
    rw [find?_children_addChild hstart hfresh]
    rcases hcases hm with ⟨rfl, rfl⟩ | ⟨hlt, old, hold, hname, -, hparent⟩
    · simp
    · rw [hname, hparent]
      have hfind := h.entered hold
      have hparentNew : old.parent ≠ some t.size := by
        intro heq
        have hp := h.parent_lt hold heq
        omega
      have hplace : ¬ (old.parent = start ∧ old.name = name) := by
        rintro ⟨rfl, rfl⟩
        simp [hfind] at hfresh
      rw [if_neg hplace, if_neg hparentNew, hfind]
  · intro id m p hm hp
    rcases hcases hm with ⟨rfl, rfl⟩ | ⟨hlt, old, hold, -, -, hparent⟩
    · exact hstart p hp
    · exact h.parent_lt hold (hparent ▸ hp)
  · intro id m hm
    rcases hcases hm with ⟨rfl, rfl⟩ | ⟨hlt, old, hold, hname, hpathEq, hparent⟩
    · exact (hpath start name hnot.symm).symm
    · have hparentNew : old.parent ≠ some t.size := by
        intro heq
        have hp := h.parent_lt hold heq
        omega
      rw [hname, hpathEq, hparent, hpath _ _ hparentNew]
      exact h.path_eq hold

variable {above : List String}

/-- A place at the end of a path can have a child. -/
theorem WellFormed.lt_size_of_mem_place (h : t.WellFormed)
    (habove : t.placeAt? above = some start) : ∀ p ∈ start, p < t.size := by
  rintro p rfl
  exact h.lt_size_of_placeAt? habove

/-- After a child has been added, its path leads to it and all other paths to where they led. -/
theorem placeAt?_addChild (h : t.WellFormed) (habove : t.placeAt? above = some start)
    (hfresh : (t.children start).find? name = none) (path : List String) :
    (t.addChild start name).placeAt? path =
      if path = above ++ [name] then some (some t.size) else t.placeAt? path := by
  have hstart := h.lt_size_of_mem_place habove
  induction path using List.reverseRecOn with
  | nil => simp
  | append_singleton path other ih =>
    have hsame : path ++ [other] = above ++ [name] ↔ path = above ∧ other = name := by simp
    rw [placeAt?_concat, ih, placeAt?_concat]
    by_cases hnew : path = above ++ [name]
    · -- Nothing is below the child, and nothing was below its path.
      have hold : t.placeAt? path = none := by
        rw [hnew, placeAt?_concat, habove]
        simp [hfresh]
      have hempty : some t.size ≠ start := by
        rintro rfl
        exact absurd (hstart t.size rfl) (by omega)
      simp only [hnew, if_true, Option.bind_some, find?_children_addChild hstart hfresh]
      rw [hnew] at hold
      simp [hold, hempty]
    · cases hplace : t.placeAt? path with
      | none =>
        have hne : ¬ (path = above ∧ other = name) := by
          rintro ⟨rfl, -⟩
          simp [habove] at hplace
        simp [hnew, hsame, hne]
      | some place =>
        have hbelow : place ≠ some t.size := by
          rintro rfl
          exact absurd (h.lt_size_of_placeAt? hplace) (by omega)
        have hstartIff : place = start ↔ path = above := by
          constructor
          · rintro rfl
            exact h.placeAt?_injective hplace habove
          · rintro rfl
            exact Option.some.inj (hplace.symm.trans habove)
        simp only [hnew, if_false, Option.bind_some, find?_children_addChild hstart hfresh,
          hstartIff, hsame, hbelow]
        split <;> rfl

/-- Only the path where a child has been added has got a further child. -/
theorem childNames_addChild (h : t.WellFormed) (habove : t.placeAt? above = some start)
    (hfresh : (t.children start).find? name = none) (path : List String) :
    (t.addChild start name).childNames path =
      if path = above then t.childNames path ++ [name] else t.childNames path := by
  have hstart := h.lt_size_of_mem_place habove
  have hnotMem : name ∉ (t.children start).keys := by simp [Table.mem_keys_iff, hfresh]
  have hnot : some t.size ≠ start := by
    rintro rfl
    exact absurd (hstart t.size rfl) (by omega)
  rw [childNames, placeAt?_addChild h habove hfresh, childNames]
  by_cases hnew : path = above ++ [name]
  · have hne : path ≠ above := by
      rintro rfl
      simp at hnew
    have hold : t.placeAt? path = none := by
      rw [hnew, placeAt?_concat, habove]
      simp [hfresh]
    rw [if_pos hnew, if_neg hne, hold]
    simp [children_addChild hstart, hnot]
  · rw [if_neg hnew]
    cases hplace : t.placeAt? path with
    | none =>
      have hne : path ≠ above := by
        rintro rfl
        simp [habove] at hplace
      simp [hne]
    | some place =>
      have hbelow : place ≠ some t.size := by
        rintro rfl
        exact absurd (h.lt_size_of_placeAt? hplace) (by omega)
      by_cases hpath : path = above
      · obtain rfl : place = start := by
          rw [hpath, habove] at hplace
          exact (Option.some.inj hplace).symm
        simp [hpath, children_addChild hstart, Table.keys_insertNew, hnotMem]
      · have hne : place ≠ start := by
          rintro rfl
          exact hpath (h.placeAt?_injective hplace habove)
        simp [hpath, children_addChild hstart, hne, hbelow]

end AddChild

end FirmwareModel.ModuleTree
