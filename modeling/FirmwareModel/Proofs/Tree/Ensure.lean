import FirmwareModel.Proofs.Tree.WellFormed

/-!
# Making sure of paths

`ensure` adds the modules of a path that are missing, one below the other. It keeps a tree
well-formed, changes nothing when the path is there, and lets each name on the path arrive among
the children of the path before it. The children of a path after any number of paths are therefore
the names first seen behind it.
-/

namespace FirmwareModel

/-- The name that follows a path in the names of another, if these begin with the path and go
on. -/
def nextName? : (path names : List String) → Option String
  | [], [] => none
  | [], name :: _ => some name
  | _ :: _, [] => none
  | first :: path, name :: names => if first = name then nextName? path names else none

/-- A name follows a path when the names begin with the path and the name. -/
theorem nextName?_eq_some_iff {path names : List String} {name : String} :
    nextName? path names = some name ↔ path ++ [name] <+: names := by
  fun_induction nextName? path names with
  | case1 => simp
  | case2 => simp [eq_comm]
  | case3 => simp
  | case4 first path names ih => simp [ih]
  | case5 first path name names hne => simp [hne]

/-- The names that follow a path in module paths, each where it is first seen. -/
def nextNames (paths : List ModulePath) (path : List String) : List String :=
  (paths.filterMap fun p => nextName? path p.segments).eraseDups

/-- The names that follow a path are those with which some module path goes on. -/
theorem mem_nextNames_iff {paths : List ModulePath} {path : List String} {name : String} :
    name ∈ nextNames paths path ↔ ∃ p ∈ paths, path ++ [name] <+: p.segments := by
  simp [nextNames, nextName?_eq_some_iff]

namespace ModuleTree

variable {t : ModuleTree}

/-- Induction over the way that is made sure of: at its end nothing is left to do, and before it
the next module is there or is added. -/
theorem WellFormed.ensureFrom_induct
    {motive : ModuleTree → List String → List String → ModuleTree → Prop}
    (done : ∀ t above, t.WellFormed → motive t above [] t)
    (present : ∀ t above start name names id result, t.WellFormed →
      t.placeAt? above = some start → (t.children start).find? name = some id →
      motive t (above ++ [name]) names result → motive t above (name :: names) result)
    (missing : ∀ t above start name names result, t.WellFormed →
      t.placeAt? above = some start → (t.children start).find? name = none →
      motive (t.addChild start name) (above ++ [name]) names result →
      motive t above (name :: names) result)
    {above : List String} {start : Option Nat} (names : List String) (h : t.WellFormed)
    (habove : t.placeAt? above = some start) :
    motive t above names (t.ensureFrom start names).1 := by
  induction names generalizing t above start with
  | nil => exact done t above h
  | cons name names ih =>
    rw [ensureFrom]
    cases hfind : (t.children start).find? name with
    | some id =>
      have hplace : t.placeAt? (above ++ [name]) = some (some id) := by
        simp [placeAt?_concat, habove, hfind]
      exact present t above start name names id _ h habove hfind (ih h hplace)
    | none =>
      have hplace : (t.addChild start name).placeAt? (above ++ [name]) = some (some t.size) := by
        rw [placeAt?_addChild h habove hfind, if_pos rfl]
      have hgrown := h.addChild (h.lt_size_of_mem_place habove) hfind
      exact missing t above start name names _ h habove hfind (ih hgrown hplace)

/-- Making sure of a path keeps a tree well-formed. -/
theorem WellFormed.ensure (h : t.WellFormed) (path : ModulePath) : (t.ensure path).1.WellFormed :=
  ensureFrom_induct (motive := fun _ _ _ result => result.WellFormed) (fun _ _ h => h)
    (fun _ _ _ _ _ _ _ _ _ _ ih => ih) (fun _ _ _ _ _ _ _ _ _ ih => ih) path.segments h
    t.placeAt?_nil

/-- What holds of a new module, and of a module whatever its children, holds of all modules after
a child has been added when it did before. -/
theorem forall_module_addChild {p : Module → Prop} {start : Option Nat} {name : String}
    (hstart : ∀ p ∈ start, p < t.size) (hnew : ∀ path parent, p { name, path, parent })
    (hmodules : ∀ m modules, p m → p { m with modules })
    (hall : ∀ id m, t.module? id = some m → p m) :
    ∀ id m, (t.addChild start name).module? id = some m → p m := by
  intro id m hm
  rw [module?_addChild hstart] at hm
  split at hm
  · obtain rfl := Option.some.inj hm
    exact hnew _ _
  · obtain ⟨old, hold, rfl⟩ := Option.map_eq_some_iff.mp hm
    split
    · exact hmodules _ _ (hall id old hold)
    · exact hall id old hold

/-- What holds of new modules, and of a module whatever its children, holds of all modules after
a path has been made sure of when it did before. -/
theorem WellFormed.forall_module_ensure (h : t.WellFormed) {p : Module → Prop}
    (hnew : ∀ name path parent, p { name, path, parent })
    (hmodules : ∀ m modules, p m → p { m with modules })
    (hall : ∀ id m, t.module? id = some m → p m) (path : ModulePath) :
    ∀ id m, (t.ensure path).1.module? id = some m → p m :=
  ensureFrom_induct
    (motive := fun t _ _ result =>
      (∀ id m, t.module? id = some m → p m) → ∀ id m, result.module? id = some m → p m)
    (fun _ _ _ hall => hall) (fun _ _ _ _ _ _ _ _ _ _ ih => ih)
    (fun _ _ _ _ _ _ h habove _ ih hall =>
      ih (forall_module_addChild (h.lt_size_of_mem_place habove) (hnew _) hmodules hall))
    path.segments h t.placeAt?_nil hall

/-- A path that is there is left as it is. -/
theorem ensureFrom_of_findFrom? {start : Option Nat} {names : List String} {id : Nat}
    (hfind : t.findFrom? start names = some id) : t.ensureFrom start names = (t, some id) := by
  induction names generalizing start with
  | nil =>
    obtain rfl : start = some id := hfind
    rfl
  | cons name names ih =>
    obtain ⟨child, hchild, hrest⟩ := Option.bind_eq_some_iff.mp hfind
    rw [ensureFrom, hchild]
    exact ih hrest

/-- Making sure of a path that is there changes nothing and finds its module. -/
theorem ensure_of_find? {path : ModulePath} {id : Nat} (hfind : t.find? path = some id) :
    t.ensure path = (t, id) := by
  simp [ensure, ensureFrom_of_findFrom? hfind]

/-! ## The children of paths -/

/-- When one name has arrived below `above` and the rest of the way starts there, all names of the
way have arrived. -/
theorem childNames_of_step {mid result : ModuleTree} {above : List String} {name : String}
    {names : List String}
    (hstep : ∀ path, mid.childNames path =
      if path = above then arrive (t.childNames path) name else t.childNames path)
    (hrest : (∀ back, result.childNames (above ++ [name] ++ back) =
        (nextName? back names).elim (mid.childNames (above ++ [name] ++ back))
          (arrive (mid.childNames (above ++ [name] ++ back)))) ∧
      ∀ path, ¬ above ++ [name] <+: path → result.childNames path = mid.childNames path) :
    (∀ back, result.childNames (above ++ back) =
        (nextName? back (name :: names)).elim (t.childNames (above ++ back))
          (arrive (t.childNames (above ++ back)))) ∧
      ∀ path, ¬ above <+: path → result.childNames path = t.childNames path := by
  obtain ⟨hbehind, hbeside⟩ := hrest
  constructor
  · intro back
    cases back with
    | nil =>
      -- Above the new name only the step itself shows.
      have hshort : ¬ above ++ [name] <+: above ++ [] := fun hpre => by
        have hlength := hpre.length_le
        simp only [List.length_append, List.length_cons, List.length_nil] at hlength
        omega
      rw [hbeside _ hshort, hstep]
      simp [nextName?]
    | cons other back =>
      by_cases hother : other = name
      · subst hother
        have happend : above ++ other :: back = above ++ [other] ++ back := by simp
        have hne : above ++ [other] ++ back ≠ above := by simp
        rw [happend, hbehind, hstep, if_neg hne, nextName?, if_pos rfl]
      · have hpre : ¬ above ++ [name] <+: above ++ other :: back := by
          rw [List.prefix_append_right_inj]
          simp [Ne.symm hother]
        rw [hbeside _ hpre, hstep, if_neg (by simp)]
        simp [nextName?, hother]
  · intro path hpath
    have hpre : ¬ above ++ [name] <+: path := fun hpre =>
      hpath ((List.prefix_append above [name]).trans hpre)
    have hne : path ≠ above := by
      rintro rfl
      exact hpath (List.prefix_refl path)
    rw [hbeside path hpre, hstep, if_neg hne]

/-- Making sure of a path lets the name on it that follows another path arrive among the children
of that path. -/
theorem childNames_ensure (h : t.WellFormed) (p : ModulePath) (path : List String) :
    (t.ensure p).1.childNames path =
      (nextName? path p.segments).elim (t.childNames path) (arrive (t.childNames path)) := by
  have hall := h.ensureFrom_induct
    (motive := fun t above names result =>
      (∀ back, result.childNames (above ++ back) =
          (nextName? back names).elim (t.childNames (above ++ back))
            (arrive (t.childNames (above ++ back)))) ∧
        ∀ path, ¬ above <+: path → result.childNames path = t.childNames path)
    (by
      intro t above _
      refine ⟨fun back => ?_, fun _ _ => rfl⟩
      cases back <;> rfl)
    (by
      intro t above start name names id result _ habove hfind ih
      have hstep : ∀ path, t.childNames path =
          if path = above then arrive (t.childNames path) name else t.childNames path := by
        intro path
        split
        case isTrue hpath =>
          have hmem : name ∈ t.childNames path := by
            simp [mem_childNames_iff, hpath, placeAt?_concat, habove, hfind]
          rw [arrive_of_mem hmem]
        · rfl
      exact childNames_of_step hstep ih)
    (by
      intro t above start name names result h habove hfind ih
      refine childNames_of_step (fun path => ?_) ih
      rw [childNames_addChild h habove hfind]
      split
      case isTrue hpath =>
        have hmem : name ∉ t.childNames path := by
          simp [mem_childNames_iff, hpath, placeAt?_concat, habove, hfind]
        rw [arrive_of_notMem hmem]
      · rfl)
    p.segments t.placeAt?_nil
  exact hall.1 path

/-- The tree with the modules of all the paths. -/
def ofPaths (paths : List ModulePath) : ModuleTree :=
  paths.foldl (fun t path => (t.ensure path).1) .empty

/-- One more path is made sure of after all others. -/
theorem ofPaths_concat (paths : List ModulePath) (path : ModulePath) :
    ofPaths (paths ++ [path]) = ((ofPaths paths).ensure path).1 := by
  simp [ofPaths]

/-- The tree of module paths is well-formed. -/
theorem WellFormed.ofPaths (paths : List ModulePath) : (ofPaths paths).WellFormed := by
  induction paths using List.reverseRecOn with
  | nil => exact .empty
  | append_singleton paths path ih =>
    rw [ofPaths_concat]
    exact ih.ensure path

/-- The children of a path are the names that follow it in the paths, each where it is first
seen. -/
theorem childNames_ofPaths (paths : List ModulePath) (path : List String) :
    (ofPaths paths).childNames path = nextNames paths path := by
  induction paths using List.reverseRecOn with
  | nil =>
    rw [childNames]
    cases path with
    | nil => rfl
    | cons name names => rfl
  | append_singleton paths p ih =>
    rw [ofPaths_concat, childNames_ensure (.ofPaths paths), ih, nextNames, nextNames,
      List.filterMap_append]
    cases hnext : nextName? path p.segments with
    | none => simp [hnext]
    | some name => simp [hnext, eraseDups_concat]

end ModuleTree

end FirmwareModel
