import FirmwareModel.Proofs.Grammar.Declarations
import FirmwareModel.Proofs.Tree.Reachable

/-!
# How a tree grows

Making sure of a path adds a module for each beginning of the path that names none, and nothing
else. Modules that were there keep their indices and their contents, their children keep their
places, and at most one further child stands behind them. What other paths name is as it was, and
the same path again adds nothing.
-/

namespace FirmwareModel

/-- The paths around a module begin with the first name of its own, which alone is the outermost of
them. -/
theorem enclosingPaths_cons (name : String) (names : List String) :
    enclosingPaths (name :: names) = (enclosingPaths names).map (name :: ·) ++ [[name]] := by
  induction names using List.reverseRecOn with
  | nil => rfl
  | append_singleton names last ih =>
    rw [← List.cons_append, enclosingPaths_concat, ih, enclosingPaths_concat]
    rfl

/-! ## The beginnings of a path -/

namespace ModulePath

/-- The path itself and those of the modules around it, from the inside outwards. -/
def beginnings (p : ModulePath) : List ModulePath :=
  (enclosingPaths p.segments).filterMap fun names => ofText? (Text.qualified names)

/-- The names on the way to a module, cut short, are the segments of a path. -/
theorem exists_of_prefix {p : ModulePath} {names : List String} (hne : names ≠ [])
    (hpre : names <+: p.segments) :
    ∃ q, ofText? (Text.qualified names) = some q ∧ q.segments = names := by
  have hsegments : Text.segments (Text.qualified names) = names :=
    Text.segments_qualified_of_prefix hne hpre
  have hnonempty : "" ∉ Text.segments (Text.qualified names) := by
    rw [hsegments]
    exact fun hmem => p.segments_nonempty (hpre.subset hmem)
  exact ⟨⟨Text.qualified names, hnonempty⟩, ofText?_text ⟨_, hnonempty⟩, hsegments⟩

/-- The beginnings of a path have its segments, cut short. -/
theorem map_segments_beginnings (p : ModulePath) :
    p.beginnings.map segments = enclosingPaths p.segments := by
  have hall : ∀ names ∈ enclosingPaths p.segments, names ≠ [] ∧ names <+: p.segments :=
    fun names => mem_enclosingPaths_iff.mp
  rw [beginnings]
  generalize enclosingPaths p.segments = paths at hall
  induction paths with
  | nil => rfl
  | cons names paths ih =>
    obtain ⟨hne, hpre⟩ := hall names List.mem_cons_self
    obtain ⟨q, hq, hsegments⟩ := exists_of_prefix hne hpre
    simp only [List.filterMap_cons, hq, List.map_cons, hsegments]
    rw [ih fun other hother => hall other (List.mem_cons_of_mem names hother)]

/-- The beginnings of a path are the paths whose segments begin its own. -/
theorem mem_beginnings_iff {p q : ModulePath} :
    q ∈ p.beginnings ↔ q.segments <+: p.segments := by
  have hmem : q ∈ p.beginnings ↔ q.segments ∈ p.beginnings.map segments :=
    (List.mem_map_of_injective fun _ _ => segments_injective).symm
  rw [hmem, map_segments_beginnings, mem_enclosingPaths_iff]
  exact and_iff_right q.segments_ne_nil

end ModulePath

namespace ModuleTree

/-- The table with one more entry, at its end, for a module that has an index of at least the given
one. -/
def Extends (size : Nat) (children grown : Table Nat) : Prop :=
  ∃ name id, size ≤ id ∧ grown.entries = children.entries ++ [(name, id)]

/-- An entry for an index of at least some size is one for an index of at least any smaller size. -/
theorem Extends.mono {size size' : Nat} {children grown : Table Nat} (hsize : size ≤ size')
    (h : Extends size' children grown) : Extends size children grown := by
  obtain ⟨name, id, hid, hentries⟩ := h
  exact ⟨name, id, hsize.trans hid, hentries⟩

variable {t : ModuleTree} {above : List String} {start : Option Nat} {p q : ModulePath}

/-! ## The way down -/

/-- Adding a module makes a tree one larger. -/
theorem size_addChild (t : ModuleTree) (start : Option Nat) (name : String) :
    (t.addChild start name).size = t.size + 1 := by
  cases start <;> simp [addChild, link, modifyModule, size]

/-- The module that is made sure of is at the end of the way. -/
theorem WellFormed.placeAt?_ensureFrom (names : List String) (h : t.WellFormed)
    (habove : t.placeAt? above = some start) :
    (t.ensureFrom start names).1.placeAt? (above ++ names) = some (t.ensureFrom start names).2 := by
  induction names generalizing t above start with
  | nil => simpa [ensureFrom] using habove
  | cons name names ih =>
    rw [List.append_cons, ensureFrom]
    cases hfind : (t.children start).find? name with
    | some id => exact ih h (by simp [placeAt?_concat, habove, hfind])
    | none =>
      refine ih (h.addChild (h.lt_size_of_mem_place habove) hfind) ?_
      rw [placeAt?_addChild h habove hfind, if_pos rfl]

/-- A module is added for each beginning of the way that leads nowhere. -/
theorem WellFormed.size_ensureFrom (names : List String) (h : t.WellFormed)
    (habove : t.placeAt? above = some start) :
    (t.ensureFrom start names).1.size =
      t.size + (enclosingPaths names).countP fun back => (t.placeAt? (above ++ back)).isNone :=
  h.ensureFrom_induct
    (motive := fun t above names result => result.size =
      t.size + (enclosingPaths names).countP fun back => (t.placeAt? (above ++ back)).isNone)
    (fun _ _ _ => rfl)
    (by
      intro t above start name names id result _ habove hfind ih
      have hname : t.placeAt? (above ++ [name]) = some (some id) := by
        simp [placeAt?_concat, habove, hfind]
      simp only [ih, enclosingPaths_cons, List.countP_append, List.countP_map,
        List.countP_singleton, hname, Function.comp_def, List.append_assoc, List.singleton_append,
        Option.isNone_some, Bool.false_eq_true, if_false, Nat.add_zero])
    (by
      intro t above start name names result h habove hfind ih
      have hname : t.placeAt? (above ++ [name]) = none := by
        simp [placeAt?_concat, habove, hfind]
      -- Nothing is below the added child, so the rest of the way is missing before and after.
      have hbelow : (enclosingPaths names).countP (fun back =>
            ((t.addChild start name).placeAt? (above ++ [name] ++ back)).isNone) =
          (enclosingPaths names).countP fun back =>
            (t.placeAt? (above ++ name :: back)).isNone := by
        refine List.countP_congr fun back hback => ?_
        have hne : back ≠ [] := (mem_enclosingPaths_iff.mp hback).1
        simp [placeAt?_addChild h habove hfind, hne]
      rw [ih, hbelow, size_addChild, enclosingPaths_cons, List.countP_append, List.countP_map,
        List.countP_singleton, hname]
      simp only [Function.comp_def, Option.isNone_none, if_true]
      omega)
    names habove

/-- A path leads where it led, unless it is a beginning of the way that led nowhere. -/
theorem WellFormed.placeAt?_ensureFrom_of_old (names : List String) (h : t.WellFormed)
    (habove : t.placeAt? above = some start) (path : List String)
    (hpath : path <+: above ++ names → (t.placeAt? path).isSome) :
    (t.ensureFrom start names).1.placeAt? path = t.placeAt? path :=
  h.ensureFrom_induct
    (motive := fun t above names result =>
      (path <+: above ++ names → (t.placeAt? path).isSome) →
        result.placeAt? path = t.placeAt? path)
    (fun _ _ _ _ => rfl)
    (by
      intro t above start name names id result _ _ _ ih hpath
      exact ih (by simpa using hpath))
    (by
      intro t above start name names result h habove hfind ih hpath
      have hold : (t.addChild start name).placeAt? path = t.placeAt? path := by
        rw [placeAt?_addChild h habove hfind, if_neg]
        rintro rfl
        have hsome := hpath ⟨names, by simp⟩
        simp [placeAt?_concat, habove, hfind] at hsome
      rw [ih fun hpre => by rw [hold]; exact hpath (by simpa using hpre), hold])
    names habove hpath

/-- Modules that were there keep everything but their children. -/
theorem WellFormed.module?_ensureFrom (names : List String) (h : t.WellFormed)
    (habove : t.placeAt? above = some start) {id : Nat} {m : Module}
    (hm : t.module? id = some m) :
    ∃ modules, (t.ensureFrom start names).1.module? id = some { m with modules } :=
  h.ensureFrom_induct
    (motive := fun t _ _ result => ∀ m, t.module? id = some m →
      ∃ modules, result.module? id = some { m with modules })
    (fun _ _ _ m hm => ⟨m.modules, hm⟩)
    (fun _ _ _ _ _ _ _ _ _ _ ih => ih)
    (by
      intro t above start name names result h habove _ ih m hm
      have hold : (t.addChild start name).module? id = _ :=
        module?_addChild (h.lt_size_of_mem_place habove) id
      rw [if_neg (Nat.ne_of_lt (module?_lt hm)), hm, Option.map_some] at hold
      obtain ⟨modules, hmodules⟩ := ih _ hold
      refine ⟨modules, hmodules.trans ?_⟩
      split <;> rfl)
    names habove m hm

/-- Places that were there keep their children, and at most one further child stands behind
them. -/
theorem WellFormed.children_ensureFrom (names : List String) (h : t.WellFormed)
    (habove : t.placeAt? above = some start) {path : List String} {place : Option Nat}
    (hplace : t.placeAt? path = some place) :
    (t.ensureFrom start names).1.children place = t.children place ∨
      above <+: path ∧
        Extends t.size (t.children place) ((t.ensureFrom start names).1.children place) :=
  h.ensureFrom_induct
    (motive := fun t above _ result => t.placeAt? path = some place →
      result.children place = t.children place ∨
        above <+: path ∧ Extends t.size (t.children place) (result.children place))
    (fun _ _ _ _ => Or.inl rfl)
    (by
      intro t above start name names id result _ _ _ ih hplace
      exact (ih hplace).imp_right (And.imp_left (List.prefix_append above [name]).trans))
    (by
      intro t above start name names result h habove hfind ih hplace
      have hstart := h.lt_size_of_mem_place habove
      have hne : path ≠ above ++ [name] := by
        rintro rfl
        simp [placeAt?_concat, habove, hfind] at hplace
      have hlater := ih (by rw [placeAt?_addChild h habove hfind, if_neg hne, hplace])
      by_cases hsame : place = start
      · -- The child is added here, and the way goes on below it.
        subst hsame
        obtain rfl := h.placeAt?_injective habove hplace
        have hkey : name ∉ (t.children place).keys := by
          simp [Table.mem_keys_iff, hfind]
        have hgrown : ((t.addChild place name).children place).entries =
            (t.children place).entries ++ [(name, t.size)] := by
          rw [children_addChild hstart, if_pos rfl, Table.insertNew, dif_neg hkey]
        rcases hlater with hkeeps | ⟨hpre, -⟩
        · exact Or.inr ⟨List.prefix_refl above, name, t.size, le_refl _, by rw [hkeeps, hgrown]⟩
        · have hlength := hpre.length_le
          simp only [List.length_append, List.length_singleton] at hlength
          omega
      · have hold : (t.addChild start name).children place = t.children place := by
          rw [children_addChild hstart, if_neg hsame, if_neg]
          rintro rfl
          exact absurd (h.lt_size_of_placeAt? hplace) (Nat.lt_irrefl _)
        rw [hold] at hlater
        rw [size_addChild] at hlater
        exact hlater.imp_right
          (And.imp (List.prefix_append above [name]).trans (Extends.mono (Nat.le_succ t.size))))
    names habove hplace

/-! ## Paths -/

/-- A path is not found when the walk down along its segments ends nowhere. -/
theorem find?_eq_none_iff : t.find? p = none ↔ t.placeAt? p.segments = none := by
  rw [find?, findFrom?_eq_join, ← placeAt?]
  cases hplace : t.placeAt? p.segments with
  | none => simp
  | some place =>
    cases place with
    | none => exact absurd (placeAt?_eq_some_none_iff.mp hplace) p.segments_ne_nil
    | some id => simp

/-- The path leads to the module with the index that is told. -/
theorem WellFormed.placeAt?_ensure (h : t.WellFormed) (p : ModulePath) :
    (t.ensure p).1.placeAt? p.segments = some (some (t.ensure p).2) := by
  have hend := h.placeAt?_ensureFrom p.segments t.placeAt?_nil
  rw [List.nil_append] at hend
  cases hid : (t.ensureFrom none p.segments).2 with
  | none =>
    rw [hid] at hend
    exact absurd (placeAt?_eq_some_none_iff.mp hend) p.segments_ne_nil
  | some id => simpa [ModuleTree.ensure, hid] using hend

/-- Other paths than the new ones name what they named. -/
theorem WellFormed.find?_ensure_of_old (h : t.WellFormed)
    (hq : ¬ (q ∈ p.beginnings ∧ t.find? q = none)) : (t.ensure p).1.find? q = t.find? q := by
  have hsome : q.segments <+: [] ++ p.segments → (t.placeAt? q.segments).isSome := by
    intro hpre
    rw [← Option.ne_none_iff_isSome, ne_eq, ← find?_eq_none_iff]
    exact fun hnone => hq ⟨ModulePath.mem_beginnings_iff.mpr hpre, hnone⟩
  have hold := h.placeAt?_ensureFrom_of_old p.segments t.placeAt?_nil q.segments hsome
  rw [find?, find?, findFrom?_eq_join, findFrom?_eq_join, ← placeAt?, ← placeAt?]
  exact congrArg Option.join hold

/-- What making sure of a path makes of a tree: `t'` is the grown tree, and `id` is the index of the
module that the path names there. -/
structure GrownBy (p : ModulePath) (t t' : ModuleTree) (id : Nat) : Prop where
  /-- The module is that of the path. -/
  module : ∃ m, t'.module? id = some m ∧ m.path = p.text ∧ m.name = p.name
  find?_eq : t'.find? p = some id
  /-- There is one more module for each beginning of the path that named none. -/
  size : t'.size = t.size + p.beginnings.countP fun q => (t.find? q).isNone
  /-- All other paths name what they named. -/
  find?_of_old : ∀ q, ¬ (q ∈ p.beginnings ∧ t.find? q = none) → t'.find? q = t.find? q
  roots : t'.roots = t.roots ∨ Extends t.size t.roots t'.roots
  /-- The modules that were there keep everything, but that one of them may get a child. -/
  modules : ∀ i m, t.module? i = some m → ∃ modules, t'.module? i = some { m with modules } ∧
    (modules = m.modules ∨ Extends t.size m.modules modules)
  /-- The same path again adds nothing. -/
  again : t'.ensure p = (t', id)

/-- A built tree grows by what is missing on the way to a path, and by nothing else. -/
theorem ensure_adds_missing_beginnings (h : t.Reachable) (p : ModulePath) :
    GrownBy p t (t.ensure p).1 (t.ensure p).2 := by
  have hwellFormed := h.wellFormed
  have hgrown := hwellFormed.ensure p
  have hplace := hwellFormed.placeAt?_ensure p
  have hfind : (t.ensure p).1.find? p = some (t.ensure p).2 := findFrom?_none_eq_some_iff.mpr hplace
  obtain ⟨m, hm⟩ := hgrown.exists_module?_of_placeAt? hplace
  constructor
  case module =>
    obtain ⟨above, -, hend⟩ := hgrown.exists_placeAt? hm
    have hsegments := hgrown.placeAt?_injective hplace hend
    refine ⟨m, hm, ?_, by simp [ModulePath.name, hsegments]⟩
    rw [hgrown.path_eq_qualified hplace hm, p.qualified_segments]
  case find?_eq => exact hfind
  case size =>
    have hsize := hwellFormed.size_ensureFrom p.segments t.placeAt?_nil
    rw [← p.map_segments_beginnings, List.countP_map] at hsize
    refine hsize.trans (congrArg (t.size + ·) (List.countP_congr fun q _ => ?_))
    simp [find?_eq_none_iff]
  case find?_of_old => exact fun q hq => hwellFormed.find?_ensure_of_old hq
  case roots =>
    exact (hwellFormed.children_ensureFrom p.segments t.placeAt?_nil t.placeAt?_nil).imp_right
      And.right
  case modules =>
    intro i n hn
    obtain ⟨modules, hmodules⟩ := hwellFormed.module?_ensureFrom p.segments t.placeAt?_nil hn
    obtain ⟨path, -, hplaceOld⟩ := hwellFormed.exists_placeAt? hn
    have hchildren := hwellFormed.children_ensureFrom p.segments t.placeAt?_nil hplaceOld
    simp only [children, hmodules, hn, Option.map_some, Option.getD_some] at hchildren
    exact ⟨modules, hmodules, hchildren.imp_right And.right⟩
  case again => exact ensure_of_find? hfind

/-- Below a lamp with an effect, a second effect has two beginnings that are not there. -/
theorem lamp_grows_by_pulse :
    let glow : ModulePath := ⟨"Lamp::Glow", by decide⟩
    let pulse : ModulePath := ⟨"Lamp::Pulse::Slow", by decide⟩
    let t := (ModuleTree.empty.ensure glow).1
    t.Reachable ∧ (t.ensure pulse).1.nodes.toList.map Module.name =
        ["Lamp", "Glow", "Pulse", "Slow"] ∧
      (pulse.beginnings.filter fun q => (t.find? q).isNone).map ModulePath.text =
        ["Lamp::Pulse::Slow", "Lamp::Pulse"] ∧
      GrownBy pulse t (t.ensure pulse).1 (t.ensure pulse).2 := by
  intro glow pulse t
  have hreachable : t.Reachable := .ensure glow .empty
  exact ⟨hreachable, by decide, by decide, ensure_adds_missing_beginnings hreachable pulse⟩

end ModuleTree

end FirmwareModel
