import Mathlib.Data.List.Nodup
import Mathlib.Logic.Relation
import FirmwareModel.Proofs.Tree.Reachable

/-!
# Modules in the order of documents

All modules in document order are listed by a loop over a stack of modules whose turn comes, the
next one at the end. What the loop lists is a depth-first order: each module is followed by all that
is below it, child by child. Since a module comes behind the one that encloses it, this ends, and it
lists every module once.
-/

namespace FirmwareModel.ModuleTree

/-- The modules in turn, each followed by what is below it. -/
inductive DepthFirst (t : ModuleTree) : List Nat → List Nat → Prop
  | nil : DepthFirst t [] []
  | cons {id : Nat} {m : Module} {ids below rest : List Nat} :
    t.module? id = some m → DepthFirst t m.modules.values below → DepthFirst t ids rest →
    DepthFirst t (id :: ids) (id :: below ++ rest)

/-- A module refers to another as the one that encloses it. -/
def Encloses (t : ModuleTree) (id child : Nat) : Prop :=
  ∃ m, t.module? child = some m ∧ m.parent = some id

/-- Following the references to enclosing modules leads from one module to another, which may be
the same. -/
def Within (t : ModuleTree) (id inner : Nat) : Prop :=
  Relation.ReflTransGen t.Encloses id inner

/-- All modules are listed, each one before what is below it. -/
structure InPreorder (t : ModuleTree) (order : List Nat) : Prop where
  nodup : order.Nodup
  mem_iff : ∀ id, id ∈ order ↔ id < t.size
  /-- A module comes after the one that encloses it. -/
  encloses : ∀ id child, t.Encloses id child → [id, child].Sublist order
  /-- Siblings come in order of arrival. -/
  siblings : ∀ start, (∀ id ∈ start, id < t.size) → (t.children start).values.Sublist order
  /-- A module and all that is below it stand together. -/
  together : ∀ id < t.size, ∃ before inner after, order = before ++ (id :: inner) ++ after ∧
    ∀ other, other ∈ id :: inner ↔ t.Within id other

variable {t : ModuleTree} {ids order : List Nat}

/-! ## Depth-first orders -/

/-- The children of a module are those that it refers to. -/
theorem children_eq_modules {id : Nat} {m : Module} (hm : t.module? id = some m) :
    t.children (some id) = m.modules := by
  simp [children, hm]

/-- The modules that refer to a module are its children. -/
theorem WellFormed.encloses_iff (h : t.WellFormed) {id child : Nat} {m : Module}
    (hm : t.module? id = some m) : t.Encloses id child ↔ child ∈ m.modules.values := by
  rw [Table.mem_values_iff, ← children_eq_modules hm]
  constructor
  · rintro ⟨c, hc, hparent⟩
    exact ⟨c.name, hparent ▸ h.entered hc⟩
  · rintro ⟨name, hfind⟩
    obtain ⟨c, hc, -, hparent⟩ := h.entry hfind
    exact ⟨c, hc, hparent⟩

/-- Children are modules of the tree. -/
theorem WellFormed.lt_size_of_mem_children (h : t.WellFormed) {start : Option Nat} {id : Nat}
    (hid : id ∈ (t.children start).values) : id < t.size := by
  obtain ⟨name, hfind⟩ := Table.mem_values_iff.mp hid
  obtain ⟨m, hm, -, -⟩ := h.entry hfind
  exact module?_lt hm

/-- There is a depth-first order of any modules: their children come behind them. -/
theorem WellFormed.exists_depthFirst (h : t.WellFormed) (hids : ∀ id ∈ ids, id < t.size) :
    ∃ order, t.DepthFirst ids order := by
  -- Children come behind their module, so one level further down fewer modules are left.
  suffices hall : ∀ levels (ids : List Nat),
      (∀ id ∈ ids, id < t.size ∧ t.size ≤ id + levels) → ∃ order, t.DepthFirst ids order from
    hall t.size ids fun id hid => ⟨hids id hid, by omega⟩
  intro levels
  induction levels with
  | zero =>
    intro ids hids
    cases ids with
    | nil => exact ⟨[], .nil⟩
    | cons id ids =>
      have hid := hids id List.mem_cons_self
      omega
  | succ levels ih =>
    intro ids hids
    induction ids with
    | nil => exact ⟨[], .nil⟩
    | cons id ids ihIds =>
      obtain ⟨hlt, hle⟩ := hids id List.mem_cons_self
      obtain ⟨m, hm⟩ := Option.isSome_iff_exists.mp (module?_isSome_iff.mpr hlt)
      obtain ⟨below, hbelow⟩ := ih m.modules.values fun child hchild => by
        obtain ⟨c, hc, hparent⟩ := (h.encloses_iff hm).mpr hchild
        have hchildLt := module?_lt hc
        have hidLt := h.parent_lt hc hparent
        omega
      obtain ⟨rest, hrest⟩ := ihIds fun other hother => hids other (List.mem_cons_of_mem id hother)
      exact ⟨_, .cons hm hbelow hrest⟩

/-- The modules themselves are listed in turn. -/
theorem DepthFirst.sublist (h : t.DepthFirst ids order) : ids.Sublist order := by
  induction h with
  | nil => exact List.Sublist.refl []
  | cons hm _ _ _ ihRest => exact (ihRest.trans (List.sublist_append_right _ _)).cons_cons _

/-- A listed module is followed by what is below it. -/
theorem DepthFirst.exists_block (h : t.DepthFirst ids order) {id : Nat} (hid : id ∈ order) :
    ∃ m before inner after, t.module? id = some m ∧ t.DepthFirst m.modules.values inner ∧
      order = before ++ (id :: inner) ++ after := by
  induction h with
  | nil => cases hid
  | @cons other m ids below rest hm hbelow hrest ihBelow ihRest =>
    rcases List.mem_append.mp hid with hfirst | hlater
    · rcases List.mem_cons.mp hfirst with rfl | hinner
      · exact ⟨m, [], below, rest, hm, hbelow, rfl⟩
      · obtain ⟨n, before, inner, after, hn, hlists, rfl⟩ := ihBelow hinner
        exact ⟨n, other :: before, inner, after ++ rest, hn, hlists, by simp⟩
    · obtain ⟨n, before, inner, after, hn, hlists, rfl⟩ := ihRest hlater
      exact ⟨n, other :: below ++ before, inner, after, hn, hlists, by simp⟩

/-- What is listed is what lies within the given modules. -/
theorem DepthFirst.mem_iff (h : t.DepthFirst ids order) (hwellFormed : t.WellFormed)
    {inner : Nat} : inner ∈ order ↔ ∃ id ∈ ids, t.Within id inner := by
  induction h with
  | nil => simp
  | @cons id m ids below rest hm _ _ ihBelow ihRest =>
    have hwithin : t.Within id inner ↔ id = inner ∨ ∃ c ∈ m.modules.values, t.Within c inner := by
      rw [Within, Relation.ReflTransGen.cases_head_iff]
      simp only [hwellFormed.encloses_iff hm, Within]
    rw [List.mem_append, List.mem_cons, ihBelow, ihRest, List.exists_mem_cons_iff, hwithin,
      eq_comm]

/-! ## No module is listed twice -/

/-- A module comes behind those that it lies within. -/
theorem WellFormed.le_of_within (h : t.WellFormed) {id inner : Nat} (hwithin : t.Within id inner) :
    id ≤ inner := by
  induction hwithin with
  | refl => exact le_refl id
  | tail _ hlast ih =>
    obtain ⟨m, hm, hparent⟩ := hlast
    exact ih.trans (h.parent_lt hm hparent).le

/-- The path of a module begins the paths of all that lies within it. -/
theorem WellFormed.exists_placeAt?_of_within (h : t.WellFormed) {path : List String}
    {id inner : Nat} (hplace : t.placeAt? path = some (some id)) (hwithin : t.Within id inner) :
    ∃ back, t.placeAt? (path ++ back) = some (some inner) := by
  induction hwithin with
  | refl => exact ⟨[], by simpa using hplace⟩
  | tail _ hlast ih =>
    obtain ⟨back, hback⟩ := ih
    obtain ⟨m, hm, hparent⟩ := hlast
    refine ⟨back ++ [m.name], ?_⟩
    rw [← List.append_assoc]
    exact placeAt?_concat_eq_some_iff.mpr ⟨_, _, hback, hparent ▸ h.entered hm, rfl⟩

/-- Nothing lies within two siblings. -/
theorem WellFormed.pairwise_children (h : t.WellFormed) {above : List String} {start : Option Nat}
    (habove : t.placeAt? above = some start) :
    (t.children start).values.Pairwise fun id other =>
      ∀ inner, ¬ (t.Within id inner ∧ t.Within other inner) := by
  have hplace : ∀ entry ∈ (t.children start).entries,
      t.placeAt? (above ++ [entry.1]) = some (some entry.2) := fun entry hentry =>
    placeAt?_concat_eq_some_iff.mpr
      ⟨start, entry.2, habove, Table.find?_eq_some_iff.mpr hentry, rfl⟩
  have hnames : (t.children start).entries.Pairwise fun e e' => e.1 ≠ e'.1 :=
    List.pairwise_map.mp (t.children start).nodup_keys
  refine List.pairwise_map.mpr (hnames.imp_of_mem ?_)
  rintro entry other hentry hother hne inner ⟨hwithin, hwithin'⟩
  obtain ⟨back, hback⟩ := h.exists_placeAt?_of_within (hplace entry hentry) hwithin
  obtain ⟨back', hback'⟩ := h.exists_placeAt?_of_within (hplace other hother) hwithin'
  have hpath := h.placeAt?_injective hback hback'
  rw [List.append_assoc, List.append_assoc, List.append_cancel_left_eq] at hpath
  exact hne (List.cons.inj hpath).1

/-- Where nothing lies within two of the given modules, a depth-first order has no module twice. -/
theorem DepthFirst.nodup (h : t.DepthFirst ids order) (hwellFormed : t.WellFormed)
    (hapart : ids.Pairwise fun id other => ∀ inner, ¬ (t.Within id inner ∧ t.Within other inner)) :
    order.Nodup := by
  induction h with
  | nil => exact List.nodup_nil
  | @cons id m ids below rest hm hbelow hrest ihBelow ihRest =>
    obtain ⟨hfirst, hothers⟩ := List.pairwise_cons.mp hapart
    obtain ⟨path, -, hplace⟩ := hwellFormed.exists_placeAt? hm
    have hblock : (id :: below).Nodup := by
      refine List.nodup_cons.mpr ⟨fun hid => ?_, ihBelow ?_⟩
      · obtain ⟨child, hchild, hwithin⟩ := (hbelow.mem_iff hwellFormed).mp hid
        obtain ⟨c, hc, hparent⟩ := (hwellFormed.encloses_iff hm).mpr hchild
        have hlt := hwellFormed.parent_lt hc hparent
        have hle := hwellFormed.le_of_within hwithin
        omega
      · rw [← children_eq_modules hm]
        exact hwellFormed.pairwise_children hplace
    refine List.nodup_append.mpr ⟨hblock, ihRest hothers, ?_⟩
    rintro inner hinner _ hlater rfl
    have hown : t.DepthFirst [id] (id :: below ++ []) := .cons hm hbelow .nil
    obtain ⟨other, hother, hwithin'⟩ := (hrest.mem_iff hwellFormed).mp hlater
    have hwithin : t.Within id inner := by
      simpa using (hown.mem_iff hwellFormed).mp (by simpa using hinner)
    exact hfirst other hother inner ⟨hwithin, hwithin'⟩

/-! ## All modules -/

/-- Every module lies within a root. -/
theorem WellFormed.exists_root (h : t.WellFormed) {id : Nat} (hid : id < t.size) :
    ∃ root ∈ t.roots.values, t.Within root id := by
  induction id using Nat.strongRecOn with
  | ind id ih =>
    obtain ⟨m, hm⟩ := Option.isSome_iff_exists.mp (module?_isSome_iff.mpr hid)
    cases hparent : m.parent with
    | none =>
      have hentered := h.entered hm
      rw [hparent] at hentered
      exact ⟨id, Table.mem_values_iff.mpr ⟨m.name, hentered⟩, .refl⟩
    | some p =>
      have hlt := h.parent_lt hm hparent
      obtain ⟨root, hroot, hwithin⟩ := ih p hlt (hlt.trans hid)
      exact ⟨root, hroot, hwithin.tail ⟨m, hm, hparent⟩⟩

/-- Roots are modules of the tree. -/
theorem WellFormed.lt_size_of_mem_roots (h : t.WellFormed) {id : Nat} (hid : id ∈ t.roots.values) :
    id < t.size := by
  have hchild : id ∈ (t.children none).values := hid
  exact h.lt_size_of_mem_children hchild

/-- A depth-first order of the roots has all modules, each before what is below it. -/
theorem DepthFirst.inPreorder (h : t.DepthFirst t.roots.values order)
    (hwellFormed : t.WellFormed) : t.InPreorder order := by
  have hmem : ∀ id, id ∈ order ↔ id < t.size := by
    intro id
    rw [h.mem_iff hwellFormed]
    refine ⟨?_, hwellFormed.exists_root⟩
    rintro ⟨root, hroot, hwithin⟩
    rcases Relation.ReflTransGen.cases_tail hwithin with rfl | ⟨_, -, m, hm, -⟩
    · exact hwellFormed.lt_size_of_mem_roots hroot
    · exact module?_lt hm
  have hblock : ∀ id < t.size, ∃ m before inner after, t.module? id = some m ∧
      t.DepthFirst m.modules.values inner ∧ order = before ++ (id :: inner) ++ after :=
    fun id hid => h.exists_block ((hmem id).mpr hid)
  have hinside : ∀ before block after : List Nat, block.Sublist (before ++ block ++ after) :=
    fun before block after => (List.infix_append before block after).sublist
  constructor
  case nodup =>
    exact h.nodup hwellFormed (hwellFormed.pairwise_children t.placeAt?_nil)
  case mem_iff => exact hmem
  case encloses =>
    intro id child hencloses
    obtain ⟨c, hc, hparent⟩ := hencloses
    have hid := (hwellFormed.parent_lt hc hparent).trans (module?_lt hc)
    obtain ⟨m, before, inner, after, hm, hinner, rfl⟩ := hblock id hid
    have hchild := (hwellFormed.encloses_iff hm).mp ⟨c, hc, hparent⟩
    have hbehind : [child].Sublist inner :=
      List.singleton_sublist.mpr (hinner.sublist.subset hchild)
    exact (hbehind.cons_cons id).trans (hinside before _ after)
  case siblings =>
    intro start hstart
    cases start with
    | none => exact h.sublist
    | some id =>
      obtain ⟨m, before, inner, after, hm, hinner, rfl⟩ := hblock id (hstart id rfl)
      rw [children_eq_modules hm]
      exact (hinner.sublist.trans (List.sublist_cons_self id inner)).trans
        (hinside before _ after)
  case together =>
    intro id hid
    obtain ⟨m, before, inner, after, hm, hinner, rfl⟩ := hblock id hid
    refine ⟨before, inner, after, rfl, fun other => ?_⟩
    have hown : t.DepthFirst [id] (id :: inner ++ []) := .cons hm hinner .nil
    have hmemOwn : other ∈ id :: inner ++ [] ↔ _ := hown.mem_iff hwellFormed
    simpa using hmemOwn

/-- The order has the indices of all modules, one after another in some order. -/
theorem InPreorder.perm_range (h : t.InPreorder order) : order.Perm (List.range t.size) := by
  rw [List.perm_ext_iff_of_nodup h.nodup List.nodup_range]
  simpa using h.mem_iff

/-- The order is as long as there are modules. -/
theorem InPreorder.length_eq (h : t.InPreorder order) : order.length = t.size := by
  simpa using h.perm_range.length_eq

/-! ## The loop -/

/-- With room for all of a depth-first order, the order is what is listed. -/
theorem DepthFirst.listFrom_eq (h : t.DepthFirst ids order) (bound : Nat) (pending : List Nat) :
    t.listFrom (order.length + bound) (ids ++ pending) = order ++ t.listFrom bound pending := by
  induction h generalizing bound pending with
  | nil => simp
  | @cons id m ids below rest hm _ _ ihBelow ihRest =>
    have hlength : (id :: below ++ rest).length + bound =
        below.length + (rest.length + bound) + 1 := by
      simp only [List.length_append, List.length_cons]
      omega
    rw [hlength, List.cons_append, listFrom, children_eq_modules hm, ihBelow, ihRest]
    simp

/-- The modules of a well-formed tree are listed depth first. -/
theorem WellFormed.depthFirst_preorder (h : t.WellFormed) :
    t.DepthFirst t.roots.values t.preorder := by
  obtain ⟨order, horder⟩ := h.exists_depthFirst fun _ => h.lt_size_of_mem_roots
  have hlist := horder.listFrom_eq 0 []
  have hempty : t.listFrom 0 [] = [] := rfl
  rw [(horder.inPreorder h).length_eq, hempty, List.append_nil, List.append_nil] at hlist
  rw [preorder]
  exact hlist ▸ horder

end FirmwareModel.ModuleTree
