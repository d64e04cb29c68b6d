import FirmwareModel.Proofs.Tree.Counting
import FirmwareModel.Proofs.Tree.Heirs
import FirmwareModel.Proofs.Tree.Preorder

/-!
# Loops over modules

A pass over a tree gives the modules a turn each, in the order of documents. A turn enters its
module in a tally and changes it. No module has its turn twice and none is left out, so in the end
each module has been changed from what it was at the start, and the tally has met each of them. The
passes that settle a tree can therefore change all modules at once and sum over all of them.
-/

namespace FirmwareModel

namespace ModuleTree

variable {α β : Type} {t t' : ModuleTree} {f g : Nat → Module → Module} {tally : β → Module → β}

/-! ## Turns -/

/-- One turn of a loop over modules: the module with the index is entered in the tally as it is, and
changed. -/
def turn (f : Nat → Module → Module) (tally : β → Module → β) (s : ModuleTree × β) (id : Nat) :
    ModuleTree × β :=
  (s.1.modifyModule id (f id), (s.1.module? id).elim s.2 (tally s.2))

/-- The tree and the tally once each module has had its turn, in the order of documents. -/
def loop (f : Nat → Module → Module) (tally : β → Module → β) (b : β) (t : ModuleTree) :
    ModuleTree × β :=
  t.preorder.foldl (turn f tally) (t, b)

/-- The turn of a module that no turn before has changed. -/
theorem turn_mapModules {id : Nat} (hid : ∀ m, g id m = m) (b : β) :
    turn f tally (t.mapModules g, b) id =
      (t.mapModules fun i m => if i = id then f i m else g i m,
        (t.module? id).elim b (tally b)) := by
  have hchanged : (t.mapModules g).modifyModule id (f id) =
      t.mapModules fun i m => if i = id then f i m else g i m := by
    rw [modifyModule_eq_mapModules, mapModules_mapModules]
    refine mapModules_congr fun i m _ => ?_
    by_cases hi : i = id
    · subst hi
      simp [hid]
    · simp [hi]
  have hmodule : (t.mapModules g).module? id = t.module? id := by
    rw [module?_mapModules, funext hid]
    exact Option.map_id'
  rw [turn, hchanged, hmodule]

/-- After turns of distinct modules, these have been changed and entered in the tally, and the
others are as they were. -/
theorem foldl_turn {ids : List Nat} (hnodup : ids.Nodup) (t : ModuleTree) (b : β) :
    ids.foldl (turn f tally) (t, b) =
      (t.mapModules fun id m => if id ∈ ids then f id m else m,
        (ids.filterMap t.module?).foldl tally b) := by
  -- By induction on the turns that are over, so that the module of the next one is untouched.
  induction ids using List.reverseRecOn with
  | nil => simp
  | append_singleton ids id ih =>
    obtain ⟨hids, -, hapart⟩ := List.nodup_append.mp hnodup
    have hid : id ∉ ids := fun hmem => hapart id hmem id (List.mem_singleton_self id) rfl
    rw [List.foldl_append, ih hids, List.foldl_cons, List.foldl_nil,
      turn_mapModules fun _ => if_neg hid]
    refine Prod.ext ?_ ?_
    · refine mapModules_congr fun i m _ => ?_
      by_cases hi : i = id
      · simp [hi]
      · simp [hi]
    · rw [List.filterMap_append, List.foldl_append]
      cases hm : t.module? id <;> simp [hm]

/-! ## Loops -/

/-- The order of documents goes through all modules, each of them once. -/
theorem WellFormed.inPreorder_preorder (h : t.WellFormed) : t.InPreorder t.preorder :=
  h.depthFirst_preorder.inPreorder h

/-- What is computed for the modules in the order of documents is what is computed for them in the
order in which they came. -/
theorem WellFormed.perm_filterMap_preorder (h : t.WellFormed) (value : Nat → Module → α) :
    (t.preorder.filterMap fun id => (t.module? id).map (value id)).Perm
      (t.nodes.toList.mapIdx value) := by
  have hvalues := congrArg (List.filterMap id) (t.map_some_mapIdx value)
  rw [List.filterMap_map, List.filterMap_map] at hvalues
  have hself : (t.nodes.toList.mapIdx value).filterMap (id ∘ some) =
      t.nodes.toList.mapIdx value := List.filterMap_some
  rw [hself] at hvalues
  rw [hvalues]
  exact h.inPreorder_preorder.perm_range.filterMap _

/-- A loop over a well-formed tree changes every module as it was at the start and enters each of
them in the tally. -/
theorem WellFormed.loop_eq (h : t.WellFormed) (b : β) :
    t.loop f tally b = (t.mapModules f, (t.preorder.filterMap t.module?).foldl tally b) := by
  have horder := h.inPreorder_preorder
  rw [loop, foldl_turn horder.nodup]
  refine Prod.ext (mapModules_congr fun id m hm => ?_) rfl
  exact if_pos ((horder.mem_iff id).mpr (module?_lt hm))

/-- A loop that only changes modules. -/
theorem WellFormed.foldl_modifyModule (h : t.WellFormed) (f : Nat → Module → Module) :
    t.preorder.foldl (fun u id => u.modifyModule id (f id)) t = t.mapModules f := by
  have hturns : (t.loop f (fun _ _ => ()) ()).1 =
      t.preorder.foldl (fun u id => u.modifyModule id (f id)) t :=
    (List.foldl_hom Prod.fst fun _ _ => rfl).symm
  rw [← hturns, h.loop_eq]

/-- Where it does not matter which of two modules comes first, a loop comes to the tally of the
modules in the order in which they came. -/
theorem WellFormed.loop_eq_of_comm (h : t.WellFormed)
    (hcomm : ∀ b m n, tally (tally b m) n = tally (tally b n) m) (b : β) :
    t.loop f tally b = (t.mapModules f, t.nodes.toList.foldl tally b) := by
  have hperm : (t.preorder.filterMap t.module?).Perm t.nodes.toList := by
    have hvalues := h.perm_filterMap_preorder fun _ m => m
    have hself : t.nodes.toList.mapIdx (fun _ m => m) = t.nodes.toList :=
      List.ext_getElem? (by simp)
    simpa [hself] using hvalues
  rw [h.loop_eq]
  exact congrArg (Prod.mk _) (hperm.foldl_eq' (fun m _ n _ c => hcomm c m n) b)

/-! ## Addresses and counts -/

section

variable {table : AddressTable} {target : TargetSettings}

/-- A running sum over modules is the sum of what they add. -/
theorem foldl_add_eq_foldr (value : Module → Nat) (modules : List Module) :
    modules.foldl (fun n m => n + value m) 0 = (modules.map value).foldr (· + ·) 0 := by
  rw [← List.foldl_map, ← List.sum_eq_foldl, List.sum_eq_foldr]

/-- A sum over all modules is a running sum in the order of documents. -/
theorem WellFormed.count_eq_loop (h : t.WellFormed) (value : Module → Nat) :
    (t, t.count value) = t.loop (fun _ m => m) (fun n m => n + value m) 0 := by
  rw [h.loop_eq_of_comm fun n m m' => Nat.add_right_comm n (value m) (value m'), mapModules_id,
    foldl_add_eq_foldr, count]

/-- Addresses are settled and counted module by module in the order of documents. -/
theorem WellFormed.resolve_eq_loop (h : t.WellFormed) :
    t.resolve table target =
      t.loop (fun _ => Module.resolve table target)
        (fun counts m => counts + m.addressCounts table target) {} := by
  rw [h.loop_eq_of_comm fun counts m n => AddressCounts.add_right_comm counts _ _,
    AddressCounts.foldl_add, AddressCounts.zero_add, ModuleTree.resolve]

/-- Where there are procedures, their arguments are put in the overlay module by module in the order
of documents. -/
theorem WellFormed.placeArguments_eq_loop (h : t.WellFormed)
    (hprocedures : t.hasProcedures = true) (hplaced : t.placeArguments table target = .ok t') :
    ∃ p, table.placement? target.argumentBase = some p ∧ target.ramBase ≤ p.load ∧
      t' = t.preorder.foldl (fun u id => u.modifyModule id
        (Module.placeArguments p.symbol (p.load - target.ramBase))) t := by
  obtain ⟨f, rfl, -, hplacement⟩ := placeArguments_eq_ok hplaced
  obtain ⟨p, hp, hram, rfl⟩ := hplacement hprocedures
  exact ⟨p, hp, hram, (h.foldl_modifyModule fun _ =>
    Module.placeArguments p.symbol (p.load - target.ramBase)).symm⟩

end

/-! ## Callables that are taken over -/

/-- A callable that an input takes over: the index of the module, the name of the input and the
copy that it gets. -/
structure Takeover where
  id : Nat
  name : String
  callable : Callable
  deriving DecidableEq, Repr

/-- What the inputs of a module take over, in the order of the inputs. -/
def takeoversOf (t : ModuleTree) (id : Nat) : List Takeover :=
  match t.module? id, t.inheritable? id with
  | some m, some source =>
    (m.inputs.entries.filter fun entry => entry.2.isOrphan).map fun entry =>
      ⟨id, entry.1, source.inheritedCopy⟩
  | _, _ => []

/-- What inputs take over, module by module in the order of documents. -/
def takeovers (t : ModuleTree) : List Takeover :=
  t.preorder.flatMap t.takeoversOf

/-- The module after one of its inputs has taken over a callable. -/
def Takeover.apply (taken : Takeover) (m : Module) : Module :=
  { m with
    inputs := m.inputs.modify taken.name fun i => { i with callable := some taken.callable } }

/-- The tree after one input has taken over a callable. -/
def takeOver (t : ModuleTree) (taken : Takeover) : ModuleTree :=
  t.modifyModule taken.id taken.apply

/-- Handing out callables in a module changes its inputs one by one. -/
theorem foldl_apply (taken : List Takeover) (m : Module) :
    taken.foldl (fun m one => one.apply m) m =
      { m with
        inputs := taken.foldl
          (fun u one => u.modify one.name fun i => { i with callable := some one.callable })
          m.inputs } := by
  induction taken generalizing m with
  | nil => rfl
  | cons one taken ih => rw [List.foldl_cons, ih, List.foldl_cons, Takeover.apply]

/-- When all that its inputs take over has been handed out, a module has taken over. -/
theorem foldl_apply_takeoversOf {id : Nat} {m : Module} (hm : t.module? id = some m) :
    (t.takeoversOf id).foldl (fun m one => one.apply m) m = m.inherit (t.inheritable? id) := by
  rw [foldl_apply, Module.inherit]
  cases hsource : t.inheritable? id with
  | none =>
    have hnone : t.takeoversOf id = [] := by simp [takeoversOf, hm, hsource]
    simp [hnone, funext Input.inherit_none]
  | some source =>
    have hsome : t.takeoversOf id = (m.inputs.entries.filter fun entry => entry.2.isOrphan).map
        fun entry => ⟨id, entry.1, source.inheritedCopy⟩ := by
      simp [takeoversOf, hm, hsource]
    have hinputs := Table.foldl_modify_filter Input.isOrphan
      (fun i => { i with callable := some source.inheritedCopy }) m.inputs
    rw [hsome, List.foldl_map]
    exact congrArg (fun inputs => { m with inputs }) hinputs

/-- The inputs of a module that need a callable take one over, if there is one. -/
theorem length_takeoversOf {id : Nat} {m : Module} (hm : t.module? id = some m) :
    (t.takeoversOf id).length = if (t.inheritable? id).isSome then m.orphanCount else 0 := by
  cases hsource : t.inheritable? id with
  | none => simp [takeoversOf, hm, hsource]
  | some source =>
    simp only [takeoversOf, hm, hsource, List.length_map, Option.isSome_some, if_true,
      Module.orphanCount, Table.values, List.countP_map]
    exact List.countP_eq_length_filter.symm

/-- Handing out what the inputs of one module take over changes that module. -/
theorem foldl_takeOver_takeoversOf (t u : ModuleTree) (id : Nat) :
    (t.takeoversOf id).foldl takeOver u =
      u.modifyModule id fun m => (t.takeoversOf id).foldl (fun m one => one.apply m) m := by
  have hid : ∀ one ∈ t.takeoversOf id, one.id = id := by
    intro one hone
    unfold takeoversOf at hone
    split at hone
    · obtain ⟨_, -, rfl⟩ := List.mem_map.mp hone
      rfl
    · cases hone
  generalize t.takeoversOf id = taken at hid
  induction taken generalizing u with
  | nil => simp [modifyModule_eq_mapModules]
  | cons one taken ih =>
    obtain ⟨hone, htaken⟩ := List.forall_mem_cons.mp hid
    rw [List.foldl_cons, ih (u.takeOver one) htaken, takeOver, hone, modifyModule_eq_mapModules,
      modifyModule_eq_mapModules, modifyModule_eq_mapModules, mapModules_mapModules]
    refine mapModules_congr fun i m _ => ?_
    by_cases hi : i = id <;> simp [hi]

/-- Callables are taken over in two steps. The first goes through the modules in the order of
documents and lists, input by input, what there is to take over; the second hands it out. The count
is that of the list. -/
theorem WellFormed.inherit_eq_loop (h : t.WellFormed) :
    t.inherit = (t.takeovers.foldl takeOver t, t.takeovers.length) := by
  have htree : t.takeovers.foldl takeOver t = t.inherit.1 := by
    -- The list was made before any of it is handed out, so each module gets what the tree had.
    rw [takeovers, List.foldl_flatMap]
    simp only [foldl_takeOver_takeoversOf]
    rw [h.foldl_modifyModule, inherit_fst_eq]
    exact mapModules_congr fun id m => foldl_apply_takeoversOf
  have hcount : t.takeovers.length = t.inherit.2 := by
    have hlengths : t.preorder.map (fun id => (t.takeoversOf id).length) =
        t.preorder.filterMap fun id => (t.module? id).map fun m =>
          if (t.inheritable? id).isSome then m.orphanCount else 0 := by
      rw [← List.filterMap_eq_map]
      refine List.filterMap_congr fun id hid => ?_
      have hlt := (h.inPreorder_preorder.mem_iff id).mp hid
      obtain ⟨m, hm⟩ := Option.isSome_iff_exists.mp (module?_isSome_iff.mpr hlt)
      rw [Function.comp_apply, length_takeoversOf hm, hm, Option.map_some]
    have hsum := (h.perm_filterMap_preorder fun id m =>
      if (t.inheritable? id).isSome then m.orphanCount else 0).sum_nat
    rw [takeovers, List.length_flatMap, hlengths, hsum, List.sum_eq_foldr, ModuleTree.inherit]
  exact Prod.ext htree.symm hcount.symm

end ModuleTree

end FirmwareModel
