import Mathlib.Data.List.Nodup
import Mathlib.Data.Set.List
import FirmwareModel.Proofs.Tree.Alike

/-!
# Counting in trees

The modules of a well-formed tree are at distinct paths, so whatever is counted module by module can
be counted path by path. Trees that are alike therefore come to the same numbers, whatever the
indices of their modules.
-/

namespace FirmwareModel

variable {table : AddressTable} {target : TargetSettings}

/-! ## Sums -/

namespace AddressCounts

/-- Counts are added number by number. -/
theorem add_eq_add (c d : AddressCounts) : c + d = c.add d := rfl

/-- Counts can be added in any order. -/
theorem add_comm (c d : AddressCounts) : c + d = d + c := by
  simp only [add_eq_add, add, AddressCounts.mk.injEq]
  omega

/-- Counts can be added in any grouping. -/
theorem add_assoc (b c d : AddressCounts) : b + c + d = b + (c + d) := by
  simp only [add_eq_add, add, AddressCounts.mk.injEq]
  omega

/-- Adding no counts changes nothing. -/
theorem zero_add (c : AddressCounts) : ({} : AddressCounts) + c = c := by
  simp [add_eq_add, add]

/-- Of three counts, the first two can change places. -/
theorem add_left_comm (b c d : AddressCounts) : b + (c + d) = c + (b + d) := by
  rw [← add_assoc, add_comm b c, add_assoc]

/-- Of three counts, the last two can change places. -/
theorem add_right_comm (b c d : AddressCounts) : b + c + d = b + d + c := by
  rw [add_assoc, add_comm c d, add_assoc]

/-- The sum of counts does not depend on their order. -/
theorem sum_perm {counts counts' : List AddressCounts} (h : counts.Perm counts') :
    sum counts = sum counts' :=
  h.foldr_eq' (fun a _ b _ c => add_left_comm b a c) {}

/-- A running sum of counts is a first count and the sum of all others. -/
theorem foldl_add {α : Type} (value : α → AddressCounts) (first : AddressCounts) (l : List α) :
    l.foldl (fun c a => c + value a) first = first + sum (l.map value) := by
  induction l generalizing first with
  | nil => simp [sum, add_eq_add, add]
  | cons a l ih =>
    rw [List.foldl_cons, ih, add_assoc]
    rfl

end AddressCounts

namespace Module.Alike

variable {m n : Module} (h : m.Alike n)

include h

/-- The references of modules that are alike are counted alike. -/
theorem addressCounts_eq : m.addressCounts table target = n.addressCounts table target := by
  obtain ⟨-, -, -, hcallable, -⟩ := h.shown_eq
  have hprocedures := h.perm_procedures (f := fun p => Callable.counts table target p.callable)
    fun p q hpq => congrArg (Callable.counts table target ·.callable) hpq.bare
  rw [addressCounts, addressCounts, hcallable, AddressCounts.sum_perm (h.perm_inputs _),
    AddressCounts.sum_perm hprocedures]

/-- Modules that are alike have as many inputs that need a callable. -/
theorem orphanCount_eq : m.orphanCount = n.orphanCount := by
  have hinputs : m.inputs.values.Perm n.inputs.values := by simpa using h.perm_inputs id
  exact hinputs.countP_eq _

/-- The procedures of modules that are alike have as many arguments. -/
theorem argumentCount_eq :
    (m.procedures.values.map fun p => p.arguments.size).foldr (· + ·) 0 =
      (n.procedures.values.map fun p => p.arguments.size).foldr (· + ·) 0 :=
  (h.perm_procedures fun _ _ hpq => hpq.size_arguments_eq).sum_nat

end Module.Alike

namespace ModuleTree

variable {α : Type} {t u : ModuleTree}

/-- What is computed at the module at a path, given its index. -/
def valueAt? (t : ModuleTree) (f : Nat → Module → α) (path : List String) : Option α :=
  (t.placeAt? path).join.bind fun id => (t.module? id).map (f id)

/-- What is computed of modules alone is computed of the module at a path. -/
theorem valueAt?_const (f : Module → α) (path : List String) :
    t.valueAt? (fun _ => f) path = (t.moduleAt? path).map f := by
  rw [valueAt?, moduleAt?, findFrom?_eq_join, ← placeAt?, Option.map_bind]
  rfl

/-- What is computed for the modules in turn, given their indices. -/
theorem map_some_mapIdx (t : ModuleTree) (f : Nat → Module → α) :
    (t.nodes.toList.mapIdx f).map some =
      (List.range t.size).map fun id => (t.module? id).map (f id) := by
  apply List.ext_getElem?
  intro id
  simp only [List.getElem?_map, List.getElem?_mapIdx, Array.getElem?_toList, module?]
  by_cases hid : id < t.size
  · simp [hid, show id < t.nodes.size from hid]
  · have hnone : t.nodes[id]? = none := Array.getElem?_eq_none (Nat.le_of_not_lt hid)
    simp [hnone, Nat.le_of_not_lt hid]

/-- The modules of a well-formed tree are at distinct paths, and whatever is computed at each of
them can be computed path by path. -/
theorem WellFormed.exists_paths (h : t.WellFormed) : ∃ paths : List (List String), paths.Nodup ∧
    (∀ path, path ∈ paths ↔ ∃ id, t.placeAt? path = some (some id)) ∧
      ∀ f : Nat → Module → α, t.nodes.toList.mapIdx f = paths.filterMap (t.valueAt? f) := by
  -- Each module is at some path, so the indices in turn are where some list of paths leads.
  have hrange : (List.range t.size).map (fun id => some (some id)) ∈
      Set.range (List.map t.placeAt?) := by
    rw [Set.range_list_map]
    intro place hplace
    obtain ⟨id, hid, rfl⟩ := List.mem_map.mp hplace
    obtain ⟨m, hm⟩ := Option.isSome_iff_exists.mp (module?_isSome_iff.mpr (List.mem_range.mp hid))
    obtain ⟨path, -, hpath⟩ := h.exists_placeAt? hm
    exact ⟨path ++ [m.name], hpath⟩
  obtain ⟨paths, hpaths⟩ := hrange
  refine ⟨paths, ?_, fun path => ?_, fun f => ?_⟩
  · have hnodup : ((List.range t.size).map fun id => some (some id)).Nodup :=
      List.Nodup.map (fun _ _ heq => Option.some.inj (Option.some.inj heq)) List.nodup_range
    rw [← hpaths] at hnodup
    exact List.Nodup.of_map _ hnodup
  · have hplaces : ∀ place,
        place ∈ paths.map t.placeAt? ↔ ∃ id < t.size, some (some id) = place := by
      simp [hpaths]
    constructor
    · intro hmem
      obtain ⟨id, -, hid⟩ := (hplaces _).mp (List.mem_map_of_mem hmem)
      exact ⟨id, hid.symm⟩
    · rintro ⟨id, hid⟩
      obtain ⟨other, hother, heq⟩ :=
        List.mem_map.mp ((hplaces _).mpr ⟨id, h.lt_size_of_placeAt? hid, rfl⟩)
      rwa [h.placeAt?_injective hid heq]
  · have hpathValues : paths.map (t.valueAt? f) =
        (List.range t.size).map fun id => (t.module? id).map (f id) := by
      have hcompose := congrArg (List.map fun place : Option (Option Nat) =>
        place.join.bind fun id => (t.module? id).map (f id)) hpaths
      rw [List.map_map, List.map_map] at hcompose
      exact hcompose
    have hsame := congrArg (List.filterMap id) ((t.map_some_mapIdx f).trans hpathValues.symm)
    simpa [List.filterMap_map] using hsame

/-- Where two trees compute the same at every path, they compute the same up to order. -/
theorem WellFormed.perm_mapIdx (ht : t.WellFormed) (hu : u.WellFormed) {f g : Nat → Module → α}
    (h : ∀ path, t.valueAt? f path = u.valueAt? g path) :
    (t.nodes.toList.mapIdx f).Perm (u.nodes.toList.mapIdx g) := by
  obtain ⟨paths, hnodup, hmem, hvalues⟩ := ht.exists_paths (α := α)
  obtain ⟨paths', hnodup', hmem', hvalues'⟩ := hu.exists_paths (α := α)
  have hsome : ∀ {t : ModuleTree}, t.WellFormed → ∀ (f : Nat → Module → α) path,
      (t.valueAt? f path).isSome ↔ ∃ id, t.placeAt? path = some (some id) := by
    intro t ht f path
    rw [valueAt?]
    constructor
    · intro hvalue
      obtain ⟨value, hvalue⟩ := Option.isSome_iff_exists.mp hvalue
      obtain ⟨id, hid, -⟩ := Option.bind_eq_some_iff.mp hvalue
      exact ⟨id, Option.join_eq_some_iff.mp hid⟩
    · rintro ⟨id, hid⟩
      obtain ⟨m, hm⟩ := ht.exists_module?_of_placeAt? hid
      simp [hid, hm]
  have hpaths : paths.Perm paths' := by
    rw [List.perm_ext_iff_of_nodup hnodup hnodup']
    intro path
    rw [hmem, hmem', ← hsome ht f, ← hsome hu g, h path]
  rw [hvalues, hvalues', funext h]
  exact hpaths.filterMap _

section

variable (h : t.Alike u) (ht : t.WellFormed) (hu : u.WellFormed)

include h ht hu

/-- What is computed alike for modules that are alike comes to the same values in trees that are
alike, up to order. -/
theorem Alike.perm_map {f : Module → α} (hf : ∀ m n, m.Alike n → f m = f n) :
    (t.nodes.toList.map f).Perm (u.nodes.toList.map f) := by
  have hmap : ∀ modules : List Module, modules.map f = modules.mapIdx fun _ => f := fun modules =>
    List.ext_getElem? (by simp)
  rw [hmap, hmap]
  refine ht.perm_mapIdx hu fun path => ?_
  rw [valueAt?_const, valueAt?_const]
  exact map_eq_of_rel (h.moduleAt?_rel path) hf

/-- Trees that are alike have as many modules. -/
theorem Alike.size_eq : t.size = u.size := by
  simpa [size] using (h.perm_map ht hu (f := fun _ => ()) fun _ _ _ => rfl).length_eq

/-- A number that is the same for modules that are alike comes to the same sum in trees that are
alike. -/
theorem Alike.count_eq {f : Module → Nat} (hf : ∀ m n, m.Alike n → f m = f n) :
    t.count f = u.count f :=
  (h.perm_map ht hu hf).sum_nat

/-- References are counted alike. -/
theorem Alike.addressCounts_eq :
    (t.resolve table target).2 = (u.resolve table target).2 :=
  AddressCounts.sum_perm (h.perm_map ht hu fun _ _ hmn => hmn.addressCounts_eq)

/-- As many inputs take over a callable. -/
theorem Alike.inheritedCount_eq : t.inherit.2 = u.inherit.2 := by
  have hvalue : ∀ {t : ModuleTree}, t.WellFormed → ∀ path,
      t.valueAt? (fun id m => if (t.inheritable? id).isSome then m.orphanCount else 0) path =
        (t.moduleAt? path).map fun m =>
          if (nearestCallable? ((enclosingPaths path).filterMap t.moduleAt?)).isSome then
            m.orphanCount
          else 0 := by
    intro t ht path
    rw [← valueAt?_const, valueAt?, valueAt?]
    refine Option.bind_congr fun id hid => ?_
    rw [inheritable?, ht.ancestors_eq (Option.join_eq_some_iff.mp hid)]
  refine (ht.perm_mapIdx hu fun path => ?_).sum_nat
  rw [hvalue ht, hvalue hu, h.nearestCallable?_eq]
  exact map_eq_of_rel (h.moduleAt?_rel path) fun _ _ hmn => by rw [hmn.orphanCount_eq]

end

end ModuleTree

end FirmwareModel
