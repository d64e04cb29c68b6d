import Mathlib.Data.List.Infix
import FirmwareModel.Proofs.Tree.InPlace
import FirmwareModel.Tree.Inheritance

/-!
# Enclosing modules

In a well-formed tree the chain from a module to the one that encloses it, and so on, is the chain
of the modules at the non-empty beginnings of its path, the longest first. The index of the module
is bound enough to reach its end.
-/

namespace FirmwareModel

/-- The path of a module and those of the modules around it, from the inside outwards. -/
def enclosingPaths (path : List String) : List (List String) :=
  path.inits.tail.reverse

/-- There is nothing around the empty path. -/
@[simp] theorem enclosingPaths_nil : enclosingPaths [] = [] := rfl

/-- The paths around a module are its own and those around the module that encloses it. -/
theorem enclosingPaths_concat (path : List String) (name : String) :
    enclosingPaths (path ++ [name]) = (path ++ [name]) :: enclosingPaths path := by
  have hne : path.inits ≠ [] := by cases path <;> simp
  simp [enclosingPaths, List.inits_append, List.tail_append_of_ne_nil hne]

/-- Around a module are those at the beginnings of its path, itself included. -/
theorem mem_enclosingPaths_iff {path other : List String} :
    other ∈ enclosingPaths path ↔ other ≠ [] ∧ other <+: path := by
  induction path using List.reverseRecOn with
  | nil =>
    simp only [enclosingPaths_nil, List.not_mem_nil, List.prefix_nil, false_iff, not_and]
    exact id
  | append_singleton path name ih =>
    rw [enclosingPaths_concat, List.mem_cons, ih, List.prefix_concat_iff]
    constructor
    · rintro (rfl | ⟨hne, hpre⟩)
      · exact ⟨by simp, Or.inl rfl⟩
      · exact ⟨hne, Or.inr hpre⟩
    · rintro ⟨hne, rfl | hpre⟩
      · exact Or.inl rfl
      · exact Or.inr ⟨hne, hpre⟩

namespace ModuleTree

variable {t : ModuleTree}

/-- A chain from a module outwards that is long enough consists of the modules at the paths around
its path. -/
theorem WellFormed.ancestorsUpTo_eq (h : t.WellFormed) {path : List String} {id bound : Nat}
    (hplace : t.placeAt? path = some (some id)) (hbound : id < bound) :
    t.ancestorsUpTo bound (some id) = (enclosingPaths path).filterMap t.moduleAt? := by
  induction path using List.reverseRecOn generalizing id bound with
  | nil => simp at hplace
  | append_singleton path name ih =>
    obtain ⟨start, id', hstart, hfind, hid⟩ := placeAt?_concat_eq_some_iff.mp hplace
    obtain rfl := Option.some.inj hid
    obtain ⟨m, hm, -, hparent⟩ := h.entry hfind
    obtain ⟨bound, rfl⟩ : ∃ n, bound = n + 1 := ⟨bound - 1, by omega⟩
    have hmodule : t.moduleAt? (path ++ [name]) = some m :=
      moduleAt?_eq_some_iff.mpr ⟨id, hplace, hm⟩
    rw [enclosingPaths_concat, List.filterMap_cons, hmodule]
    simp only [ancestorsUpTo, hm, hparent, List.cons.injEq, true_and]
    cases start with
    | none =>
      obtain rfl := placeAt?_eq_some_none_iff.mp hstart
      cases bound <;> rfl
    | some p =>
      have hlt := h.parent_lt hm hparent
      exact ih hstart (by omega)

/-- The modules around a module are those at the paths around its path. -/
theorem WellFormed.ancestors_eq (h : t.WellFormed) {path : List String} {id : Nat}
    (hplace : t.placeAt? path = some (some id)) :
    t.ancestors id = (enclosingPaths path).filterMap t.moduleAt? :=
  h.ancestorsUpTo_eq hplace (Nat.lt_succ_self id)

end ModuleTree

end FirmwareModel
