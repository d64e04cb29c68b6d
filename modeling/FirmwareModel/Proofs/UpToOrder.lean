import Mathlib.Data.List.Forall2
import Mathlib.Data.List.Perm.Basic
import FirmwareModel.Proofs.Table

/-!
# Lists up to their order

Two lists are related up to order when the items of one can be rearranged so that they are related
to those of the other one by one. Tables that agree at every name list related values up to order,
whatever the orders in which their names arrived.
-/

namespace FirmwareModel

variable {α β κ : Type} {r : α → β → Prop}

/-- Views of related values that do not tell them apart are the same. -/
theorem map_eq_of_rel {γ : Type} {a : Option α} {b : Option β} (h : Option.Rel r a b) {f : α → γ}
    {g : β → γ} (hview : ∀ x y, r x y → f x = g y) : a.map f = b.map g := by
  cases h with
  | none => rfl
  | some hxy => exact congrArg some (hview _ _ hxy)

/-- The lists have related items, after some rearrangement. -/
def UpToOrder (r : α → β → Prop) (l : List α) (l' : List β) : Prop :=
  ∃ mid, l.Perm mid ∧ List.Forall₂ r mid l'

/-- Lists of the same items up to order are permutations of each other. -/
theorem upToOrder_eq_iff {l l' : List α} : UpToOrder (· = ·) l l' ↔ l.Perm l' := by
  simp [UpToOrder, List.forall₂_eq_eq_eq]

/-- Related values that are found at rearranged keys are related up to order. -/
theorem upToOrder_filterMap {keys keys' : List κ} (hkeys : keys.Perm keys') {f : κ → Option α}
    {g : κ → Option β} (h : ∀ key ∈ keys', Option.Rel r (f key) (g key)) :
    UpToOrder r (keys.filterMap f) (keys'.filterMap g) := by
  refine ⟨keys'.filterMap f, hkeys.filterMap f, ?_⟩
  have hsame : List.Forall₂ (fun key key' => Option.Rel r (f key) (g key')) keys' keys' :=
    List.forall₂_same.mpr h
  exact List.rel_filterMap (fun _ _ hrel => hrel) hsame

/-- Distinct names are the same up to order when they are the same names. -/
theorem perm_eraseDups {names names' : List String} (h : ∀ name, name ∈ names ↔ name ∈ names') :
    names.eraseDups.Perm names'.eraseDups := by
  rw [List.perm_ext_iff_of_nodup (nodup_eraseDups names) (nodup_eraseDups names')]
  simpa using h

namespace Table

variable {γ δ : Type}

/-- The values of a table are found at its names. -/
theorem values_eq_filterMap_keys (t : Table γ) : t.values = t.keys.filterMap t.find? := by
  have hfind : ∀ entry ∈ t.entries, t.find? entry.1 = some entry.2 := fun entry hentry =>
    find?_eq_some_iff.mpr hentry
  rw [values, keys]
  generalize t.entries = entries at hfind
  induction entries with
  | nil => rfl
  | cons entry entries ih =>
    rw [List.map_cons, List.map_cons, List.filterMap_cons, hfind entry (by simp),
      ih fun other hother => hfind other (by simp [hother])]

/-- Tables have the same names when they have values at the same names. -/
theorem perm_keys {s : Table γ} {t : Table δ}
    (h : ∀ key, (s.find? key).isSome ↔ (t.find? key).isSome) : s.keys.Perm t.keys := by
  refine (List.perm_ext_iff_of_nodup s.nodup_keys t.nodup_keys).mpr fun key => ?_
  exact mem_keys_iff.trans ((h key).trans mem_keys_iff.symm)

/-- Tables with related views of the values at every name list related views up to order. -/
theorem upToOrder_map_values {s : Table γ} {t : Table δ} {f : γ → α} {g : δ → β}
    (h : ∀ key, Option.Rel r ((s.find? key).map f) ((t.find? key).map g)) :
    UpToOrder r (s.values.map f) (t.values.map g) := by
  have hkeys : s.keys.Perm t.keys := by
    refine perm_keys fun key => ?_
    have hkey := h key
    cases hs : s.find? key <;> cases ht : t.find? key <;> simp_all
  rw [values_eq_filterMap_keys, values_eq_filterMap_keys, List.map_filterMap, List.map_filterMap]
  exact upToOrder_filterMap hkeys fun key _ => h key

/-- Tables with the same view of the value at every name list the same views up to order. -/
theorem perm_map_values {s : Table γ} {t : Table δ} {f : γ → α} {g : δ → α}
    (h : ∀ key, (s.find? key).map f = (t.find? key).map g) :
    (s.values.map f).Perm (t.values.map g) := by
  refine upToOrder_eq_iff.mp (upToOrder_map_values fun key => ?_)
  rw [h key]
  cases (t.find? key).map g
  · exact .none
  · exact .some rfl

end Table

end FirmwareModel
