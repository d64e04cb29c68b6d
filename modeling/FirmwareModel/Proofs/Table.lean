import Mathlib.Data.List.Induction
import FirmwareModel.Table

/-!
# Looking up and listing tables

What each operation on a table does to the two views of it: the value of a name, and the names in
order of arrival. Names that arrive one by one make up the list of the names first seen.
-/

namespace FirmwareModel

/-- Names in order of arrival after one more name has come. -/
def arrive (names : List String) (name : String) : List String :=
  if name ∈ names then names else names ++ [name]

/-- A name that has come before changes nothing. -/
theorem arrive_of_mem {names : List String} {name : String} (hmem : name ∈ names) :
    arrive names name = names :=
  if_pos hmem

/-- A name that comes for the first time goes to the end. -/
theorem arrive_of_notMem {names : List String} {name : String} (hmem : name ∉ names) :
    arrive names name = names ++ [name] :=
  if_neg hmem

/-- The distinct names of a list that goes on with one more name. -/
theorem eraseDups_concat (names : List String) (name : String) :
    (names ++ [name]).eraseDups = arrive names.eraseDups name := by
  rw [List.eraseDups_append, arrive]
  by_cases hmem : name ∈ names
  · simp [hmem, List.removeAll]
  · simp [hmem, List.removeAll, List.eraseDups_cons]

/-- Distinct names stay distinct when one more arrives. -/
theorem nodup_arrive {names : List String} {name : String} (hnodup : names.Nodup) :
    (arrive names name).Nodup := by
  unfold arrive
  split
  · exact hnodup
  case isFalse hmem =>
    simpa [List.nodup_append, hnodup] using fun a ha => ne_of_mem_of_not_mem ha hmem

/-- The distinct names of a list occur once each. -/
theorem nodup_eraseDups (names : List String) : names.eraseDups.Nodup := by
  induction names using List.reverseRecOn with
  | nil => simp
  | append_singleton names name ih =>
    rw [eraseDups_concat]
    exact nodup_arrive ih

/-- The distinct names of a list with a new name somewhere in it. -/
theorem eraseDups_insert {front back : List String} {name : String} (hnew : name ∉ front ++ back) :
    ∃ before after, (front ++ back).eraseDups = before ++ after ∧
      (front ++ name :: back).eraseDups = before ++ name :: after := by
  obtain ⟨hfront, hback⟩ := not_or.mp (mt List.mem_append.mpr hnew)
  have hkept : (name :: back).removeAll front = name :: back.removeAll front := by
    simp [List.removeAll, hfront]
  have hother : (back.removeAll front).filter (fun other => !other == name) =
      back.removeAll front := by
    refine List.filter_eq_self.mpr fun other hmem => ?_
    have hne : other ≠ name := ne_of_mem_of_not_mem (List.mem_filter.mp hmem).1 hback
    simpa using hne
  refine ⟨front.eraseDups, (back.removeAll front).eraseDups, List.eraseDups_append, ?_⟩
  rw [List.eraseDups_append, hkept, List.eraseDups_cons, hother]

namespace Table

variable {β γ : Type}

/-! ## The value of a name -/

/-- No name has a value in the table without entries. -/
@[simp] theorem find?_empty (key : String) : (empty : Table β).find? key = none := rfl

/-- A name has a value when the two make up an entry. -/
theorem find?_eq_some_iff {t : Table β} {key : String} {value : β} :
    t.find? key = some value ↔ (key, value) ∈ t.entries := by
  obtain ⟨entries, hnodup⟩ := t
  simp only [find?]
  induction entries with
  | nil => simp
  | cons entry entries ih =>
    obtain ⟨k, v⟩ := entry
    obtain ⟨hnotMem, hrest⟩ := List.nodup_cons.mp hnodup
    by_cases hk : key = k
    · subst hk
      have hnone : (key, value) ∉ entries := fun hmem =>
        hnotMem (List.mem_map.mpr ⟨_, hmem, rfl⟩)
      simp [hnone, eq_comm]
    · rw [List.lookup_cons, beq_eq_false_iff_ne.mpr hk, List.mem_cons]
      simp [hk, ih hrest]

/-- When every value is changed, so is the one that a name finds. -/
@[simp] theorem find?_map (f : β → γ) (t : Table β) (key : String) :
    (t.map f).find? key = (t.find? key).map f := by
  simp only [find?, map]
  induction t.entries with
  | nil => rfl
  | cons entry entries ih =>
    obtain ⟨k, v⟩ := entry
    by_cases hk : key = k
    · simp [hk]
    · simp [List.lookup_cons, beq_eq_false_iff_ne.mpr hk, ih]

/-- Changing the value of one name shows under that name only. -/
theorem find?_modify (t : Table β) (key : String) (f : β → β) (k : String) :
    (t.modify key f).find? k = if k = key then (t.find? k).map f else t.find? k := by
  simp only [find?, modify]
  induction t.entries with
  | nil => simp
  | cons entry entries ih =>
    obtain ⟨k', v⟩ := entry
    by_cases hk : k = k'
    · subst hk
      by_cases hkey : k = key <;> simp [hkey]
    · simp [List.lookup_cons, beq_eq_false_iff_ne.mpr hk, ih]

/-- A new entry shows under its name, unless the name already has a value. -/
theorem find?_insertNew (t : Table β) (key : String) (value : β) (k : String) :
    (t.insertNew key value).find? k =
      if k = key then some ((t.find? key).getD value) else t.find? k := by
  unfold insertNew
  split
  case isTrue hmem =>
    obtain ⟨old, hold⟩ := Option.isSome_iff_exists.mp (mem_keys_iff.mp hmem)
    by_cases hk : k = key
    · simp [hk, hold]
    · simp [hk]
  case isFalse hmem =>
    have hnone : t.find? key = none := by
      simpa using mt mem_keys_iff.mpr hmem
    have happend : List.lookup k (t.entries ++ [(key, value)]) =
        (t.find? k).or (List.lookup k [(key, value)]) := List.lookup_append
    simp only [find?] at happend hnone ⊢
    rw [happend]
    by_cases hk : k = key
    · subst hk
      simp [hnone]
    · simp [List.lookup_cons, beq_eq_false_iff_ne.mpr hk, hk]

/-- An upsert shows under its name only, as a change of the old value or of the fresh one. -/
theorem find?_upsert (t : Table β) (key : String) (fresh : β) (f : β → β) (k : String) :
    (t.upsert key fresh f).find? k =
      if k = key then some (f ((t.find? key).getD fresh)) else t.find? k := by
  rw [upsert, find?_modify, find?_insertNew]
  split <;> rfl

/-- The values of a table are those that some name has. -/
theorem mem_values_iff {t : Table β} {value : β} :
    value ∈ t.values ↔ ∃ key, t.find? key = some value := by
  simp [values, find?_eq_some_iff]

/-! ## The names in order of arrival -/

/-- The table without entries has no names. -/
@[simp] theorem keys_empty : (empty : Table β).keys = [] := rfl

/-- Changing the values keeps the names and their order. -/
@[simp] theorem keys_map (f : β → γ) (t : Table β) : (t.map f).keys = t.keys := by
  simp [keys, map, Function.comp_def]

/-- Changing every value changes the list of values item by item. -/
@[simp] theorem values_map (f : β → γ) (t : Table β) : (t.map f).values = t.values.map f := by
  simp [values, map, Function.comp_def]

/-- An upsert lets its name arrive. -/
theorem keys_upsert (t : Table β) (key : String) (fresh : β) (f : β → β) :
    (t.upsert key fresh f).keys = arrive t.keys key := by
  rw [upsert, keys_modify, keys_insertNew, arrive]

/-- Two changes of all values are one. -/
@[simp] theorem map_map {δ : Type} (g : γ → δ) (f : β → γ) (t : Table β) :
    (t.map f).map g = t.map (g ∘ f) := by
  ext1
  simp [map]

/-- Changing no value changes nothing. -/
@[simp] theorem map_id (t : Table β) : t.map id = t := by
  ext1
  simp [map]

/-- Changing no value changes nothing, with the identity written out. -/
@[simp] theorem map_id_fun (t : Table β) : (t.map fun value => value) = t :=
  t.map_id

/-- Changing the value of a name that is there adds no name. -/
theorem upsert_of_mem {t : Table β} {key : String} (hmem : key ∈ t.keys) (fresh : β)
    (f : β → β) : t.upsert key fresh f = t.modify key f := by
  simp [upsert, insertNew, hmem]

/-- A view of the values that a change of one of them does not show. -/
theorem map_modify {g : β → γ} {f : β → β} {t : Table β} {key : String}
    (h : ∀ value, t.find? key = some value → g (f value) = g value) :
    (t.modify key f).map g = t.map g := by
  ext1
  simp only [map, modify, List.map_map, List.map_inj_left, Function.comp_apply, Prod.forall]
  intro k value hmem
  split
  case isTrue hk =>
    subst hk
    rw [h value (find?_eq_some_iff.mpr hmem)]
  · rfl

/-! ## Changing all values -/

/-- Change every value, given its name. -/
def mapNamed (f : String → β → β) (t : Table β) : Table β :=
  ⟨t.entries.map fun (key, value) => (key, f key value), by
    simpa [List.map_map, Function.comp_def] using t.nodup_keys⟩

/-- A change of one value is a change of all values that looks at their names. -/
theorem modify_eq_mapNamed (t : Table β) (key : String) (f : β → β) :
    t.modify key f = t.mapNamed fun k value => if k = key then f value else value := rfl

/-- Two changes of all values by their names are one. -/
@[simp] theorem mapNamed_mapNamed (t : Table β) (f g : String → β → β) :
    (t.mapNamed f).mapNamed g = t.mapNamed fun key value => g key (f key value) := by
  ext1
  simp [mapNamed]

/-- Changing no value by its name changes nothing. -/
@[simp] theorem mapNamed_id (t : Table β) : (t.mapNamed fun _ value => value) = t := by
  ext1
  simp [mapNamed]

/-- A change of all values depends only on what it does to the entries of the table. -/
theorem mapNamed_congr {t : Table β} {f g : String → β → β}
    (h : ∀ key value, t.find? key = some value → f key value = g key value) :
    t.mapNamed f = t.mapNamed g := by
  ext1
  simp only [mapNamed, List.map_inj_left, Prod.forall]
  intro key value hmem
  rw [h key value (find?_eq_some_iff.mpr hmem)]

/-- Changing every value without regard to its name. -/
theorem map_eq_mapNamed (f : β → β) (t : Table β) : t.map f = t.mapNamed fun _ => f := rfl

/-- Changing the values of distinct names in turn changes each of them once. -/
theorem foldl_modify {names : List String} (hnodup : names.Nodup) (f : β → β) (t : Table β) :
    names.foldl (fun u name => u.modify name f) t =
      t.mapNamed fun name value => if name ∈ names then f value else value := by
  induction names generalizing t with
  | nil => simp
  | cons name names ih =>
    obtain ⟨hname, hnames⟩ := List.nodup_cons.mp hnodup
    rw [List.foldl_cons, ih hnames, modify_eq_mapNamed, mapNamed_mapNamed]
    refine mapNamed_congr fun key value _ => ?_
    by_cases hkey : key = name
    · simp [hkey, hname]
    · simp [hkey]

/-- Changing the values of the names that have a value of some kind changes the values of that
kind. -/
theorem foldl_modify_filter (p : β → Bool) (f : β → β) (t : Table β) :
    (t.entries.filter fun entry => p entry.2).foldl (fun u entry => u.modify entry.1 f) t =
      t.map fun value => if p value then f value else value := by
  have hnodup : ((t.entries.filter fun entry => p entry.2).map Prod.fst).Nodup :=
    t.nodup_keys.sublist (List.filter_sublist.map Prod.fst)
  have hnames := foldl_modify hnodup f t
  rw [List.foldl_map] at hnames
  rw [hnames, map_eq_mapNamed]
  refine mapNamed_congr fun key value hfind => ?_
  have hmem : key ∈ (t.entries.filter fun entry => p entry.2).map Prod.fst ↔ p value = true := by
    constructor
    · intro hkey
      obtain ⟨⟨_, other⟩, hentry, rfl⟩ := List.mem_map.mp hkey
      obtain ⟨hentry, hp⟩ := List.mem_filter.mp hentry
      obtain rfl := Option.some.inj ((find?_eq_some_iff.mpr hentry).symm.trans hfind)
      exact hp
    · intro hp
      exact List.mem_map.mpr
        ⟨(key, value), List.mem_filter.mpr ⟨find?_eq_some_iff.mp hfind, hp⟩, rfl⟩
  simp only [hmem]

/-! ## Properties of all entries -/

/-- A property of the name and the value of every entry. -/
def All (p : String → β → Prop) (t : Table β) : Prop :=
  ∀ key value, t.find? key = some value → p key value

/-- The table without entries has every property. -/
theorem All.empty {p : String → β → Prop} : (Table.empty : Table β).All p := by
  intro key value hfind
  simp at hfind

/-- An upsert keeps a property that the fresh value has and that the change keeps. -/
theorem All.upsert {p : String → β → Prop} {t : Table β} {key : String} {fresh : β} {f : β → β}
    (h : t.All p) (hfresh : p key fresh) (hf : ∀ value, p key value → p key (f value)) :
    (t.upsert key fresh f).All p := by
  intro k value hfind
  rw [find?_upsert] at hfind
  split at hfind
  case isTrue hk =>
    subst hk
    obtain rfl := Option.some.inj hfind
    cases hold : t.find? k with
    | none => exact hf _ hfresh
    | some old => exact hf _ (h k old hold)
  case isFalse => exact h k value hfind

/-- A change of all values turns one property of the entries into another. -/
theorem All.map {p : String → β → Prop} {q : String → γ → Prop} {t : Table β} {f : β → γ}
    (h : t.All p) (hf : ∀ key value, p key value → q key (f value)) : (t.map f).All q := by
  intro key value hfind
  rw [find?_map, Option.map_eq_some_iff] at hfind
  obtain ⟨old, hold, rfl⟩ := hfind
  exact hf key old (h key old hold)

/-- Names and values correspond when every value carries its name. -/
theorem map_values_eq_keys {t : Table β} {f : β → String}
    (h : t.All fun key value => f value = key) : t.values.map f = t.keys := by
  simp only [values, keys, List.map_map, List.map_inj_left, Function.comp_apply, Prod.forall]
  intro key value hmem
  exact h key value (find?_eq_some_iff.mpr hmem)

end Table

end FirmwareModel
