/-!
# Tables in order of arrival

A table sends names to values and lists its entries in the order in which their names first came.
Every operation keeps the names distinct, so the entries are a faithful view of the table.
-/

namespace FirmwareModel

/-- A table from names to values, in the order in which the names arrived. -/
structure Table (β : Type) where
  entries : List (String × β)
  nodup_keys : (entries.map Prod.fst).Nodup

namespace Table

variable {β γ : Type}

instance [Repr β] : Repr (Table β) where
  reprPrec t n := reprPrec t.entries n

instance [DecidableEq β] : DecidableEq (Table β) := fun s t =>
  decidable_of_iff (s.entries = t.entries)
    ⟨fun h => by cases s; cases t; cases h; rfl, fun h => h ▸ rfl⟩

/-- The table without entries. -/
def empty : Table β :=
  ⟨[], by simp⟩

instance : Inhabited (Table β) := ⟨empty⟩

/-- The names, in order of arrival. -/
def keys (t : Table β) : List String :=
  t.entries.map Prod.fst

/-- The values, in the order in which their names arrived. -/
def values (t : Table β) : List β :=
  t.entries.map Prod.snd

/-- The number of names. -/
def size (t : Table β) : Nat :=
  t.entries.length

/-- The value of a name. -/
def find? (t : Table β) (key : String) : Option β :=
  t.entries.lookup key

/-- Change every value, given its name. -/
def map (f : β → γ) (t : Table β) : Table γ :=
  ⟨t.entries.map fun (key, value) => (key, f value), by
    simpa [List.map_map, Function.comp_def] using t.nodup_keys⟩

/-- Change the value of a name, if it has one. -/
def modify (t : Table β) (key : String) (f : β → β) : Table β :=
  ⟨t.entries.map fun (k, value) => (k, if k = key then f value else value), by
    simpa [List.map_map, Function.comp_def] using t.nodup_keys⟩

/-- Add an entry at the end, unless the name is there. -/
def insertNew (t : Table β) (key : String) (value : β) : Table β :=
  if h : key ∈ t.keys then t
  else
    ⟨t.entries ++ [(key, value)], by
      have hkey : ∀ v, (key, v) ∉ t.entries := fun v hv =>
        h (List.mem_map.2 ⟨(key, v), hv, rfl⟩)
      have hnodup := t.nodup_keys
      simp_all [List.nodup_append, keys]
      intro k v hv hk
      exact hkey v (hk ▸ hv)⟩

/-- Change the value of a name, which is `fresh` for a name not yet there. -/
def upsert (t : Table β) (key : String) (fresh : β) (f : β → β) : Table β :=
  (t.insertNew key fresh).modify key f

/-- Set the value of a name. A name that is there keeps its place. -/
def insert (t : Table β) (key : String) (value : β) : Table β :=
  t.upsert key value fun _ => value

/-- The table of a list of entries: of a repeated name, the first place and the last value. -/
def ofList (entries : List (String × β)) : Table β :=
  entries.foldl (fun t (key, value) => t.insert key value) empty

/-- Tables with the same entries in the same order are the same. -/
@[ext] theorem ext {s t : Table β} (h : s.entries = t.entries) : s = t := by
  cases s; cases t; cases h; rfl

/-- The names of a table are those that have a value. -/
theorem mem_keys_iff {t : Table β} {key : String} : key ∈ t.keys ↔ (t.find? key).isSome := by
  unfold keys find?
  induction t.entries with
  | nil => simp
  | cons e es ih =>
    obtain ⟨k, v⟩ := e
    by_cases hk : key = k
    · simp [hk]
    · simp [List.lookup_cons, beq_eq_false_iff_ne.2 hk, hk, ← ih]

/-- Changing the value of a name keeps the names and their order. -/
theorem keys_modify (t : Table β) (key : String) (f : β → β) : (t.modify key f).keys = t.keys := by
  simp [keys, modify, List.map_map, Function.comp_def]

/-- A new name goes to the end, and a name that is there keeps its place. -/
theorem keys_insertNew (t : Table β) (key : String) (value : β) :
    (t.insertNew key value).keys = if key ∈ t.keys then t.keys else t.keys ++ [key] := by
  unfold insertNew
  split <;> simp [keys]

end Table

end FirmwareModel
