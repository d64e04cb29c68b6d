import FirmwareModel.Proofs.Document.Listing
import FirmwareModel.Proofs.Tree.WellFormed

/-!
# The document of a tree

The levels that a document has room for are enough for all modules of a well-formed tree. Its
listing therefore has, for each path that leads to a module of the tree, the record of that module,
and nothing else; and each record lists its children by the names that the tree has below the path.
-/

namespace FirmwareModel

open Document

namespace ModuleTree

variable {t : ModuleTree}

/-- A child comes behind the module that it is entered in. -/
theorem WellFormed.lt_of_mem_modules (h : t.WellFormed) {id child : Nat} {m : Module}
    (hm : t.module? id = some m) (hchild : child ∈ m.modules.values) :
    id < child := by
  obtain ⟨name, hfind⟩ := Table.mem_values_iff.mp hchild
  have hentry : (t.children (some id)).find? name = some child := by simp [children, hm, hfind]
  obtain ⟨c, hc, -, hparent⟩ := h.entry hentry
  exact h.parent_lt hc hparent

/-- Further levels add nothing when the levels reach to the last module. -/
theorem WellFormed.moduleRecords_eq_of_le (h : t.WellFormed) {levels more : Nat} {ids : List Nat}
    (hids : ∀ id ∈ ids, t.size ≤ id + levels) (hmore : levels ≤ more) :
    moduleRecords t more ids = moduleRecords t levels ids := by
  induction levels generalizing more ids with
  | zero =>
    have hnone : ∀ id ∈ ids, t.module? id = none := by
      intro id hid
      have hle := hids id hid
      have hnot : ¬ (t.module? id).isSome := by
        rw [module?_isSome_iff]
        omega
      simpa using hnot
    cases more with
    | zero => rfl
    | succ more =>
      rw [moduleRecords, moduleRecords, List.filterMap_eq_nil_iff]
      intro id hid
      simp [hnone id hid]
  | succ levels ih =>
    obtain ⟨more, rfl⟩ : ∃ n, more = n + 1 := ⟨more - 1, by omega⟩
    rw [moduleRecords, moduleRecords]
    refine List.filterMap_congr fun id hid => ?_
    cases hm : t.module? id with
    | none => rfl
    | some m =>
      have hbelow : ∀ child ∈ m.modules.values, t.size ≤ child + levels := by
        intro child hchild
        have hlt := h.lt_of_mem_modules hm hchild
        have hle := hids id hid
        omega
      rw [Option.map_some, Option.map_some, ih hbelow (by omega)]

/-- The records of the modules below a place. -/
def recordsBelow (t : ModuleTree) (start : Option Nat) : List ModuleRecord :=
  moduleRecords t t.size (t.children start).values

/-- The records below a place are those of its children, each with the records below it. -/
theorem WellFormed.recordsBelow_eq (h : t.WellFormed) (start : Option Nat) :
    t.recordsBelow start = (t.children start).values.filterMap fun id =>
      (t.module? id).map fun m => .ofModule m (t.recordsBelow (some id)) := by
  rw [recordsBelow, ← h.moduleRecords_eq_of_le (fun id _ => by omega) (Nat.le_succ t.size),
    moduleRecords]
  refine List.filterMap_congr fun id _ => ?_
  cases hm : t.module? id with
  | none => rfl
  | some m => simp [recordsBelow, children, hm]

/-- The records below a module are those of its children, each with the records below it. -/
theorem WellFormed.mem_recordsBelow_iff (h : t.WellFormed) {start : Option Nat}
    {r : ModuleRecord} :
    r ∈ t.recordsBelow start ↔ ∃ id m, (t.children start).find? m.name = some id ∧
      t.module? id = some m ∧ r = .ofModule m (t.recordsBelow (some id)) := by
  rw [h.recordsBelow_eq]
  simp only [List.mem_filterMap, Option.map_eq_some_iff, Table.mem_values_iff]
  constructor
  · rintro ⟨id, ⟨name, hfind⟩, m, hm, rfl⟩
    obtain ⟨m', hm', hname, -⟩ := h.entry hfind
    obtain rfl := Option.some.inj (hm.symm.trans hm')
    exact ⟨id, m, hname ▸ hfind, hm, rfl⟩
  · rintro ⟨id, m, hfind, hm, rfl⟩
    exact ⟨id, ⟨m.name, hfind⟩, m, hm, rfl⟩

/-- The records below a place have the names of its children, in their order. -/
theorem WellFormed.names_recordsBelow (h : t.WellFormed) (start : Option Nat) :
    (t.recordsBelow start).map ModuleRecord.name = (t.children start).keys := by
  have hentries : ∀ entry ∈ (t.children start).entries,
      ∃ m, t.module? entry.2 = some m ∧ m.name = entry.1 := by
    intro entry hentry
    obtain ⟨m, hm, hname, -⟩ := h.entry (Table.find?_eq_some_iff.mpr hentry)
    exact ⟨m, hm, hname⟩
  rw [h.recordsBelow_eq, Table.values, Table.keys]
  generalize (t.children start).entries = entries at hentries
  induction entries with
  | nil => rfl
  | cons entry entries ih =>
    obtain ⟨m, hm, hname⟩ := hentries entry (by simp)
    have hrest := ih fun e he => hentries e (by simp [he])
    simp only [List.map_cons, List.filterMap_cons, hm, Option.map_some]
    rw [hrest, ← hname]
    rfl

/-- The listing of the document of a tree has a path exactly when the path leads to a module, and
then shows that module. -/
theorem WellFormed.mem_listing_ofTree_iff (h : t.WellFormed) {checksum : Option String}
    {path : List String} {r : ModuleRecord} :
    (path, r) ∈ (Document.ofTree t checksum).listing ↔
      ∃ id m, t.placeAt? path = some (some id) ∧ t.module? id = some m ∧
        r = .ofModule m (t.recordsBelow (some id)) := by
  constructor
  · intro hentry
    -- From the outermost modules downwards, each record is that of the module at its path.
    refine ModuleRecord.forall_listings (p := fun path r => ∃ id m,
      t.placeAt? path = some (some id) ∧ t.module? id = some m ∧
        r = .ofModule m (t.recordsBelow (some id))) ?_ [] (t.recordsBelow none) ?_ (path, r) hentry
    · rintro path r ⟨id, m, hplace, hm, rfl⟩ child hchild
      obtain ⟨id', m', hfind, hm', rfl⟩ := h.mem_recordsBelow_iff.mp hchild
      refine ⟨id', m', ?_, hm', rfl⟩
      exact placeAt?_concat_eq_some_iff.mpr ⟨some id, id', hplace, hfind, rfl⟩
    · intro child hchild
      obtain ⟨id', m', hfind, hm', rfl⟩ := h.mem_recordsBelow_iff.mp hchild
      refine ⟨id', m', ?_, hm', rfl⟩
      exact placeAt?_concat_eq_some_iff.mpr ⟨none, id', rfl, hfind, rfl⟩
  · rintro ⟨id, m, hplace, hm, rfl⟩
    induction path using List.reverseRecOn generalizing id m with
    | nil => simp at hplace
    | append_singleton path name ih =>
      obtain ⟨start, id', hstart, hfind, hid⟩ := placeAt?_concat_eq_some_iff.mp hplace
      obtain rfl := Option.some.inj hid
      obtain ⟨m', hm', rfl, -⟩ := h.entry hfind
      obtain rfl := Option.some.inj (hm.symm.trans hm')
      have hmem : ModuleRecord.ofModule m (t.recordsBelow (some id)) ∈ t.recordsBelow start :=
        h.mem_recordsBelow_iff.mpr ⟨id, m, hfind, hm, rfl⟩
      cases start with
      | none =>
        obtain rfl := placeAt?_eq_some_none_iff.mp hstart
        exact ModuleRecord.mem_listings_of_mem [] hmem
      | some p =>
        obtain ⟨above, habove⟩ := h.exists_module?_of_placeAt? hstart
        exact ModuleRecord.mem_listings_below [] _ (ih p above hstart habove) hmem

/-- A listed record shows the module at its path. -/
theorem WellFormed.exists_moduleAt?_of_mem_listing (h : t.WellFormed) {checksum : Option String}
    {path : List String} {r : ModuleRecord}
    (hr : (path, r) ∈ (Document.ofTree t checksum).listing) :
    ∃ m, t.moduleAt? path = some m ∧ r = .ofModule m r.modules := by
  obtain ⟨id, m, hplace, hm, rfl⟩ := h.mem_listing_ofTree_iff.mp hr
  exact ⟨m, moduleAt?_eq_some_iff.mpr ⟨id, hplace, hm⟩, rfl⟩

/-- The module at a path is listed there. -/
theorem WellFormed.exists_mem_listing_of_moduleAt? (h : t.WellFormed) (checksum : Option String)
    {path : List String} {m : Module} (hm : t.moduleAt? path = some m) :
    ∃ modules, (path, ModuleRecord.ofModule m modules) ∈ (Document.ofTree t checksum).listing := by
  obtain ⟨id, hplace, hid⟩ := moduleAt?_eq_some_iff.mp hm
  exact ⟨_, h.mem_listing_ofTree_iff.mpr ⟨id, m, hplace, hid, rfl⟩⟩

/-- The names of the outermost modules of the document. -/
theorem WellFormed.names_modules_ofTree (h : t.WellFormed) (checksum : Option String) :
    (Document.ofTree t checksum).modules.map ModuleRecord.name = t.childNames [] :=
  h.names_recordsBelow none

/-- The names of the modules directly below a listed module. -/
theorem WellFormed.names_modules_of_mem_listing (h : t.WellFormed) {checksum : Option String}
    {path : List String} {r : ModuleRecord}
    (hr : (path, r) ∈ (Document.ofTree t checksum).listing) :
    r.modules.map ModuleRecord.name = t.childNames path := by
  obtain ⟨id, m, hplace, hm, rfl⟩ := h.mem_listing_ofTree_iff.mp hr
  have hnames := h.names_recordsBelow (some id)
  rw [childNames, hplace]
  exact hnames

end ModuleTree

end FirmwareModel
