import Mathlib.Data.List.Nodup
import FirmwareModel.Document.Query
import FirmwareModel.Proofs.Document.Listing
import FirmwareModel.Proofs.Outcome
import FirmwareModel.Proofs.Text.Qualified

/-!
# Looking up listed entities

A look-up takes the first sibling with a name at every level. Where siblings have different names,
the module that it finds at a path is the one that is listed there, and the member that it finds is
the only one with its name. What cannot be looked up is told apart by its report: a member that is
asked for without a module, and a module or a member that does not exist.
-/

namespace FirmwareModel

/-- Where names are different, the first item with a name is the only one. -/
theorem find?_eq_some_iff_of_nodup {α : Type} {items : List α} {nameOf : α → String}
    (hnodup : (items.map nameOf).Nodup) {name : String} {a : α} :
    items.find? (fun item => nameOf item = name) = some a ↔ a ∈ items ∧ nameOf a = name := by
  constructor
  · intro hfind
    exact ⟨List.mem_of_find?_eq_some hfind, by simpa using List.find?_some hfind⟩
  · rintro ⟨hmem, rfl⟩
    have hsome : (items.find? fun item => nameOf item = nameOf a).isSome :=
      List.find?_isSome.mpr ⟨a, hmem, decide_eq_true rfl⟩
    obtain ⟨b, hb⟩ := Option.isSome_iff_exists.mp hsome
    have hname : nameOf b = nameOf a := by simpa using List.find?_some hb
    rw [hb, List.inj_on_of_nodup_map hnodup (List.mem_of_find?_eq_some hb) hmem hname]

namespace Document

open FirmwareModel.Text

/-! ## Modules -/

/-- The module at the end of a longer path is a child of the module at the end of the path. -/
theorem moduleAt?_concat {modules : List ModuleRecord} {path : List String} (hpath : path ≠ [])
    (name : String) :
    moduleAt? modules (path ++ [name]) =
      (moduleAt? modules path).bind fun m => m.modules.find? fun child => child.name = name := by
  induction path generalizing modules with
  | nil => exact absurd rfl hpath
  | cons first path ih =>
    cases path with
    | nil => rfl
    | cons second path =>
      simp only [List.cons_append, moduleAt?, Option.bind_assoc]
      exact Option.bind_congr fun m _ => ih (by simp)

/-- A module that is found at a path is listed there. -/
theorem mem_listings_of_moduleAt? {modules : List ModuleRecord} {path : List String}
    {r : ModuleRecord} (h : moduleAt? modules path = some r) :
    (path, r) ∈ ModuleRecord.listings [] modules := by
  induction path using List.reverseRecOn generalizing r with
  | nil => cases h
  | append_singleton path name ih =>
    by_cases hpath : path = []
    · subst hpath
      have hname : r.name = name := by simpa using List.find?_some h
      exact hname ▸ ModuleRecord.mem_listings_of_mem [] (List.mem_of_find?_eq_some h)
    · rw [moduleAt?_concat hpath] at h
      obtain ⟨above, habove, hfind⟩ := Option.bind_eq_some_iff.mp h
      have hname : r.name = name := by simpa using List.find?_some hfind
      exact hname ▸
        ModuleRecord.mem_listings_below [] modules (ih habove) (List.mem_of_find?_eq_some hfind)

/-- Nothing is listed at the empty path. -/
theorem ne_nil_of_mem_listing {document : Document} {path : List String} {r : ModuleRecord}
    (hr : (path, r) ∈ document.listing) : path ≠ [] := by
  rintro rfl
  obtain ⟨m, -, hm⟩ := ModuleRecord.mem_listings_iff.mp hr
  simpa using ModuleRecord.prefix_of_mem_listing hm

/-- Sibling modules have different names, at every level. -/
structure NamesApart (document : Document) : Prop where
  outermost : (document.modules.map ModuleRecord.name).Nodup
  below : ∀ path r, (path, r) ∈ document.listing → (r.modules.map ModuleRecord.name).Nodup

/-- Where siblings have different names, the module at a path is the one that is listed there. -/
theorem NamesApart.moduleAt?_eq_some_iff {document : Document} (h : document.NamesApart)
    {path : List String} {r : ModuleRecord} :
    moduleAt? document.modules path = some r ↔ (path, r) ∈ document.listing := by
  refine ⟨mem_listings_of_moduleAt?, fun hr => ?_⟩
  -- From the outermost modules downwards, each listed module is found at its path.
  refine (ModuleRecord.forall_listings (p := fun path r =>
    (path, r) ∈ document.listing ∧ moduleAt? document.modules path = some r) ?_ []
      document.modules ?_ (path, r) hr).2
  · rintro path r ⟨hr, hfound⟩ child hchild
    refine ⟨ModuleRecord.mem_listings_below [] document.modules hr hchild, ?_⟩
    rw [moduleAt?_concat (ne_nil_of_mem_listing hr), hfound, Option.bind_some,
      find?_eq_some_iff_of_nodup (h.below path r hr)]
    exact ⟨hchild, rfl⟩
  · intro child hchild
    refine ⟨ModuleRecord.mem_listings_of_mem [] hchild, ?_⟩
    exact (find?_eq_some_iff_of_nodup h.outermost).mpr ⟨hchild, rfl⟩

/-- Looking up a path succeeds with the module at its end. -/
theorem moduleAt_eq_ok_iff {document : Document} {path : List String} {r : ModuleRecord} :
    document.moduleAt path = .ok r ↔ moduleAt? document.modules path = some r := by
  unfold moduleAt
  cases moduleAt? document.modules path <;> simp

/-- The only way not to find a module. -/
theorem moduleAt_eq_error_iff {document : Document} {path : List String} {fault : Fault} :
    document.moduleAt path = .error fault ↔
      moduleAt? document.modules path = none ∧ fault = .noModule path := by
  unfold moduleAt
  cases moduleAt? document.modules path <;> simp [eq_comm]

/-! ## Members -/

/-- A qualified name is split into a path that is not empty and its last segment. -/
theorem splitMember_eq_ok_iff {kind : EntityKind} {name member : String} {path : List String} :
    splitMember kind name = .ok (path, member) ↔ path ≠ [] ∧ segments name = path ++ [member] := by
  have hne : segments name ≠ [] := by simp [segments, splitSegments_ne_nil]
  obtain ⟨front, last, hsegments⟩ := (List.eq_nil_or_concat' (segments name)).resolve_left hne
  unfold splitMember
  simp only [hsegments, List.append_singleton_inj, List.dropLast_concat, List.getLastD_concat]
  cases front with
  | nil =>
    rw [if_pos (by simp)]
    simp only [reduceCtorEq, false_iff, not_and]
    exact fun hpath heq => absurd heq.symm hpath
  | cons first front =>
    rw [if_neg (by simp), Except.ok.injEq, Prod.mk.injEq]
    constructor
    · rintro ⟨rfl, rfl⟩
      exact ⟨by simp, rfl, rfl⟩
    · rintro ⟨-, rfl, rfl⟩
      exact ⟨rfl, rfl⟩

/-- The only way not to split a name is that it holds no separator. -/
theorem splitMember_eq_error_iff {kind : EntityKind} {name : String} {fault : Fault} :
    splitMember kind name = .error fault ↔
      ¬ [':', ':'] <:+: name.toList ∧ fault = .unqualifiedMember kind name := by
  rw [← length_segments_lt_two_iff]
  unfold splitMember
  dsimp only
  split
  case isTrue hlength => simp [hlength, eq_comm]
  case isFalse hlength => simp [hlength]

section

variable {α : Type} {kind : EntityKind} {members : ModuleRecord → List α} {nameOf : α → String}
  {document : Document} {name : String}

/-- A member is found when its name is a path and a last segment, and the module at the path has a
first member of that name. -/
theorem findMember_eq_ok_iff {a : α} :
    findMember kind members nameOf document name = .ok a ↔
      ∃ path member r, path ≠ [] ∧ segments name = path ++ [member] ∧
        moduleAt? document.modules path = some r ∧
        (members r).find? (fun b => nameOf b = member) = some a := by
  unfold findMember
  simp only [bind_eq_ok_iff, Prod.exists, splitMember_eq_ok_iff, moduleAt_eq_ok_iff]
  constructor
  · rintro ⟨path, member, ⟨hpath, hsegments⟩, r, hr, hmember⟩
    refine ⟨path, member, r, hpath, hsegments, hr, ?_⟩
    split at hmember
    case h_1 b hfind =>
      obtain rfl := pure_eq_ok_iff.mp hmember
      exact hfind
    case h_2 => cases hmember
  · rintro ⟨path, member, r, hpath, hsegments, hr, hfind⟩
    refine ⟨path, member, ⟨hpath, hsegments⟩, r, hr, ?_⟩
    rw [hfind]
    rfl

/-- A name without a separator is the only fault that is reported as one of the name; all others
are reported as something that is not found. -/
theorem report_of_findMember_eq_error {fault : Fault}
    (h : findMember kind members nameOf document name = .error fault) :
    if [':', ':'] <:+: name.toList then ∃ reason, fault.report = .notFound reason
    else ∃ reason, fault.report = .parse reason := by
  rcases bind_eq_error_iff.mp h with hsplit | ⟨⟨path, member⟩, hsplit, hrest⟩
  · obtain ⟨hunqualified, rfl⟩ := splitMember_eq_error_iff.mp hsplit
    rw [if_neg hunqualified]
    exact ⟨_, rfl⟩
  · have hqualified : [':', ':'] <:+: name.toList := by
      by_contra hunqualified
      cases hsplit.symm.trans (splitMember_eq_error_iff.mpr ⟨hunqualified, rfl⟩)
    rw [if_pos hqualified]
    rcases bind_eq_error_iff.mp hrest with hmodule | ⟨m, -, hmember⟩
    · obtain ⟨-, rfl⟩ := moduleAt_eq_error_iff.mp hmodule
      exact ⟨_, rfl⟩
    · split at hmember
      case h_1 => cases hmember
      case h_2 =>
        obtain rfl := Except.error.inj hmember
        exact ⟨_, rfl⟩

end

/-! ## Documents that can be searched -/

/-- Modules are found at their paths, and nothing else is found. -/
structure FindsModules (document : Document) : Prop where
  /-- A listed module is found under its qualified name. -/
  finds : ∀ path r, (path, r) ∈ document.listing → document.findModule (qualified path) = .ok r
  /-- What is found under a name is the module whose path the name is cut into. -/
  found_iff : ∀ name r, document.findModule name = .ok r ↔ (segments name, r) ∈ document.listing
  notFound : ∀ name fault, document.findModule name = .error fault →
    ∃ reason, fault.report = .notFound reason

/-- Members of a kind are found with their modules, and nothing else is found. -/
structure FindsMembers {α : Type} (document : Document) (members : ModuleRecord → List α)
    (nameOf : α → String) (find : String → Except Fault α) : Prop where
  /-- A listed member is found under its qualified name, unless that of its module ends in a
  colon. -/
  finds : ∀ path r, (path, r) ∈ document.listing → (qualified path).toList.getLast? ≠ some ':' →
    ∀ a ∈ members r, find (qualified path ++ "::" ++ nameOf a) = .ok a
  /-- What is found under a name is the member whose path and name the name is cut into. -/
  found_iff : ∀ name a, find name = .ok a ↔
    ∃ path r, segments name = path ++ [nameOf a] ∧ (path, r) ∈ document.listing ∧ a ∈ members r
  /-- A name without a separator is at fault itself. -/
  parse_iff : ∀ name, (∃ fault reason, find name = .error fault ∧ fault.report = .parse reason) ↔
    ¬ [':', ':'] <:+: name.toList
  /-- Any other name is not found when there is no such module or no such member. -/
  notFound_iff : ∀ name,
    (∃ fault reason, find name = .error fault ∧ fault.report = .notFound reason) ↔
      [':', ':'] <:+: name.toList ∧
        ¬ ∃ path r a, segments name = path ++ [nameOf a] ∧ (path, r) ∈ document.listing ∧
          a ∈ members r

namespace NamesApart

variable {document : Document} (h : document.NamesApart)
  (hpaths : ∀ path r, (path, r) ∈ document.listing → segments (qualified path) = path)

include h

/-- The module that is found is the one listed at the segments of the name. -/
theorem findModule_eq_ok_iff {name : String} {r : ModuleRecord} :
    document.findModule name = .ok r ↔ (segments name, r) ∈ document.listing := by
  rw [findModule, moduleAt_eq_ok_iff, h.moduleAt?_eq_some_iff]

include hpaths

/-- A document whose siblings have different names, and whose qualified names spell its paths, finds
its modules. -/
theorem findsModules : document.FindsModules where
  finds := by
    intro path r hr
    rw [h.findModule_eq_ok_iff, hpaths path r hr]
    exact hr
  found_iff := fun _ _ => h.findModule_eq_ok_iff
  notFound := by
    intro name fault hfault
    obtain ⟨-, rfl⟩ := moduleAt_eq_error_iff.mp hfault
    exact ⟨_, rfl⟩

variable {α : Type} {members : ModuleRecord → List α} {nameOf : α → String}
  (hnames : ∀ path r, (path, r) ∈ document.listing → ((members r).map nameOf).Nodup)

omit hpaths

include hnames

/-- The member of a name is the one with the last segment as its name, in the module at the
others. -/
theorem findMember_eq_ok_iff {kind : EntityKind} {name : String} {a : α} :
    findMember kind members nameOf document name = .ok a ↔
      ∃ path r, segments name = path ++ [nameOf a] ∧ (path, r) ∈ document.listing ∧
        a ∈ members r := by
  rw [Document.findMember_eq_ok_iff]
  simp only [h.moduleAt?_eq_some_iff]
  constructor
  · rintro ⟨path, member, r, -, hsegments, hr, hfind⟩
    obtain ⟨ha, rfl⟩ := (find?_eq_some_iff_of_nodup (hnames path r hr)).mp hfind
    exact ⟨path, r, hsegments, hr, ha⟩
  · rintro ⟨path, r, hsegments, hr, ha⟩
    refine ⟨path, nameOf a, r, ne_nil_of_mem_listing hr, hsegments, hr, ?_⟩
    exact (find?_eq_some_iff_of_nodup (hnames path r hr)).mpr ⟨ha, rfl⟩

include hpaths

/-- When in addition the members of a module have different names without colons, the document finds
them. -/
theorem findsMembers (kind : EntityKind)
    (hcolon : ∀ path r, (path, r) ∈ document.listing → ∀ a ∈ members r, ':' ∉ (nameOf a).toList) :
    document.FindsMembers members nameOf (findMember kind members nameOf document) where
  finds := by
    intro path r hr hclosed a ha
    rw [h.findMember_eq_ok_iff hnames]
    refine ⟨path, r, ?_, hr, ha⟩
    rw [segments_append_member hclosed (hcolon path r hr a ha), hpaths path r hr]
  found_iff := fun _ _ => h.findMember_eq_ok_iff hnames
  parse_iff := by
    intro name
    constructor
    · rintro ⟨fault, reason, hfault, hreport⟩ hqualified
      have hnotFound := report_of_findMember_eq_error hfault
      rw [if_pos hqualified] at hnotFound
      simp [hreport] at hnotFound
    · intro hunqualified
      have hsplit : splitMember kind name = .error (.unqualifiedMember kind name) :=
        splitMember_eq_error_iff.mpr ⟨hunqualified, rfl⟩
      exact ⟨_, _, bind_eq_error_iff.mpr (Or.inl hsplit), rfl⟩
  notFound_iff := by
    intro name
    constructor
    · rintro ⟨fault, reason, hfault, hreport⟩
      constructor
      · by_contra hunqualified
        have hparse := report_of_findMember_eq_error hfault
        rw [if_neg hunqualified] at hparse
        simp [hreport] at hparse
      · rintro ⟨path, r, a, hmember⟩
        cases hfault.symm.trans ((h.findMember_eq_ok_iff hnames).mpr ⟨path, r, hmember⟩)
    · rintro ⟨hqualified, hnone⟩
      cases hfind : findMember kind members nameOf document name with
      | ok a =>
        obtain ⟨path, r, hmember⟩ := (h.findMember_eq_ok_iff hnames).mp hfind
        exact absurd ⟨path, r, a, hmember⟩ hnone
      | error fault =>
        have hnotFound := report_of_findMember_eq_error hfind
        rw [if_pos hqualified] at hnotFound
        obtain ⟨reason, hreport⟩ := hnotFound
        exact ⟨fault, reason, rfl, hreport⟩

end NamesApart

end Document

end FirmwareModel
