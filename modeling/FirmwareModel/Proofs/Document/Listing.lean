import Mathlib.Data.List.Basic
import FirmwareModel.Document.Basic

/-!
# Listing the modules of a document

Every module of a document is listed once, with the names on the way to it, before the modules
below it. A statement about all listed modules is proved from the outermost modules downwards.
-/

namespace FirmwareModel.Document

namespace ModuleRecord

mutual

/-- A module and all modules below it, each with its path. -/
def listing (above : List String) : ModuleRecord → List (List String × ModuleRecord)
  | ⟨name, description, callable, inputs, procedures, modules⟩ =>
    (above ++ [name], ⟨name, description, callable, inputs, procedures, modules⟩) ::
      listings (above ++ [name]) modules

/-- Modules and all modules below them, each with its path. -/
def listings (above : List String) : List ModuleRecord → List (List String × ModuleRecord)
  | [] => []
  | m :: modules => m.listing above ++ listings above modules

end

/-- A module is listed before all that is below it. -/
theorem listing_eq (above : List String) (m : ModuleRecord) :
    m.listing above = (above ++ [m.name], m) :: listings (above ++ [m.name]) m.modules := by
  cases m
  rfl

/-- What is listed of several modules is listed of one of them. -/
theorem mem_listings_iff {above : List String} {modules : List ModuleRecord}
    {entry : List String × ModuleRecord} :
    entry ∈ listings above modules ↔ ∃ m ∈ modules, entry ∈ m.listing above := by
  induction modules with
  | nil => simp [listings]
  | cons m modules ih => simp [listings, ih]

/-- Each of the modules is listed under its name. -/
theorem mem_listings_of_mem (above : List String) {modules : List ModuleRecord} {m : ModuleRecord}
    (hm : m ∈ modules) : (above ++ [m.name], m) ∈ listings above modules :=
  mem_listings_iff.mpr ⟨m, hm, by simp [listing_eq]⟩

mutual

/-- What holds of a module and passes on to the modules right below holds of all that is listed. -/
theorem forall_listing {p : List String → ModuleRecord → Prop}
    (hbelow : ∀ path r, p path r → ∀ m ∈ r.modules, p (path ++ [m.name]) m)
    (above : List String) (m : ModuleRecord) (hm : p (above ++ [m.name]) m) :
    ∀ entry ∈ m.listing above, p entry.1 entry.2 :=
  match m with
  | ⟨name, description, callable, inputs, procedures, modules⟩ => by
    intro entry hentry
    rcases List.mem_cons.mp hentry with rfl | hrest
    · exact hm
    · exact forall_listings hbelow (above ++ [name]) modules (hbelow _ _ hm) entry hrest

/-- What holds of the given modules, and of the modules of a module when it holds of that, holds of
all listed modules. -/
theorem forall_listings {p : List String → ModuleRecord → Prop}
    (hbelow : ∀ path r, p path r → ∀ m ∈ r.modules, p (path ++ [m.name]) m)
    (above : List String) (modules : List ModuleRecord)
    (hmodules : ∀ m ∈ modules, p (above ++ [m.name]) m) :
    ∀ entry ∈ listings above modules, p entry.1 entry.2 :=
  match modules with
  | [] => by simp [listings]
  | m :: rest => by
    intro entry hentry
    rcases List.mem_append.mp hentry with hfirst | hrest
    · exact forall_listing hbelow above m (hmodules m (by simp)) entry hfirst
    · exact forall_listings hbelow above rest (fun n hn => hmodules n (by simp [hn])) entry hrest

end

mutual

/-- A module right below a listed one is listed, at a path one name longer. -/
theorem mem_listing_below (above : List String) (m : ModuleRecord) {path : List String}
    {r child : ModuleRecord} (hr : (path, r) ∈ m.listing above) (hchild : child ∈ r.modules) :
    (path ++ [child.name], child) ∈ m.listing above :=
  match m with
  | ⟨name, description, callable, inputs, procedures, modules⟩ => by
    rcases List.mem_cons.mp hr with heq | hrest
    · obtain ⟨rfl, rfl⟩ := Prod.mk.inj heq
      exact List.mem_cons_of_mem _ (mem_listings_of_mem _ hchild)
    · exact List.mem_cons_of_mem _ (mem_listings_below (above ++ [name]) modules hrest hchild)

/-- With a module its children are listed. -/
theorem mem_listings_below (above : List String) (modules : List ModuleRecord)
    {path : List String} {r child : ModuleRecord} (hr : (path, r) ∈ listings above modules)
    (hchild : child ∈ r.modules) : (path ++ [child.name], child) ∈ listings above modules :=
  match modules with
  | [] => by simp [listings] at hr
  | m :: rest => by
    rcases List.mem_append.mp hr with hfirst | hrest
    · exact List.mem_append_left _ (mem_listing_below above m hfirst hchild)
    · exact List.mem_append_right _ (mem_listings_below above rest hrest hchild)

end

/-- Paths below a path begin with it. -/
theorem prefix_of_mem_listing {above : List String} {m : ModuleRecord}
    {entry : List String × ModuleRecord} (hentry : entry ∈ m.listing above) :
    above ++ [m.name] <+: entry.1 := by
  refine forall_listing (p := fun path _ => above ++ [m.name] <+: path) ?_ above m
    (List.prefix_refl _) entry hentry
  intro path r hpath child _
  exact hpath.trans (List.prefix_append path [child.name])

mutual

/-- Where siblings have different names, no path is listed twice. -/
theorem nodup_listing (above : List String) (m : ModuleRecord)
    (hnames : ∀ entry ∈ m.listing above, (entry.2.modules.map ModuleRecord.name).Nodup) :
    ((m.listing above).map Prod.fst).Nodup :=
  match m with
  | ⟨name, description, callable, inputs, procedures, modules⟩ => by
    have hrest := nodup_listings (above ++ [name]) modules
      (hnames (above ++ [name], ⟨name, description, callable, inputs, procedures, modules⟩)
        (by simp [listing]))
      (fun entry hentry => hnames entry (List.mem_cons_of_mem _ hentry))
    refine List.nodup_cons.mpr ⟨?_, hrest⟩
    intro hmem
    obtain ⟨entry, hentry, hpath⟩ := List.mem_map.mp hmem
    obtain ⟨child, -, hchild⟩ := mem_listings_iff.mp hentry
    have hlength := (prefix_of_mem_listing hchild).length_le
    rw [hpath] at hlength
    simp only [List.length_append, List.length_cons, List.length_nil] at hlength
    omega

/-- No path is listed twice when siblings have different names. -/
theorem nodup_listings (above : List String) (modules : List ModuleRecord)
    (hsiblings : (modules.map ModuleRecord.name).Nodup)
    (hnames : ∀ entry ∈ listings above modules, (entry.2.modules.map ModuleRecord.name).Nodup) :
    ((listings above modules).map Prod.fst).Nodup :=
  match modules with
  | [] => by simp [listings]
  | m :: rest => by
    obtain ⟨hm, hrest⟩ := List.nodup_cons.mp hsiblings
    have hfirst := nodup_listing above m fun entry hentry =>
      hnames entry (List.mem_append_left _ hentry)
    have hothers := nodup_listings above rest hrest fun entry hentry =>
      hnames entry (List.mem_append_right _ hentry)
    rw [listings, List.map_append, List.nodup_append]
    refine ⟨hfirst, hothers, ?_⟩
    rintro path hpath other hother rfl
    obtain ⟨entry, hentry, hentryPath⟩ := List.mem_map.mp hpath
    obtain ⟨entry', hentry', hentryPath'⟩ := List.mem_map.mp hother
    obtain ⟨n, hn, hbelow⟩ := mem_listings_iff.mp hentry'
    have hpre := prefix_of_mem_listing hentry
    have hpre' := prefix_of_mem_listing hbelow
    rw [hentryPath] at hpre
    rw [hentryPath'] at hpre'
    have hsame := List.prefix_or_prefix_of_prefix hpre hpre'
    have heq : above ++ [m.name] = above ++ [n.name] := by
      rcases hsame with h | h
      · exact h.eq_of_length (by simp)
      · exact (h.eq_of_length (by simp)).symm
    have hname : m.name = n.name := by simpa using heq
    exact hm (List.mem_map.mpr ⟨n, hn, hname.symm⟩)

end

end ModuleRecord

/-- All modules of a document with their paths. -/
def listing (document : Document) : List (List String × ModuleRecord) :=
  ModuleRecord.listings [] document.modules

end FirmwareModel.Document
