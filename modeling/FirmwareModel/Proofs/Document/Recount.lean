import FirmwareModel.Proofs.Document.OfTree
import FirmwareModel.Proofs.Tree.Counting

/-!
# Counting records

A document lists each module of its tree once, so whatever is counted module by module in the tree
can be counted record by record in the document.
-/

namespace FirmwareModel

namespace Document

/-- All inputs of a document, at any depth. -/
def inputs (document : Document) : List InputRecord :=
  document.listing.flatMap fun entry => entry.2.inputs

/-- All procedures of a document, at any depth. -/
def procedures (document : Document) : List ProcedureRecord :=
  document.listing.flatMap fun entry => entry.2.procedures

/-- All arguments of a document, at any depth. -/
def arguments (document : Document) : List ArgumentRecord :=
  document.procedures.flatMap ProcedureRecord.arguments

end Document

namespace ModuleTree

variable {α β : Type} {t : ModuleTree}

/-- When each module of a tree has one entry, under its path, and the entry shows what is computed
at the module, then the entries show what is computed at all modules. -/
theorem WellFormed.perm_map_entries (h : t.WellFormed) {f : Module → α}
    {entries : List (List String × β)} {g : List String × β → α}
    (hnodup : (entries.map Prod.fst).Nodup)
    (hlisted : ∀ path m, t.moduleAt? path = some m → path ∈ entries.map Prod.fst)
    (hshown : ∀ entry ∈ entries, ∃ m, t.moduleAt? entry.1 = some m ∧ f m = g entry) :
    (t.nodes.toList.map f).Perm (entries.map g) := by
  obtain ⟨paths, hpathsNodup, hmem, hvalues⟩ := h.exists_paths (α := α)
  have hpaths : paths.Perm (entries.map Prod.fst) := by
    rw [List.perm_ext_iff_of_nodup hpathsNodup hnodup]
    intro path
    rw [hmem]
    constructor
    · rintro ⟨id, hid⟩
      obtain ⟨m, hm⟩ := h.exists_module?_of_placeAt? hid
      exact hlisted path m (moduleAt?_eq_some_iff.mpr ⟨id, hid, hm⟩)
    · intro hpath
      obtain ⟨entry, hentry, rfl⟩ := List.mem_map.mp hpath
      obtain ⟨m, hm, -⟩ := hshown entry hentry
      obtain ⟨id, hid, -⟩ := moduleAt?_eq_some_iff.mp hm
      exact ⟨id, hid⟩
  have hmodules : t.nodes.toList.map f = paths.filterMap fun path => (t.moduleAt? path).map f := by
    simp only [← valueAt?_const, ← hvalues]
    exact List.ext_getElem? (by simp)
  have hentries : (entries.map Prod.fst).filterMap (fun path => (t.moduleAt? path).map f) =
      entries.map g := by
    rw [List.filterMap_map, ← List.filterMap_eq_map]
    refine List.filterMap_congr fun entry hentry => ?_
    obtain ⟨m, hm, hvalue⟩ := hshown entry hentry
    simp [hm, hvalue]
  rw [hmodules, ← hentries]
  exact hpaths.filterMap _

end ModuleTree

end FirmwareModel
