import Mathlib.Data.List.MinMax
import FirmwareModel.Proofs.Grammar.Declarations

/-!
# Candidates for the module of a name

Two module paths of one length that a name follows with a separator are the same path. The longest
candidate is therefore one path, and reading a name does not depend on the order in which the paths
are known.
-/

namespace FirmwareModel

open FirmwareModel.Text

/-- The beginning of a path is that path or a shorter one. -/
theorem ModulePath.eq_or_length_lt_of_beginning {path other : ModulePath}
    (hpre : path.text.toList <+: other.text.toList) :
    path = other ∨ path.length < other.length := by
  obtain ⟨back, hback⟩ := hpre
  have htext : other.text = path.text ++ String.ofList back := by
    rw [← String.toList_inj, String.toList_append, String.toList_ofList, hback]
  have hsize := congrArg String.utf8ByteSize htext
  rw [String.utf8ByteSize_append] at hsize
  by_cases hempty : String.ofList back = ""
  · left
    apply ModulePath.text_injective
    rw [htext, hempty, String.append_empty]
  · right
    rw [← String.utf8ByteSize_eq_zero_iff] at hempty
    unfold ModulePath.length
    omega

/-- A path that is the beginning of another path, and as long as it, is that path. -/
theorem ModulePath.eq_of_prefix {path other : ModulePath}
    (hpre : path.text.toList <+: other.text.toList) (hlength : path.length = other.length) :
    path = other :=
  (eq_or_length_lt_of_beginning hpre).resolve_right (by omega)

/-- Two paths of one length that give a role to one text are the same. -/
theorem eq_of_roleUnder? {m : Markers} {rest : List Char} {path other : ModulePath}
    (hpath : (roleUnder? m rest path).isSome) (hother : (roleUnder? m rest other).isSome)
    (hlength : path.length = other.length) : path = other := by
  obtain ⟨result, hresult⟩ := Option.isSome_iff_exists.mp hpath
  obtain ⟨tail, htail, -⟩ := roleUnder?_eq_some_iff.mp hresult
  obtain ⟨result', hresult'⟩ := Option.isSome_iff_exists.mp hother
  obtain ⟨tail', htail', -⟩ := roleUnder?_eq_some_iff.mp hresult'
  have hpre : path.text.toList <+: rest := ⟨_, htail.symm⟩
  have hpre' : other.text.toList <+: rest := ⟨_, htail'.symm⟩
  rcases List.prefix_or_prefix_of_prefix hpre hpre' with h | h
  · exact ModulePath.eq_of_prefix h hlength
  · exact (ModulePath.eq_of_prefix h hlength.symm).symm

/-- When no two paths of one length have results, the search through the paths, the longest first,
ends at the one longest path with a result, or nowhere when there is none. -/
theorem findSome?_longestFirst_cases {β : Type} (paths : List ModulePath)
    {f : ModulePath → Option β}
    (hunique : ∀ path other, (f path).isSome → (f other).isSome → path.length = other.length →
      path = other) :
    (∃ path ∈ paths, ∃ b, f path = some b ∧
      (∀ other ∈ paths, (f other).isSome → other = path ∨ other.length < path.length) ∧
      (longestFirst paths).findSome? f = some b) ∨
    (∀ path ∈ paths, f path = none) ∧ (longestFirst paths).findSome? f = none := by
  cases hlongest : (paths.filter fun path => (f path).isSome).argmax ModulePath.length with
  | none =>
    have hnone : ∀ path ∈ paths, f path = none := by
      simpa [List.argmax_eq_none, List.filter_eq_nil_iff] using hlongest
    refine Or.inr ⟨hnone, List.findSome?_eq_none_iff.mpr fun path hpath => ?_⟩
    exact hnone path (by simpa [longestFirst] using hpath)
  | some path =>
    obtain ⟨hin, hsome⟩ := List.mem_filter.mp (List.argmax_mem hlongest)
    obtain ⟨b, hb⟩ := Option.isSome_iff_exists.mp hsome
    have hshorter : ∀ other ∈ paths, (f other).isSome →
        other = path ∨ other.length < path.length := by
      intro other hother hresult
      have hle := List.le_of_mem_argmax (List.mem_filter.mpr ⟨hother, hresult⟩) hlongest
      rcases Nat.lt_or_eq_of_le hle with hlt | heq
      · exact Or.inr hlt
      · exact Or.inl (hunique other path hresult hsome heq)
    exact Or.inl ⟨path, hin, b, hb, hshorter, findSome?_longestFirst hin hb hshorter⟩

/-- The search through the paths, the longest first, gives the same result for two lists with the
same paths among those that have results, when no two paths of one length have results. -/
theorem findSome?_longestFirst_congr {β : Type} {paths paths' : List ModulePath}
    {f : ModulePath → Option β}
    (hmem : ∀ path, (f path).isSome → (path ∈ paths ↔ path ∈ paths'))
    (hunique : ∀ path other, (f path).isSome → (f other).isSome → path.length = other.length →
      path = other) :
    (longestFirst paths).findSome? f = (longestFirst paths').findSome? f := by
  rcases findSome?_longestFirst_cases paths hunique with
    ⟨path, hin, b, hb, hshorter, hfound⟩ | ⟨hnone, hfound⟩
  · have hin' := (hmem path (by simp [hb])).mp hin
    rw [hfound, findSome?_longestFirst hin' hb fun other hother hsome =>
      hshorter other ((hmem other hsome).mpr hother) hsome]
  · rw [hfound, eq_comm, List.findSome?_eq_none_iff]
    intro path hpath
    by_contra hsome
    have hsome : (f path).isSome := Option.isSome_iff_ne_none.mpr hsome
    have hin := (hmem path hsome).mpr (by simpa [longestFirst] using hpath)
    simp [hnone path hin] at hsome

/-- A name is read in the same way whatever the order of the paths. -/
theorem classify_congr {paths paths' : List ModulePath}
    (hmem : ∀ path, path ∈ paths ↔ path ∈ paths') (m : Markers) (name : String) :
    classify m paths name = classify m paths' name := by
  unfold classify
  split
  · rfl
  case h_2 rest _ =>
    rw [findSome?_longestFirst_congr (fun path _ => hmem path) fun path other hpath hother =>
      eq_of_roleUnder? hpath hother]

end FirmwareModel
