import FirmwareModel.Proofs.Grammar.Candidates

/-!
# The longest declaring path

A name is read under one module path only: the longest of those that it leads through, that is, of
those behind which it goes on with a separator and a token that can begin a declaration. Neither the
order of the paths nor further paths that the name does not lead through change what is read.
-/

namespace FirmwareModel

open FirmwareModel.Text

namespace Markers

/-- The tokens that can stand behind a module path. -/
def heads (m : Markers) : List String :=
  [m.module, m.info, m.inputs, m.procedure]

/-- Behind the namespace and the path the name goes on with a separator and the tail, the first
segment of which can begin a declaration. -/
structure LeadsThrough (m : Markers) (name : String) (path : ModulePath) (tail : String) :
    Prop where
  name_eq : name = m.namespaceText ++ (path.text ++ ("::" ++ tail))
  head_mem : (segments tail).headD "" ∈ m.heads

end Markers

/-- What is read speaks of the path and the tokens behind it: a role is a role in that module, a
malformed declaration quotes all tokens, and an unknown field is the last token. -/
def Concerns (path : ModulePath) (tokens : List String) : Except DeclarationFault Role → Prop
  | .ok role => role.module? = some path
  | .error (.malformed _ quoted) => quoted = tokens
  | .error (.unknownField _ field) => tokens.getLast? = some field

/-! ## Reading under one path -/

/-- Tokens give an outcome exactly when the first of them can begin a declaration. -/
theorem roleOfTokens?_isSome_iff {m : Markers} (path : ModulePath) {tokens : List String} :
    (roleOfTokens? m path tokens).isSome ↔ tokens.headD "" ∈ m.heads := by
  simp only [roleOfTokens?, Markers.heads, List.mem_cons, List.not_mem_nil, or_false]
  split_ifs with hmodule hinfo hinputs hprocedure
  all_goals
    simp only [*]
    simp

/-- A field that is looked up gives a role in the module, or the fault that names its word. -/
theorem concerns_map_fieldOr {α : Type} {path : ModulePath} {tokens : List String}
    {owner : EntityKind} {word : String} {field? : Option α} {role : α → Role}
    (hrole : ∀ field, (role field).module? = some path) (hword : tokens.getLast? = some word) :
    Concerns path tokens ((fieldOr owner word field?).map role) := by
  cases field? with
  | none => exact hword
  | some field => exact hrole field

/-- What is read from the tokens behind a path concerns that path. -/
theorem concerns_of_roleOfTokens? {m : Markers} {path : ModulePath} {tokens : List String}
    {outcome : Except DeclarationFault Role} (hread : roleOfTokens? m path tokens = some outcome) :
    Concerns path tokens outcome := by
  simp only [roleOfTokens?] at hread
  repeat' split at hread
  all_goals cases hread
  all_goals first
    | rfl
    | exact concerns_map_fieldOr (fun _ => rfl) rfl

section LeadsThrough

variable {m : Markers} {name : String} {rest : List Char} {path : ModulePath}

/-- Behind the namespace, the paths that have an outcome are those that the name leads through. -/
theorem roleUnder?_eq_some_iff_leadsThrough (hrest : stripText? m.namespaceText name = some rest)
    {outcome : Except DeclarationFault Role} :
    roleUnder? m rest path = some outcome ↔
      ∃ tail, m.LeadsThrough name path tail ∧
        roleOfTokens? m path (segments tail) = some outcome := by
  have hname : name.toList = m.namespaceText.toList ++ rest := stripStart?_eq_some_iff.mp hrest
  rw [roleUnder?_eq_some_iff]
  constructor
  · rintro ⟨tail, rfl, htokens⟩
    have hsegments : segments (String.ofList tail) = (splitSegments tail).map String.ofList := by
      rw [segments, String.toList_ofList]
    refine ⟨String.ofList tail, ⟨?_, ?_⟩, by rw [hsegments, htokens]⟩
    · rw [← String.toList_inj, hname]
      simp
    · rw [hsegments, ← roleOfTokens?_isSome_iff path, htokens]
      rfl
  · rintro ⟨tail, hleads, htokens⟩
    refine ⟨tail.toList, ?_, htokens⟩
    have hsame := hname.symm.trans (congrArg String.toList hleads.name_eq)
    simpa using hsame

/-- Something is read under a path when the name leads through it to what can begin a
declaration. -/
theorem roleUnder?_isSome_iff_leadsThrough
    (hrest : stripText? m.namespaceText name = some rest) :
    (roleUnder? m rest path).isSome ↔ ∃ tail, m.LeadsThrough name path tail := by
  simp only [Option.isSome_iff_exists, roleUnder?_eq_some_iff_leadsThrough hrest]
  constructor
  · rintro ⟨_, tail, hleads, -⟩
    exact ⟨tail, hleads⟩
  · rintro ⟨tail, hleads⟩
    obtain ⟨outcome, houtcome⟩ := Option.isSome_iff_exists.mp
      ((roleOfTokens?_isSome_iff path).mpr hleads.head_mem)
    exact ⟨outcome, tail, hleads, houtcome⟩

/-- A name without the namespace leads through no path. -/
theorem Markers.not_leadsThrough (hstrip : stripText? m.namespaceText name = none)
    (tail : String) : ¬ m.LeadsThrough name path tail := by
  intro hleads
  rw [stripText?, hleads.name_eq, String.toList_append, stripStart?_append] at hstrip
  cases hstrip

end LeadsThrough

/-! ## Reading under all paths -/

/-- What is read depends only on which of the paths the name leads through. -/
theorem classify_congr_of_leadsThrough {m : Markers} {paths paths' : List ModulePath}
    {name : String}
    (hmem : ∀ path tail, m.LeadsThrough name path tail → (path ∈ paths ↔ path ∈ paths')) :
    classify m paths name = classify m paths' name := by
  unfold classify
  split
  · rfl
  case h_2 rest hrest =>
    rw [findSome?_longestFirst_congr ?_ fun path other hpath hother =>
      eq_of_roleUnder? hpath hother]
    intro path hsome
    obtain ⟨tail, hleads⟩ := (roleUnder?_isSome_iff_leadsThrough hrest).mp hsome
    exact hmem path tail hleads

/-- The longest path that the name leads through decides what is read; without one the name tells
nothing. -/
theorem classify_cases_longest (m : Markers) (paths : List ModulePath) (name : String) :
    (∃ path ∈ paths, ∃ tail, m.LeadsThrough name path tail ∧
      (∀ other ∈ paths, ∀ back, m.LeadsThrough name other back →
        other = path ∨ other.length < path.length) ∧
      roleOfTokens? m path (segments tail) = some (classify m paths name)) ∨
    (∀ path ∈ paths, ∀ tail, ¬ m.LeadsThrough name path tail) ∧
      classify m paths name = .ok .irrelevant := by
  unfold classify
  split
  case h_1 hstrip => exact Or.inr ⟨fun _ _ tail => m.not_leadsThrough hstrip tail, rfl⟩
  case h_2 rest hrest =>
    rcases findSome?_longestFirst_cases paths
        (fun path other hpath hother => eq_of_roleUnder? hpath hother) with
      ⟨path, hin, outcome, houtcome, hshorter, hfound⟩ | ⟨hnone, hfound⟩
    · obtain ⟨tail, hleads, htokens⟩ := (roleUnder?_eq_some_iff_leadsThrough hrest).mp houtcome
      refine Or.inl ⟨path, hin, tail, hleads, fun other hother back hback => ?_, ?_⟩
      · exact hshorter other hother ((roleUnder?_isSome_iff_leadsThrough hrest).mpr ⟨back, hback⟩)
      · rw [hfound, htokens, Option.getD_some]
    · refine Or.inr ⟨fun path hpath tail hleads => ?_, by rw [hfound, Option.getD_none]⟩
      have hsome := (roleUnder?_isSome_iff_leadsThrough hrest).mpr ⟨tail, hleads⟩
      simp [hnone path hpath] at hsome

/-- The longest declaring path wins, whatever the order. What is read of a name is decided by the
one longest path that the name leads through, and it speaks of that path and of the tokens behind
it; a name that leads through none of the paths tells nothing. Lists with the same paths, in any
order and with any repetitions, give the same; and paths that the name does not lead through, long
as they may be, hide nothing. -/
theorem classify_takes_longest_declaring_path (m : Markers) (paths : List ModulePath)
    (name : String) :
    ((∃ path ∈ paths, ∃ tail, m.LeadsThrough name path tail ∧
        (∀ other ∈ paths, ∀ back, m.LeadsThrough name other back →
          other = path ∨ other.length < path.length) ∧
        roleOfTokens? m path (segments tail) = some (classify m paths name) ∧
        Concerns path (segments tail) (classify m paths name)) ∨
      (∀ path ∈ paths, ∀ tail, ¬ m.LeadsThrough name path tail) ∧
        classify m paths name = .ok .irrelevant) ∧
    (∀ paths', (∀ path, path ∈ paths' ↔ path ∈ paths) →
      classify m paths' name = classify m paths name) ∧
    (∀ further : List ModulePath,
      (∀ path ∈ further, ∀ tail, ¬ m.LeadsThrough name path tail) →
        classify m (further ++ paths) name = classify m paths name) := by
  refine ⟨?_, fun paths' hmem => classify_congr hmem m name, fun further hfurther => ?_⟩
  · rcases classify_cases_longest m paths name with
      ⟨path, hpath, tail, hleads, hlongest, hread⟩ | hnone
    · exact Or.inl ⟨path, hpath, tail, hleads, hlongest, hread, concerns_of_roleOfTokens? hread⟩
    · exact Or.inr hnone
  · refine classify_congr_of_leadsThrough fun path tail hleads => ?_
    rw [List.mem_append, or_iff_right fun hpath => hfurther path hpath tail hleads]

/-- A module that is named like the inputs of another one, and is nested in it, does not hide an
input: behind it the name goes on with no token that can begin a declaration. A module that is named
like the input itself does, and then the field is at fault as a field of a module. The order and the
repetitions of the paths do not matter in either case. -/
theorem classify_input_under_namesakes :
    let foo : ModulePath := ⟨"Foo", by decide⟩
    let inputs : ModulePath := ⟨"Foo::_______inputs_______", by decide⟩
    let level : ModulePath := ⟨"Foo::_______inputs_______::level", by decide⟩
    let name := "kaleidoscope::module::Foo::_______inputs_______::level::_______info_______::size"
    (∀ tail, ¬ ({} : Markers).LeadsThrough name inputs tail) ∧
      classify {} [inputs, foo] name = .ok (.inputField foo "level" .size) ∧
      classify {} [foo, inputs, foo] name = .ok (.inputField foo "level" .size) ∧
      classify {} [foo, level] name = .error (.unknownField .module "size") := by
  intro foo inputs level name
  have hname : stripText? ({} : Markers).namespaceText name =
      some "Foo::_______inputs_______::level::_______info_______::size".toList := by
    decide +kernel
  have hinputs : ∀ tail, ¬ ({} : Markers).LeadsThrough name inputs tail := by
    rw [← not_exists, ← roleUnder?_isSome_iff_leadsThrough hname]
    decide +kernel
  have hfoo : classify {} [foo] name = .ok (.inputField foo "level" .size) := by decide +kernel
  have hboth : classify {} [inputs, foo] name = .ok (.inputField foo "level" .size) := by
    have hhides := (classify_takes_longest_declaring_path {} [foo] name).2.2 [inputs]
      (List.forall_mem_singleton.mpr hinputs)
    exact hhides.trans hfoo
  have horder := (classify_takes_longest_declaring_path {} [inputs, foo] name).2.1
    [foo, inputs, foo] (by simp [or_comm])
  refine ⟨hinputs, hboth, horder.trans hboth, ?_⟩
  have hlevel : roleUnder? {} "Foo::_______inputs_______::level::_______info_______::size".toList
      level = some (.error (.unknownField .module "size")) := by decide +kernel
  have hlonger : foo.length < level.length := by decide +kernel
  exact classify_of_roleUnder? (stripStart?_eq_some_iff.mp hname) (by simp) hlevel
    (by simp [hlonger])

end FirmwareModel
