import FirmwareModel.Proofs.Extraction.Entities
import FirmwareModel.Proofs.Extraction.Records

/-!
# The callables of a document

Which callable an entity has in the document is a matter of its last reference to code, and for
inputs without one, of the last reference of the closest module around them that has one. A
reference to the function that stands for "no update" leaves no callable, and nothing is taken over
past it.
-/

namespace FirmwareModel.Extraction

open Document

/-- A slot shows the code symbol that its entity refers to: nothing if there is no reference or if
the symbol stands for "no update", else a callable of its own with both spellings. -/
def ShowsReference (snapshot : Snapshot) (target : TargetSettings) :
    Option String → Option CallableRecord → Prop
  | none, slot => slot = none
  | some symbol, slot =>
    if snapshot.unmangled symbol = target.noopCallable then slot = none
    else ∃ address, slot = some
      { address, mangled := symbol, unmangled := snapshot.unmangled symbol, inherited := false }

/-- How the callables of the record of the module at a path follow from the last references of
entities to code. -/
structure CallableLaw (snapshot : Snapshot) (target : TargetSettings)
    (reference? : List String → Member → Option String) (document : Document) (path : List String)
    (r : ModuleRecord) : Prop where
  /-- A module shows its reference. -/
  module : ShowsReference snapshot target (reference? path .self) r.callable
  /-- A procedure shows its reference. -/
  procedures : ∀ p ∈ r.procedures,
    ShowsReference snapshot target (reference? path (.procedure p.name)) p.callable
  /-- An input with a reference shows it. -/
  inputs : ∀ i ∈ r.inputs, reference? path (.input i.name) ≠ none →
    ShowsReference snapshot target (reference? path (.input i.name)) i.callable
  /-- An input without a reference shows a marked copy of what the closest module around it with a
  reference shows, if there is such a module. -/
  orphans : ∀ i ∈ r.inputs, reference? path (.input i.name) = none →
    match (enclosingPaths path).find? fun p => (reference? p .self).isSome with
    | none => i.callable = none
    | some above => ∃ m, (above, m) ∈ document.listing ∧
        ShowsReference snapshot target (reference? above .self) m.callable ∧
        i.callable = m.callable.map fun c => { c with inherited := true }
  /-- No callable stands for "no update". -/
  no_noop : ∀ c ∈ r.callables, c.unmangled ≠ target.noopCallable

variable {settings : Settings} {snapshot : Snapshot} {map : List MapEntry} {x : Extraction}

/-- What becomes of a reference shows it. -/
theorem showsReference_settledCallable (reference : Option String) :
    ShowsReference snapshot settings.target reference
      ((reference.bind (settledCallable snapshot map settings.target)).map .ofCallable) := by
  cases reference with
  | none => rfl
  | some symbol =>
    rw [ShowsReference, Option.bind_some, settledCallable]
    split
    · rfl
    · exact ⟨_, rfl⟩

/-- The first result along a list is that of the first item with a result. -/
theorem findSome?_eq_bind_find? {α β : Type} (items : List α) (f : α → Option β) :
    items.findSome? f = (items.find? fun a => (f a).isSome).bind f := by
  induction items with
  | nil => rfl
  | cons item items ih =>
    rw [List.findSome?_cons, List.find?_cons]
    cases hf : f item with
    | none => simpa using ih
    | some b => simp [hf]

/-- What an input without a reference takes over. -/
theorem Stages.orphan_of_mem_inputs (stages : Stages settings snapshot map x) {path : List String}
    {r : ModuleRecord} (hr : (path, r) ∈ x.document.listing) {i : InputRecord} (hi : i ∈ r.inputs)
    (hnone : stages.reference? path (.input i.name) = none) :
    match (enclosingPaths path).find? fun p => (stages.reference? p .self).isSome with
    | none => i.callable = none
    | some above => ∃ m, (above, m) ∈ x.document.listing ∧
        ShowsReference snapshot settings.target (stages.reference? above .self) m.callable ∧
        i.callable = m.callable.map fun c => { c with inherited := true } := by
  have hcallable := stages.callable_of_mem_inputs hr hi
  rw [hnone, Option.elim_none, enclosing?, findSome?_eq_bind_find?] at hcallable
  split
  case h_1 hfind =>
    rw [hcallable, hfind]
    rfl
  case h_2 above hfind =>
    obtain ⟨m, hm⟩ :=
      stages.exists_mem_listing_of_mem_enclosingPaths hr (List.mem_of_find?_eq_some hfind)
    have hmodule := stages.callable_of_mem_listing hm
    refine ⟨m, hm, ?_, ?_⟩
    · rw [hmodule]
      exact showsReference_settledCallable _
    · rw [hcallable, hfind, Option.bind_some, hmodule, declared?, Option.map_map, Option.map_map]
      rfl

/-- Every callable of the document of an extraction is the one that the records of the snapshot
give to its entity, or a copy of the closest one around it. -/
theorem run_callables_follow_references (h : run settings snapshot map = .ok x) :
    ∃ survey, SymbolSurvey.ofSnapshot settings.markers snapshot = .ok survey ∧
      ∀ path r, (path, r) ∈ x.document.listing →
        CallableLaw snapshot settings.target
          (lastCodeReference? settings.sections survey.classified snapshot.relocations)
          x.document path r := by
  obtain ⟨stages⟩ := exists_stages h
  refine ⟨stages.survey, stages.surveyed, fun path r hr => ?_⟩
  constructor
  case module =>
    rw [stages.callable_of_mem_listing hr]
    exact showsReference_settledCallable _
  case procedures =>
    intro p hp
    rw [stages.callable_of_mem_procedures hr hp]
    exact showsReference_settledCallable _
  case inputs =>
    intro i hi hne
    obtain ⟨symbol, hsymbol⟩ := Option.ne_none_iff_exists'.mp hne
    have hreference : stages.reference? path (.input i.name) = some symbol := hsymbol
    rw [stages.callable_of_mem_inputs hr hi, hsymbol, hreference]
    exact showsReference_settledCallable (some symbol)
  case orphans =>
    intro i hi hnone
    exact stages.orphan_of_mem_inputs hr hi hnone
  case no_noop =>
    intro c hc
    obtain ⟨symbol, settled, hsettled, hcopy⟩ :=
      stages.exists_settledCallable_of_mem_callables hr hc
    obtain ⟨hnoop, rfl⟩ := settledCallable_eq_some_iff.mp hsettled
    rcases hcopy with rfl | rfl
    · exact hnoop
    · exact hnoop

/-- The callable of the glow of the lamp, as the document shows it. -/
def Lamp.update : CallableRecord :=
  { address := some (.located 0x80), mangled := "update", unmangled := "update"
    inherited := false }

/-- The callables of the lamp: its glow has one, which the level takes over and the mode does
not. -/
theorem lamp_callables_follow_references :
    ∃ x, run Lamp.settings Lamp.snapshot Lamp.map = .ok x ∧
      ((x.document.listing.map fun (path, r) => (path, r.callable)) =
          [(["Lamp"], none), (["Lamp", "Glow"], some Lamp.update)] ∧
        (x.document.listing.flatMap fun (_, r) => r.inputs.map fun i => (i.name, i.callable)) =
          [("level", some { Lamp.update with inherited := true }), ("mode", none)] ∧
        (x.document.listing.flatMap fun (_, r) =>
          r.procedures.map fun p => (p.name, p.callable)) = [("reset", none)]) ∧
      ∃ survey, SymbolSurvey.ofSnapshot Lamp.settings.markers Lamp.snapshot = .ok survey ∧
        ∀ path r, (path, r) ∈ x.document.listing →
          CallableLaw Lamp.snapshot Lamp.settings.target
            (lastCodeReference? Lamp.settings.sections survey.classified Lamp.snapshot.relocations)
            x.document path r := by
  exact Lamp.exists_run_and (by decide +kernel) fun _ hx => run_callables_follow_references hx

end FirmwareModel.Extraction
