import FirmwareModel.Proofs.Tree.Reachable
import FirmwareModel.Proofs.Tree.Settling

/-!
# Inputs that take over callables

An input that declares no callable takes over the one of the closest module around it that has one,
unless a module that opted out comes first. Taking over reads modules and writes inputs only, so
what is written is never read: doing it again changes nothing.
-/

namespace FirmwareModel

/-! ## The closest callable -/

/-- From the inside outwards, the callable belongs to the first module that has one, and none of
the modules before that opted out. -/
def ClosestCallable (chain : List Module) (c : Callable) : Prop :=
  ∃ before m after, chain = before ++ m :: after ∧ m.callable = some c ∧
    ∀ n ∈ before, n.callable = none ∧ n.updateSuppressed = false

/-- The closest callable is that of the innermost module, or if that has none and has not opted out,
the closest of the others. -/
theorem closestCallable_cons_iff {m : Module} {chain : List Module} {c : Callable} :
    ClosestCallable (m :: chain) c ↔ m.callable = some c ∨
      m.callable = none ∧ m.updateSuppressed = false ∧ ClosestCallable chain c := by
  constructor
  · rintro ⟨before, n, after, heq, hn, hbefore⟩
    cases before with
    | nil =>
      obtain ⟨rfl, -⟩ := List.cons.inj heq
      exact Or.inl hn
    | cons first before =>
      obtain ⟨rfl, rfl⟩ := List.cons.inj heq
      obtain ⟨⟨hcallable, hsuppressed⟩, hrest⟩ := List.forall_mem_cons.mp hbefore
      exact Or.inr ⟨hcallable, hsuppressed, before, n, after, rfl, hn, hrest⟩
  · rintro (hm | ⟨hcallable, hsuppressed, before, n, after, rfl, hn, hbefore⟩)
    · exact ⟨[], m, chain, rfl, hm, by simp⟩
    · exact ⟨m :: before, n, after, rfl, hn,
        List.forall_mem_cons.mpr ⟨⟨hcallable, hsuppressed⟩, hbefore⟩⟩

/-- The search for a callable finds the closest one, if there is one. -/
theorem nearestCallable?_eq_some_iff {chain : List Module} {c : Callable} :
    nearestCallable? chain = some c ↔ ClosestCallable chain c := by
  induction chain with
  | nil => simp [nearestCallable?, ClosestCallable]
  | cons m chain ih =>
    rw [nearestCallable?, closestCallable_cons_iff, ← ih]
    cases hcallable : m.callable with
    | some own => simp
    | none => cases hsuppressed : m.updateSuppressed <;> simp

/-! ## Inputs and modules -/

namespace Input

variable {i : Input} {source : Option Callable}

/-- An input needs a callable when it has none and has not opted out. -/
theorem isOrphan_iff : i.isOrphan = true ↔ i.callable = none ∧ i.updateSuppressed = false := by
  simp [isOrphan]

/-- An input that needs a callable gets a copy of what there is to take over. -/
theorem inherit_of_isOrphan (h : i.isOrphan = true) :
    i.inherit source = { i with callable := source.map Callable.inheritedCopy } :=
  if_pos h

/-- An input that needs no callable stays as it is. -/
theorem inherit_of_not_isOrphan (h : ¬ i.isOrphan = true) : i.inherit source = i :=
  if_neg h

/-- An input that has taken over a callable needs none. -/
theorem isOrphan_inherit_some (i : Input) (c : Callable) :
    (i.inherit (some c)).isOrphan = false := by
  by_cases h : i.isOrphan = true
  · rw [inherit_of_isOrphan h]
    rfl
  · rw [inherit_of_not_isOrphan h]
    simpa using h

/-- Where there is nothing to take over, nothing changes. -/
theorem inherit_none (i : Input) : i.inherit none = i := by
  by_cases h : i.isOrphan = true
  · have hcallable := (isOrphan_iff.mp h).1
    rw [inherit_of_isOrphan h, Option.map_none, ← hcallable]
  · exact inherit_of_not_isOrphan h

/-- Taking over the same callable again changes nothing. -/
theorem inherit_inherit (i : Input) : (i.inherit source).inherit source = i.inherit source := by
  cases source with
  | none => rw [inherit_none, inherit_none]
  | some c => exact inherit_of_not_isOrphan (by simp [isOrphan_inherit_some])

/-- The callable of an input changes when the input needs one and there is one. -/
theorem callable_inherit_ne_iff :
    (i.inherit source).callable ≠ i.callable ↔ i.isOrphan = true ∧ source.isSome := by
  by_cases h : i.isOrphan = true
  · have hcallable := (isOrphan_iff.mp h).1
    rw [inherit_of_isOrphan h, hcallable]
    cases source <;> simp [h]
  · simp [inherit_of_not_isOrphan h, h]

end Input

namespace Module

/-- Taking over the same callable again changes nothing in a module. -/
theorem inherit_inherit (source : Option Callable) (m : Module) :
    (m.inherit source).inherit source = m.inherit source := by
  have hinputs : Input.inherit source ∘ Input.inherit source = Input.inherit source :=
    funext Input.inherit_inherit
  simp only [inherit, Table.map_map, hinputs]

end Module

/-! ## Trees -/

namespace ModuleTree

variable {t : ModuleTree}

/-- An input, given by the index of its module and its name. -/
def inputOf? (t : ModuleTree) (id : Nat) (name : String) : Option Input :=
  (t.module? id).bind fun m => m.inputs.find? name

/-- The inputs of all modules, each given by the index of its module and its name. -/
def inputPlaces (t : ModuleTree) : List (Nat × String) :=
  (t.nodes.toList.mapIdx fun id m => m.inputs.keys.map fun name => (id, name)).flatten

/-- The number of inputs that have another callable in another tree. -/
def changedCallables (t t' : ModuleTree) : Nat :=
  t.inputPlaces.countP fun (id, name) =>
    (t'.inputOf? id name).bind Input.callable ≠ (t.inputOf? id name).bind Input.callable

/-- What taking over callables makes of a tree. -/
structure TakenOver (t t' : ModuleTree) : Prop where
  roots : t'.roots = t.roots
  size : t'.size = t.size
  /-- Of a module nothing changes but its inputs, and these keep their names and their order. -/
  modules : ∀ id m, t.module? id = some m →
    ∃ inputs, t'.module? id = some { m with inputs } ∧ inputs.keys = m.inputs.keys
  /-- An input that has a callable, or that opted out, stays as it is. -/
  settled : ∀ id name i, t.inputOf? id name = some i →
    i.callable ≠ none ∨ i.updateSuppressed = true → t'.inputOf? id name = some i
  /-- Any other input changes in its callable only: it gets a copy of the closest one on the chain
  of the modules around it, and none if there is none. -/
  orphans : ∀ id name i, t.inputOf? id name = some i →
    i.callable = none → i.updateSuppressed = false →
      ∃ chain callable, t.Chain (some id) chain ∧
        t'.inputOf? id name = some { i with callable } ∧
        ∀ c, callable = some c ↔ ∃ source, ClosestCallable chain source ∧ c = source.inheritedCopy

/-- Taking over callables changes each module for itself. -/
theorem inherit_fst_eq (t : ModuleTree) :
    t.inherit.1 = t.mapModules fun id => Module.inherit (t.inheritable? id) := rfl

/-- When inputs take over callables, each one does so from what its module can take over. -/
theorem inputOf?_inherit (t : ModuleTree) (id : Nat) (name : String) :
    t.inherit.1.inputOf? id name =
      (t.inputOf? id name).map (Input.inherit (t.inheritable? id)) := by
  rw [inherit_fst_eq, inputOf?, module?_mapModules, inputOf?]
  cases t.module? id <;> simp [Module.inherit]

/-- Taking over callables in a built tree makes of it what it should. -/
theorem Reachable.takenOver (h : t.Reachable) : TakenOver t t.inherit.1 where
  roots := rfl
  size := by simp [inherit_fst_eq, ModuleTree.size, mapModules]
  modules := by
    intro id m hm
    refine ⟨m.inputs.map (Input.inherit (t.inheritable? id)), ?_, Table.keys_map _ _⟩
    rw [inherit_fst_eq, module?_mapModules, hm]
    rfl
  settled := by
    intro id name i hi hsettled
    have horphan : ¬ i.isOrphan = true := by
      rw [Input.isOrphan_iff]
      rintro ⟨hcallable, hunsuppressed⟩
      rcases hsettled with hsome | hsuppressed
      · exact hsome hcallable
      · simp [hunsuppressed] at hsuppressed
    rw [inputOf?_inherit, hi, Option.map_some, Input.inherit_of_not_isOrphan horphan]
  orphans := by
    intro id name i hi hcallable hunsuppressed
    obtain ⟨m, hm, -⟩ := Option.bind_eq_some_iff.mp hi
    have horphan := Input.isOrphan_iff.mpr ⟨hcallable, hunsuppressed⟩
    refine ⟨t.ancestors id, (t.inheritable? id).map Callable.inheritedCopy,
      (coherent_of_reachable h).chain id m hm, ?_, fun c => ?_⟩
    · rw [inputOf?_inherit, hi, Option.map_some, Input.inherit_of_isOrphan horphan]
    · simp only [Option.map_eq_some_iff, inheritable?, nearestCallable?_eq_some_iff,
        eq_comm (a := c)]

/-! ## How many inputs change -/

/-- Of the inputs of one module, those change that need a callable, if there is one. -/
theorem countP_changed_of_module? {id : Nat} {m : Module} (hm : t.module? id = some m) :
    (m.inputs.keys.countP fun name =>
      (t.inherit.1.inputOf? id name).bind Input.callable ≠
        (t.inputOf? id name).bind Input.callable) =
      if (t.inheritable? id).isSome then m.orphanCount else 0 := by
  have hinput : ∀ entry ∈ m.inputs.entries, t.inputOf? id entry.1 = some entry.2 := by
    intro entry hentry
    rw [inputOf?, hm, Option.bind_some]
    exact Table.find?_eq_some_iff.mpr hentry
  have hchanged : m.inputs.entries.countP (fun entry =>
      (t.inherit.1.inputOf? id entry.1).bind Input.callable ≠
        (t.inputOf? id entry.1).bind Input.callable) =
      m.inputs.entries.countP fun entry =>
        entry.2.isOrphan && (t.inheritable? id).isSome := by
    refine List.countP_congr fun entry hentry => ?_
    rw [inputOf?_inherit, hinput entry hentry]
    simp [Input.callable_inherit_ne_iff]
  rw [Table.keys, List.countP_map]
  refine hchanged.trans ?_
  rw [Module.orphanCount, Table.values, List.countP_map]
  cases t.inheritable? id <;> simp [Function.comp_def]

/-- The count of taking over callables is that of the inputs whose callable changes. -/
theorem inherit_snd_eq_changedCallables (t : ModuleTree) :
    t.inherit.2 = changedCallables t t.inherit.1 := by
  have hcount : t.inherit.2 = (t.nodes.toList.mapIdx fun id m =>
      if (t.inheritable? id).isSome then m.orphanCount else 0).sum := List.sum_eq_foldr.symm
  rw [hcount, changedCallables, inputPlaces, List.countP_flatten]
  refine congrArg List.sum (List.mapIdx_eq_iff.mpr fun id => ?_)
  rw [List.getElem?_map, List.getElem?_mapIdx, Option.map_map]
  refine Option.map_congr fun m hm => ?_
  rw [Array.getElem?_toList] at hm
  rw [Function.comp_apply, List.countP_map]
  exact countP_changed_of_module? hm

/-! ## Doing it again -/

/-- What inputs can take over is decided by modules alone. -/
theorem inheritable?_inherit (t : ModuleTree) (id : Nat) :
    t.inherit.1.inheritable? id = t.inheritable? id := by
  have hwalk : ∀ bound start, nearestCallable? (t.inherit.1.ancestorsUpTo bound start) =
      nearestCallable? (t.ancestorsUpTo bound start) := by
    intro bound
    induction bound with
    | zero => exact fun _ => rfl
    | succ bound ih =>
      intro start
      cases start with
      | none => rfl
      | some other =>
        rw [ancestorsUpTo, ancestorsUpTo, inherit_fst_eq, module?_mapModules]
        cases t.module? other with
        | none => rfl
        | some m =>
          have hrest := ih m.parent
          simp only [Option.map_some, nearestCallable?, Module.inherit]
          rw [← inherit_fst_eq, hrest]
  exact hwalk (id + 1) (some id)

/-- Once callables have been taken over, nothing is left to take over. -/
theorem inherit_inherit (t : ModuleTree) : t.inherit.1.inherit = (t.inherit.1, 0) := by
  have htree : t.inherit.1.inherit.1 = t.inherit.1 := by
    rw [inherit_fst_eq t.inherit.1]
    simp only [inheritable?_inherit]
    rw [inherit_fst_eq, mapModules_mapModules]
    simp only [Module.inherit_inherit]
  have hcount : t.inherit.1.inherit.2 = 0 := by
    rw [inherit_snd_eq_changedCallables, htree, changedCallables]
    simp
  exact Prod.ext htree hcount

/-- Inputs of a built tree take over the closest callable around them. An input without a callable
that has not opted out gets a copy, marked as taken over, of the callable of the first module on its
chain that has one, unless a module that opted out comes before; otherwise it still has none. All
else stays as it is, the callable that was copied included. The count is that of the inputs whose
callable changed, and a second time nothing changes. -/
theorem inherit_takes_over_closest (h : t.Reachable) :
    TakenOver t t.inherit.1 ∧ t.inherit.2 = changedCallables t t.inherit.1 ∧
      t.inherit.1.inherit = (t.inherit.1, 0) :=
  ⟨h.takenOver, inherit_snd_eq_changedCallables t, inherit_inherit t⟩

/-- The fan takes over the callable of the lamp around it. The glow, which opted out, does not, and
neither does the ring inside it. -/
theorem lamp_fan_takes_over_closest :
    let lamp : ModulePath := ⟨"Lamp", by decide⟩
    let fan : ModulePath := ⟨"Lamp::Fan", by decide⟩
    let ring : ModulePath := ⟨"Lamp::Glow::Ring", by decide⟩
    let on : Callable := { symbol := ⟨"_on", "on()"⟩, address := some (.located 8) }
    let declared := ((ModuleTree.empty.editOwner (.moduleField lamp .callable) (.call on)).editOwner
      (.inputField fan "speed" .size) .keep).editOwner (.inputField ring "level" .size) .keep
    let t := declared.mapModules fun _ m => { m with updateSuppressed := m.name == "Glow" }
    t.Reachable ∧ t.nodes.toList.map Module.name = ["Lamp", "Fan", "Glow", "Ring"] ∧
      (t.inherit.1.inputOf? 1 "speed").bind Input.callable = some on.inheritedCopy ∧
      (t.inherit.1.inputOf? 3 "level").bind Input.callable = none ∧ t.inherit.2 = 1 ∧
      TakenOver t t.inherit.1 ∧ t.inherit.2 = changedCallables t t.inherit.1 ∧
      t.inherit.1.inherit = (t.inherit.1, 0) := by
  intro lamp fan ring on declared t
  have hreachable : t.Reachable :=
    .refill _ (fun _ _ => rfl) (.editOwner _ _ (.editOwner _ _ (.editOwner _ _ .empty)))
  exact ⟨hreachable, by decide +kernel, by decide +kernel, by decide +kernel, by decide +kernel,
    inherit_takes_over_closest hreachable⟩

end ModuleTree

end FirmwareModel
