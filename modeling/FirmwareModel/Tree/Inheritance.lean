import FirmwareModel.Tree.Basic

/-!
# Inheritance of callables

An input without a callable of its own is updated by the callable of its module, or of the closest
enclosing module that has one. The input gets a copy that is marked as taken over. Whoever declared
the callable that stands for "no update" opts out: such an input takes over none, and nothing is
taken over past such a module.
-/

namespace FirmwareModel

/-- The callable of the first module that has one, unless a suppressed module comes before it. -/
def nearestCallable? : List Module → Option Callable
  | [] => none
  | m :: enclosing =>
    match m.callable with
    | some callable => some callable
    | none => if m.updateSuppressed then none else nearestCallable? enclosing

/-- Whether an input takes over a callable if there is one. -/
def Input.isOrphan (i : Input) : Bool :=
  i.callable.isNone && !i.updateSuppressed

/-- An input that takes over the given callable, if it needs one. -/
def Input.inherit (source : Option Callable) (i : Input) : Input :=
  if i.isOrphan then { i with callable := source.map Callable.inheritedCopy } else i

/-- The number of inputs of a module that need a callable. -/
def Module.orphanCount (m : Module) : Nat :=
  m.inputs.values.countP Input.isOrphan

namespace ModuleTree

/-- The callable that the inputs of a module can take over. -/
def inheritable? (t : ModuleTree) (id : Nat) : Option Callable :=
  nearestCallable? (t.ancestors id)

/-- The tree whose inputs have taken over their callables, and the number of those that did. -/
def inherit (t : ModuleTree) : ModuleTree × Nat :=
  (t.mapModules fun id m => { m with inputs := m.inputs.map (Input.inherit (t.inheritable? id)) },
    (t.nodes.toList.mapIdx fun id m =>
      if (t.inheritable? id).isSome then m.orphanCount else 0).foldr (· + ·) 0)

end ModuleTree

end FirmwareModel
