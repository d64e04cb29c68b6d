import FirmwareModel.Fault
import FirmwareModel.Memory.Placement
import FirmwareModel.Tree.Basic

/-!
# Addresses of entities

Callables of modules, inputs and procedures and the storage of inputs are settled by the linker
map, each for itself. The arguments of all procedures share one overlay, so they only need the
placement of its symbol.
-/

namespace FirmwareModel

/-- An input once the linker map is known. -/
def Input.resolve (table : AddressTable) (target : TargetSettings) (i : Input) : Input :=
  { i with
    data := i.data.resolve table target
    callable := Callable.resolve table target i.callable
    updateSuppressed := i.updateSuppressed || Callable.isNoop target i.callable }

/-- A procedure once the linker map is known, its arguments apart. -/
def Procedure.resolve (table : AddressTable) (target : TargetSettings) (p : Procedure) :
    Procedure :=
  { p with callable := Callable.resolve table target p.callable }

/-- A module once the linker map is known, the arguments of its procedures apart. -/
def Module.resolve (table : AddressTable) (target : TargetSettings) (m : Module) : Module :=
  { m with
    callable := Callable.resolve table target m.callable
    updateSuppressed := m.updateSuppressed || Callable.isNoop target m.callable
    inputs := m.inputs.map (Input.resolve table target)
    procedures := m.procedures.map (Procedure.resolve table target) }

/-- How the references of a module are counted. -/
def Module.addressCounts (table : AddressTable) (target : TargetSettings) (m : Module) :
    AddressCounts :=
  Callable.counts table target m.callable +
    (AddressCounts.sum
        (m.inputs.values.map fun i =>
          i.data.counts table target + Callable.counts table target i.callable) +
      AddressCounts.sum
        (m.procedures.values.map fun p => Callable.counts table target p.callable))

/-- A tree once the linker map is known, and how its references were counted. -/
def ModuleTree.resolve (table : AddressTable) (target : TargetSettings) (t : ModuleTree) :
    ModuleTree × AddressCounts :=
  (t.mapModules fun _ => Module.resolve table target,
    AddressCounts.sum (t.nodes.toList.map (Module.addressCounts table target)))

/-- An argument in an overlay with the given symbol and address. -/
def Argument.place (symbol : SymbolName) (base : UInt64) (a : Argument) : Argument :=
  { a with
    data :=
      { a.data with
        symbol := some symbol
        baseAddress := some (.located base)
        address := some (.located (base + a.data.offset)) } }

/-- A module whose procedure arguments are in the overlay. -/
def Module.placeArguments (symbol : SymbolName) (base : UInt64) (m : Module) : Module :=
  { m with
    procedures := m.procedures.map fun p =>
      { p with arguments := p.arguments.map (Argument.place symbol base) } }

/-- A tree whose procedure arguments are in the overlay, which has to be in data memory. A tree
without procedures needs no overlay. -/
def ModuleTree.placeArguments (table : AddressTable) (target : TargetSettings) (t : ModuleTree) :
    Except Fault ModuleTree :=
  if t.hasProcedures then
    match table.placement? target.argumentBase with
    | none => .error (.unplacedArguments target.argumentBase)
    | some p =>
      if p.load < target.ramBase then
        .error (.argumentsBelowRam target.argumentBase p.load target.ramBase)
      else .ok (t.mapModules fun _ => Module.placeArguments p.symbol (p.load - target.ramBase))
  else .ok t

end FirmwareModel
