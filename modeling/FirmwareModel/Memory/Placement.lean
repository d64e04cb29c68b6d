import FirmwareModel.Memory.Map
import FirmwareModel.Object.Snapshot
import FirmwareModel.Tree.Entity

/-!
# Placements

The load addresses of the linker map, by both spellings of a symbol. The first placement of a
spelling counts. Code is addressed in instruction units, and data relative to the start of data
memory.
-/

namespace FirmwareModel

/-- Where the linker placed a symbol. -/
structure Placement where
  symbol : SymbolName
  load : UInt64
  deriving DecidableEq, Repr

/-- The placements of a linker map, in its order. -/
structure AddressTable where
  placements : List Placement := []
  deriving DecidableEq, Repr

namespace AddressTable

/-- Record a further placement. -/
def insert (t : AddressTable) (p : Placement) : AddressTable :=
  ⟨t.placements ++ [p]⟩

/-- The first placement of an unmangled spelling. -/
def placement? (t : AddressTable) (unmangled : String) : Option Placement :=
  t.placements.find? fun p => p.symbol.unmangled = unmangled

/-- The first placement of a mangled spelling. -/
def mangledPlacement? (t : AddressTable) (mangled : String) : Option Placement :=
  t.placements.find? fun p => p.symbol.mangled = mangled

/-- The load address of a symbol: by its unmangled spelling, else by its mangled one. -/
def load? (t : AddressTable) (symbol : SymbolName) : Option UInt64 :=
  ((t.placement? symbol.unmangled).or (t.mangledPlacement? symbol.mangled)).map Placement.load

/-- The table of a linker map, with the spellings that the snapshot gives. -/
def ofMap (snapshot : Snapshot) (map : List MapEntry) : Except ArtifactFault AddressTable := do
  let placements ← map.mapM fun entry => do
    let unmangled ← snapshot.demangle entry.symbol
    return { symbol := ⟨entry.symbol, unmangled⟩, load := entry.loadAddress : Placement }
  return ⟨placements⟩

end AddressTable

/-- How many references were settled in which way. -/
structure AddressCounts where
  callablesResolved : Nat := 0
  callablesUnexported : Nat := 0
  noopDiscarded : Nat := 0
  dataResolved : Nat := 0
  dataUnexported : Nat := 0
  deriving DecidableEq, Repr

namespace AddressCounts

/-- The counts of two sets of references taken together. -/
def add (c d : AddressCounts) : AddressCounts where
  callablesResolved := c.callablesResolved + d.callablesResolved
  callablesUnexported := c.callablesUnexported + d.callablesUnexported
  noopDiscarded := c.noopDiscarded + d.noopDiscarded
  dataResolved := c.dataResolved + d.dataResolved
  dataUnexported := c.dataUnexported + d.dataUnexported

instance : Add AddressCounts := ⟨add⟩

/-- The counts of several sets of references taken together. -/
def sum (counts : List AddressCounts) : AddressCounts :=
  counts.foldr (· + ·) {}

end AddressCounts

/-- What becomes of a callable once the linker map is known. -/
inductive CallableFate where
  /-- It stands for "no update" and is dropped. -/
  | discarded
  | placed (address : ResolvedAddress)
  deriving DecidableEq, Repr

namespace Callable

/-- What becomes of a callable: its load address in instruction units, if it has one. -/
def fate (table : AddressTable) (target : TargetSettings) (c : Callable) : CallableFate :=
  if c.symbol.unmangled = target.noopCallable then .discarded
  else
    match table.load? c.symbol with
    | some load => .placed (.located (load / target.instructionUnit))
    | none => .placed .unexported

/-- Whether a slot holds the callable that stands for "no update". -/
def isNoop (target : TargetSettings) (slot : Option Callable) : Bool :=
  slot.any fun c => c.symbol.unmangled = target.noopCallable

/-- A slot for a callable once the linker map is known. -/
def resolve (table : AddressTable) (target : TargetSettings) (slot : Option Callable) :
    Option Callable :=
  slot.bind fun c =>
    match c.fate table target with
    | .discarded => none
    | .placed address => some { c with address := some address }

/-- How a slot for a callable is counted. -/
def counts (table : AddressTable) (target : TargetSettings) : Option Callable → AddressCounts
  | none => {}
  | some c =>
    match c.fate table target with
    | .discarded => { noopDiscarded := 1 }
    | .placed (.located _) => { callablesResolved := 1 }
    | .placed .unexported => { callablesUnexported := 1 }

end Callable

namespace Storage

/-- The base address and the address of a location, if its symbol lies in data memory and its end
within the address space. -/
def addresses? (table : AddressTable) (target : TargetSettings) (s : Storage) :
    Option (UInt64 × UInt64) := do
  let symbol ← s.symbol
  let load ← table.load? symbol
  if load < target.ramBase then none
  else
    let base := load - target.ramBase
    if base.toNat + s.offset.toNat < UInt64.size then some (base, base + s.offset) else none

/-- A location once the linker map is known. -/
def resolve (table : AddressTable) (target : TargetSettings) (s : Storage) : Storage :=
  match s.addresses? table target with
  | some (base, address) =>
    { s with address := some (.located address), baseAddress := some (.located base) }
  | none => s.markUnexported

/-- How a location is counted. -/
def counts (table : AddressTable) (target : TargetSettings) (s : Storage) : AddressCounts :=
  match s.addresses? table target with
  | some _ => { dataResolved := 1 }
  | none => { dataUnexported := 1 }

end Storage

end FirmwareModel
