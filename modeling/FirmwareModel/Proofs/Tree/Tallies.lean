import Mathlib.Algebra.BigOperators.Group.List.Basic
import Mathlib.Algebra.GroupWithZero.Nat
import FirmwareModel.Proofs.Tree.Settling

/-!
# What counts of references count

The counts that settling keeps are sums over modules. Each of its numbers is a tally of the slots
for callables and of the storage locations with some property, and the number of inputs that take
over a callable is a tally of the callables that are marked as taken over.
-/

namespace FirmwareModel

variable {table : AddressTable} {target : TargetSettings}

/-- The linker placed the symbol. -/
def ResolvedAddress.isLocated (a : ResolvedAddress) : Bool :=
  a.word?.isSome

/-- The slots for callables in a module: its own, those of its inputs and those of its
procedures. -/
def Module.slots (m : Module) : List (Option Callable) :=
  m.callable :: (m.inputs.values.map Input.callable ++ m.procedures.values.map Procedure.callable)

/-- A slot is counted by what becomes of its callable. -/
theorem Callable.counts_eq (s : Option Callable) : Callable.counts table target s = {
    callablesResolved := ((Callable.resolve table target s).any fun c =>
      c.address.any ResolvedAddress.isLocated).toNat
    callablesUnexported := ((Callable.resolve table target s).any fun c =>
      c.address.any ResolvedAddress.isUnexported).toNat
    noopDiscarded := (Callable.isNoop target s).toNat } := by
  cases s with
  | none => rfl
  | some c =>
    rw [counts, resolve, isNoop, Option.bind_some, Option.any_some, fate]
    by_cases hnoop : c.symbol.unmangled = target.noopCallable
    · simp [hnoop]
    · cases hload : table.load? c.symbol with
      | none => simp [hnoop, ResolvedAddress.isLocated, ResolvedAddress.isUnexported,
          ResolvedAddress.word?]
      | some load => simp [hnoop, ResolvedAddress.isLocated, ResolvedAddress.isUnexported,
          ResolvedAddress.word?]

/-- A location is counted by its address. -/
theorem Storage.counts_eq (s : Storage) : s.counts table target = {
    dataResolved := ((s.resolve table target).address.any ResolvedAddress.isLocated).toNat
    dataUnexported :=
      ((s.resolve table target).address.any ResolvedAddress.isUnexported).toNat } := by
  rw [counts, resolve]
  cases s.addresses? table target <;> rfl

/-- The address of a settled location is either a number or the mark of a dropped symbol. -/
theorem Storage.any_isUnexported_resolve (s : Storage) :
    (s.resolve table target).address.any ResolvedAddress.isUnexported =
      !(s.resolve table target).address.any ResolvedAddress.isLocated := by
  rw [resolve]
  cases s.addresses? table target <;> rfl

/-- A truth value counts as one or as nothing. -/
theorem toNat_eq_ite (b : Bool) : b.toNat = if b then 1 else 0 := by
  cases b <;> rfl

/-- Adding up truth values counts those that are true. -/
theorem sum_map_toNat {α : Type} (p : α → Bool) (items : List α) :
    (items.map fun a => (p a).toNat).sum = items.countP p := by
  induction items with
  | nil => rfl
  | cons a items ih =>
    rw [List.map_cons, List.sum_cons, ih, List.countP_cons, Nat.add_comm, toNat_eq_ite]

namespace AddressCounts

/-- A number among the counts of references tallies the slots and the locations with some
property. -/
structure Tallies (table : AddressTable) (target : TargetSettings) (number : AddressCounts → Nat)
    (slot : Option Callable → Bool) (location : Storage → Bool) : Prop where
  zero : number {} = 0
  add : ∀ c d, number (c + d) = number c + number d
  slots : ∀ s, number (Callable.counts table target s) = (slot s).toNat
  locations : ∀ s : Storage, number (s.counts table target) = (location s).toNat

variable {number : AddressCounts → Nat} {slot : Option Callable → Bool} {location : Storage → Bool}

namespace Tallies

variable (h : Tallies table target number slot location)

include h

/-- A number of a sum of counts is the sum of that number. -/
theorem sum (counts : List AddressCounts) :
    number (AddressCounts.sum counts) = (counts.map number).sum := by
  induction counts with
  | nil => exact h.zero
  | cons c counts ih =>
    rw [AddressCounts.sum, List.foldr_cons, ← AddressCounts.sum, h.add, ih, List.map_cons,
      List.sum_cons]

/-- The slots and locations of a module are tallied. -/
theorem addressCounts (m : Module) : number (m.addressCounts table target) =
    m.slots.countP slot + m.inputs.values.countP fun i => location i.data := by
  simp only [Module.addressCounts, Module.slots, h.add, h.sum, List.map_map, Function.comp_def,
    h.slots, h.locations, List.sum_map_add, sum_map_toNat, List.countP_cons, List.countP_append,
    List.countP_map]
  rw [toNat_eq_ite]
  omega

/-- The slots and locations of all modules are tallied. -/
theorem resolve (t : ModuleTree) : number (t.resolve table target).2 =
    (t.nodes.toList.map fun m =>
      m.slots.countP slot + m.inputs.values.countP fun i => location i.data).sum := by
  rw [ModuleTree.resolve, h.sum, List.map_map]
  exact congrArg List.sum (List.map_congr_left fun m _ => h.addressCounts m)

end Tallies

/-- The resolved callables are those with an address. -/
theorem tallies_callablesResolved : Tallies table target callablesResolved
    (fun s => (Callable.resolve table target s).any fun c =>
      c.address.any ResolvedAddress.isLocated)
    fun _ => false :=
  ⟨rfl, fun _ _ => rfl, fun s => congrArg callablesResolved (Callable.counts_eq s),
    fun s => congrArg callablesResolved s.counts_eq⟩

/-- The unexported callables are those that the linker dropped. -/
theorem tallies_callablesUnexported : Tallies table target callablesUnexported
    (fun s => (Callable.resolve table target s).any fun c =>
      c.address.any ResolvedAddress.isUnexported)
    fun _ => false :=
  ⟨rfl, fun _ _ => rfl, fun s => congrArg callablesUnexported (Callable.counts_eq s),
    fun s => congrArg callablesUnexported s.counts_eq⟩

/-- The discarded callables are those that stand for "no update". -/
theorem tallies_noopDiscarded : Tallies table target noopDiscarded (Callable.isNoop target)
    fun _ => false :=
  ⟨rfl, fun _ _ => rfl, fun s => congrArg noopDiscarded (Callable.counts_eq s),
    fun s => congrArg noopDiscarded s.counts_eq⟩

/-- The resolved locations are those with an address. -/
theorem tallies_dataResolved : Tallies table target dataResolved (fun _ => false)
    fun s => (s.resolve table target).address.any ResolvedAddress.isLocated :=
  ⟨rfl, fun _ _ => rfl, fun s => congrArg dataResolved (Callable.counts_eq s),
    fun s => congrArg dataResolved s.counts_eq⟩

/-- The unexported locations are those that the linker dropped. -/
theorem tallies_dataUnexported : Tallies table target dataUnexported (fun _ => false)
    fun s => (s.resolve table target).address.any ResolvedAddress.isUnexported :=
  ⟨rfl, fun _ _ => rfl, fun s => congrArg dataUnexported (Callable.counts_eq s),
    fun s => congrArg dataUnexported s.counts_eq⟩

end AddressCounts

/-! ## Callables that are taken over -/

/-- A callable that has not been taken over is not marked as taken over once it is settled. -/
theorem Callable.any_inherited_resolve {s : Option Callable}
    (hs : s.any Callable.inherited = false) :
    (Callable.resolve table target s).any Callable.inherited = false := by
  cases s with
  | none => rfl
  | some c =>
    rw [resolve, Option.bind_some]
    cases c.fate table target with
    | discarded => rfl
    | placed address => exact hs

/-- The number of inputs of a module whose callable is marked as taken over. -/
def Module.heirCount (m : Module) : Nat :=
  m.inputs.values.countP fun i => i.callable.any Callable.inherited

/-- Among inputs of which none has taken over a callable, those that need one are the ones that take
it over, if there is one. -/
theorem Module.heirCount_inherit {m : Module}
    (hown : ∀ i ∈ m.inputs.values, i.callable.any Callable.inherited = false)
    (source : Option Callable) :
    (m.inherit source).heirCount = if source.isSome then m.orphanCount else 0 := by
  rw [heirCount, inherit, Table.values_map, List.countP_map]
  cases source with
  | none =>
    refine List.countP_eq_zero.mpr fun i hi => ?_
    have hi' := hown i hi
    rw [Function.comp_apply, Input.inherit]
    split <;> simp [hi']
  | some c =>
    refine List.countP_congr fun i hi => ?_
    have hi' := hown i hi
    rw [Function.comp_apply, Input.inherit]
    split
    case isTrue horphan => simp [horphan, Callable.inheritedCopy]
    case isFalse horphan => simp [horphan, hi']

/-- The inputs that take over a callable are those with one that is marked so. -/
theorem ModuleTree.inherit_snd_eq {t : ModuleTree} (hown : ∀ id m, t.module? id = some m →
    ∀ i ∈ m.inputs.values, i.callable.any Callable.inherited = false) :
    t.inherit.2 = t.inherit.1.count Module.heirCount := by
  have hmodules : t.inherit.1.nodes.toList =
      t.nodes.toList.mapIdx fun id => Module.inherit (t.inheritable? id) :=
    Array.toList_mapIdx
  rw [count, hmodules, inherit]
  refine congrArg (List.foldr (· + ·) 0) (List.mapIdx_eq_iff.mpr fun id => ?_)
  rw [List.getElem?_map, List.getElem?_mapIdx, Option.map_map]
  refine Option.map_congr fun m hm => ?_
  rw [Array.getElem?_toList] at hm
  exact Module.heirCount_inherit (hown id m hm) _

end FirmwareModel
