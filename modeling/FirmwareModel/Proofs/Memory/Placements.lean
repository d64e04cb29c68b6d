import FirmwareModel.Memory.Placement
import FirmwareModel.Proofs.Object.Spelling
import FirmwareModel.Proofs.Outcome

/-!
# Settling references by the linker map

A table of placements is made with the spellings of the snapshot, so looking up a symbol in that
spelling comes down to the first entry of the linker map whose symbol is spelled alike. This tells
what becomes of every callable and of every storage location.
-/

namespace FirmwareModel

/-- A sum of words that is a word is exact. -/
theorem toNat_add_of_lt {base offset : UInt64} (h : base.toNat + offset.toNat < UInt64.size) :
    (base + offset).toNat = base.toNat + offset.toNat := by
  rw [UInt64.toNat_add]
  exact Nat.mod_eq_of_lt h

/-- The first entry of a linker map whose symbol has the given unmangled spelling. -/
def firstSpelled? (snapshot : Snapshot) (map : List MapEntry) (text : String) : Option MapEntry :=
  map.find? fun entry => snapshot.unmangled entry.symbol = text

variable {snapshot : Snapshot} {map : List MapEntry} {table : AddressTable}
  {target : TargetSettings}

namespace AddressTable

/-- The placement of an entry of a linker map. -/
def placementOf (snapshot : Snapshot) (entry : MapEntry) : Placement :=
  ⟨snapshot.spell entry.symbol, entry.loadAddress⟩

/-- The table of a linker map holds the placements of its entries, in their order. -/
theorem placements_of_ofMap (h : ofMap snapshot map = .ok table) :
    table.placements = map.map (placementOf snapshot) := by
  obtain ⟨placements, hplacements, htable⟩ := bind_eq_ok_iff.mp h
  obtain rfl := pure_eq_ok_iff.mp htable
  have hall := forall₂_of_mapM_eq_ok hplacements
  clear h hplacements htable
  induction hall with
  | nil => rfl
  | @cons entry placement entries placements hentry _ ih =>
    obtain ⟨unmangled, hunmangled, hplacement⟩ := bind_eq_ok_iff.mp hentry
    obtain ⟨rfl, -⟩ := Snapshot.demangle_eq_ok_iff.mp hunmangled
    obtain rfl := pure_eq_ok_iff.mp hplacement
    exact congrArg (placementOf snapshot entry :: ·) ih

/-- The placement of an unmangled spelling is that of the first entry spelled so. -/
theorem placement?_eq (h : ofMap snapshot map = .ok table) (text : String) :
    table.placement? text = (firstSpelled? snapshot map text).map (placementOf snapshot) := by
  rw [placement?, placements_of_ofMap h, List.find?_map]
  rfl

/-- A symbol in the spelling of the snapshot has the load address of the first entry spelled like
it. The mangled spelling never decides: an entry with it would be spelled like the symbol. -/
theorem load?_spell (h : ofMap snapshot map = .ok table) (symbol : String) :
    table.load? (snapshot.spell symbol) =
      (firstSpelled? snapshot map (snapshot.unmangled symbol)).map MapEntry.loadAddress := by
  rw [load?, placement?_eq h]
  cases hfirst : firstSpelled? snapshot map (snapshot.spell symbol).unmangled with
  | some entry =>
    rw [show (snapshot.spell symbol).unmangled = snapshot.unmangled symbol from rfl] at hfirst
    simp [hfirst, placementOf]
  | none =>
    have hmangled : table.mangledPlacement? (snapshot.spell symbol).mangled = none := by
      rw [mangledPlacement?, placements_of_ofMap h, List.find?_eq_none]
      intro placement hplacement
      obtain ⟨entry, hentry, rfl⟩ := List.mem_map.mp hplacement
      have hspelling := List.find?_eq_none.mp hfirst entry hentry
      simp only [decide_eq_true_eq] at hspelling ⊢
      intro heq
      exact hspelling (congrArg snapshot.unmangled heq)
    rw [show (snapshot.spell symbol).unmangled = snapshot.unmangled symbol from rfl] at hfirst
    simp [hfirst, hmangled]

end AddressTable

/-! ## Callables -/

/-- The address of code with the given unmangled spelling: the load address of the first entry
spelled so, in instruction units. -/
def codeAddress (snapshot : Snapshot) (map : List MapEntry) (target : TargetSettings)
    (text : String) : ResolvedAddress :=
  match firstSpelled? snapshot map text with
  | some entry => .located (entry.loadAddress / target.instructionUnit)
  | none => .unexported

/-- What becomes of a reference to a code symbol: nothing if the symbol stands for "no update",
else a callable with its address. -/
def settledCallable (snapshot : Snapshot) (map : List MapEntry) (target : TargetSettings)
    (symbol : String) : Option Callable :=
  if snapshot.unmangled symbol = target.noopCallable then none
  else some { snapshot.callable symbol with
    address := some (codeAddress snapshot map target (snapshot.unmangled symbol)) }

/-- A reference becomes the callable of its symbol, at the address of the first entry spelled like
it, unless it stands for "no update". -/
theorem settledCallable_eq_some_iff {symbol : String} {c : Callable} :
    settledCallable snapshot map target symbol = some c ↔
      snapshot.unmangled symbol ≠ target.noopCallable ∧
        c = { snapshot.callable symbol with
          address := some (codeAddress snapshot map target (snapshot.unmangled symbol)) } := by
  simp [settledCallable, eq_comm (a := c)]

/-- Callables in the spelling of the snapshot are settled by the linker map. -/
theorem Callable.resolve_callable (h : AddressTable.ofMap snapshot map = .ok table)
    (symbol : String) :
    Callable.resolve table target (some (snapshot.callable symbol)) =
      settledCallable snapshot map target symbol := by
  have hload : table.load? (snapshot.callable symbol).symbol =
      (firstSpelled? snapshot map (snapshot.unmangled symbol)).map MapEntry.loadAddress :=
    AddressTable.load?_spell h symbol
  simp only [resolve, Option.bind_some, fate, hload, settledCallable, codeAddress]
  by_cases hnoop : snapshot.unmangled symbol = target.noopCallable
  · have hsymbol : (snapshot.callable symbol).symbol.unmangled = target.noopCallable := hnoop
    rw [if_pos hnoop, if_pos hsymbol]
  · have hsymbol : (snapshot.callable symbol).symbol.unmangled ≠ target.noopCallable := hnoop
    rw [if_neg hnoop, if_neg hsymbol]
    cases firstSpelled? snapshot map (snapshot.unmangled symbol) <;> rfl

/-- A reference is discarded exactly when it stands for "no update". -/
theorem Callable.resolve_some_eq_none_iff {c : Callable} :
    Callable.resolve table target (some c) = none ↔ Callable.isNoop target (some c) := by
  by_cases hnoop : c.symbol.unmangled = target.noopCallable
  · simp [resolve, isNoop, fate, hnoop]
  · cases hload : table.load? c.symbol <;> simp [resolve, isNoop, fate, hnoop, hload]

/-! ## Storage locations -/

/-- The entry places a location at an offset from a symbol: it is the first one spelled like the
symbol, it lies in data memory, and the location is within the address space. -/
structure MapEntry.Places (snapshot : Snapshot) (map : List MapEntry) (target : TargetSettings)
    (symbol : Option String) (offset : UInt64) (entry : MapEntry) : Prop where
  first : symbol.bind (firstSpelled? snapshot map) = some entry
  ramBase_le : target.ramBase.toNat ≤ entry.loadAddress.toNat
  lt : entry.loadAddress.toNat - target.ramBase.toNat + offset.toNat < UInt64.size

namespace Storage

variable {s : Storage}

/-- A location has addresses exactly when an entry places it, and they are relative to the start
of data memory. -/
theorem addresses?_eq_some_iff (h : AddressTable.ofMap snapshot map = .ok table)
    (hs : s.Spelled snapshot) {base address : UInt64} :
    s.addresses? table target = some (base, address) ↔
      ∃ entry, MapEntry.Places snapshot map target (s.symbol.map SymbolName.unmangled) s.offset
          entry ∧
        base.toNat = entry.loadAddress.toNat - target.ramBase.toNat ∧
        address.toNat = base.toNat + s.offset.toNat := by
  have hload : ∀ symbol ∈ s.symbol, table.load? symbol =
      (firstSpelled? snapshot map symbol.unmangled).map MapEntry.loadAddress := by
    intro symbol hsymbol
    rw [hs symbol hsymbol]
    exact AddressTable.load?_spell h symbol.mangled
  unfold addresses?
  simp only [bind, Option.bind_eq_some_iff, Option.ite_none_left_eq_some,
    Option.ite_none_right_eq_some, Option.some.injEq, Prod.mk.injEq]
  constructor
  · rintro ⟨symbol, hsymbol, load, hfound, hram, hfits, rfl, rfl⟩
    rw [hload symbol hsymbol, Option.map_eq_some_iff] at hfound
    obtain ⟨entry, hentry, rfl⟩ := hfound
    have hle : target.ramBase ≤ entry.loadAddress := UInt64.not_lt.mp hram
    have hsub := UInt64.toNat_sub_of_le _ _ hle
    refine ⟨entry, ⟨?_, UInt64.le_iff_toNat_le.mp hle, hsub ▸ hfits⟩, hsub, ?_⟩
    · simp [hsymbol, hentry]
    · exact toNat_add_of_lt hfits
  · rintro ⟨entry, ⟨hfirst, hram, hfits⟩, hbase, haddress⟩
    obtain ⟨text, htext, hentry⟩ := Option.bind_eq_some_iff.mp hfirst
    obtain ⟨symbol, hsymbol, rfl⟩ := Option.map_eq_some_iff.mp htext
    have hle : target.ramBase ≤ entry.loadAddress := UInt64.le_iff_toNat_le.mpr hram
    have hsub := UInt64.toNat_sub_of_le _ _ hle
    have hfits' : (entry.loadAddress - target.ramBase).toNat + s.offset.toNat < UInt64.size := by
      rwa [hsub]
    refine ⟨symbol, hsymbol, entry.loadAddress, ?_, UInt64.not_lt.mpr hle, hfits', ?_, ?_⟩
    · simp [hload symbol hsymbol, hentry]
    · exact UInt64.toNat_inj.mp (hsub.trans hbase.symm)
    · apply UInt64.toNat_inj.mp
      rw [toNat_add_of_lt hfits', haddress, hbase, hsub]

/-- Settling a storage location keeps its symbol. -/
@[simp] theorem symbol_resolve : (s.resolve table target).symbol = s.symbol := by
  unfold resolve
  split <;> rfl

/-- Settling a storage location keeps its offset. -/
@[simp] theorem offset_resolve : (s.resolve table target).offset = s.offset := by
  unfold resolve
  split <;> rfl

/-- A location that an entry places is settled relative to the start of data memory. -/
theorem resolve_of_places (h : AddressTable.ofMap snapshot map = .ok table)
    (hs : s.Spelled snapshot) {entry : MapEntry}
    (hplaces : MapEntry.Places snapshot map target (s.symbol.map SymbolName.unmangled) s.offset
      entry) :
    ∃ base address, (s.resolve table target).baseAddress = some (.located base) ∧
      (s.resolve table target).address = some (.located address) ∧
      base.toNat = entry.loadAddress.toNat - target.ramBase.toNat ∧
      address.toNat = base.toNat + s.offset.toNat := by
  have hle : target.ramBase ≤ entry.loadAddress := UInt64.le_iff_toNat_le.mpr hplaces.ramBase_le
  have hbase := UInt64.toNat_sub_of_le _ _ hle
  have haddress : (entry.loadAddress - target.ramBase + s.offset).toNat =
      (entry.loadAddress - target.ramBase).toNat + s.offset.toNat :=
    toNat_add_of_lt (hbase ▸ hplaces.lt)
  have haddresses := (addresses?_eq_some_iff h hs).mpr ⟨entry, hplaces, hbase, haddress⟩
  refine ⟨_, _, ?_, ?_, hbase, haddress⟩
  · rw [resolve, haddresses]
  · rw [resolve, haddresses]

/-- A location that no entry places is marked as dropped. -/
theorem resolve_of_not_places (h : AddressTable.ofMap snapshot map = .ok table)
    (hs : s.Spelled snapshot)
    (hnot : ∀ entry, ¬ MapEntry.Places snapshot map target (s.symbol.map SymbolName.unmangled)
      s.offset entry) :
    (s.resolve table target).baseAddress = some .unexported ∧
      (s.resolve table target).address = some .unexported := by
  have hnone : s.addresses? table target = none := by
    rw [Option.eq_none_iff_forall_ne_some]
    rintro ⟨base, address⟩ hsome
    obtain ⟨entry, hplaces, -⟩ := (addresses?_eq_some_iff h hs).mp hsome
    exact hnot entry hplaces
  rw [resolve, hnone]
  exact ⟨rfl, rfl⟩

end Storage

end FirmwareModel
