import FirmwareModel.Proofs.Extraction.Records

/-!
# The addresses of a document

All addresses of a document come from the linker map: those of callables in instruction units, those
of inputs relative to the start of data memory, and those of arguments in their overlay. Of several
entries for one spelling, the first counts.
-/

namespace FirmwareModel.Extraction

open Document

/-- The storage of an input is settled by the entry that places it, and marked as dropped exactly
when there is no such entry. -/
structure StorageLaw (snapshot : Snapshot) (map : List MapEntry) (target : TargetSettings)
    (d : StorageRecord) : Prop where
  placed : ∀ entry, MapEntry.Places snapshot map target d.unmangled d.offset entry →
    ∃ base address, d.baseAddress = some (.located base) ∧ d.address = some (.located address) ∧
      base.toNat = entry.loadAddress.toNat - target.ramBase.toNat ∧
      address.toNat = base.toNat + d.offset.toNat
  dropped : (∀ entry, ¬ MapEntry.Places snapshot map target d.unmangled d.offset entry) →
    d.baseAddress = some .unexported ∧ d.address = some .unexported

/-- The storage of an argument is relative to the overlay of all arguments, which the first entry
spelled so places in data memory. -/
structure ArgumentLaw (snapshot : Snapshot) (target : TargetSettings) (entry : MapEntry)
    (d : StorageRecord) : Prop where
  ramBase_le : target.ramBase.toNat ≤ entry.loadAddress.toNat
  unmangled : d.unmangled = some target.argumentBase
  mangled : d.mangled = some entry.symbol
  addresses : ∃ base address,
    d.baseAddress = some (.located base) ∧ d.address = some (.located address) ∧
      base.toNat = entry.loadAddress.toNat - target.ramBase.toNat ∧
      (base.toNat + d.offset.toNat < UInt64.size → address.toNat = base.toNat + d.offset.toNat)

/-- How the addresses of the record of a module follow from the linker map. -/
structure AddressLaw (snapshot : Snapshot) (map : List MapEntry) (target : TargetSettings)
    (r : ModuleRecord) : Prop where
  /-- A callable, taken over or not, has the address of the first entry spelled like it. -/
  callables : ∀ c ∈ r.callables, c.address = some (codeAddress snapshot map target c.unmangled)
  inputs : ∀ i ∈ r.inputs, StorageLaw snapshot map target i.data
  arguments : ∀ p ∈ r.procedures, ∀ a ∈ p.arguments,
    ∃ entry, firstSpelled? snapshot map target.argumentBase = some entry ∧
      ArgumentLaw snapshot target entry a.data

variable {settings : Settings} {snapshot : Snapshot} {map : List MapEntry} {x : Extraction}

/-- A location that has been settled from one in the spelling of the snapshot obeys the law. -/
theorem storageLaw_resolve {table : AddressTable} {target : TargetSettings}
    (h : AddressTable.ofMap snapshot map = .ok table) {s : Storage} (hs : s.Spelled snapshot) :
    StorageLaw snapshot map target (.ofStorage (s.resolve table target)) := by
  constructor
  case placed =>
    intro entry hplaces
    simp only [StorageRecord.ofStorage, Storage.symbol_resolve, Storage.offset_resolve] at hplaces ⊢
    exact Storage.resolve_of_places h hs hplaces
  case dropped =>
    intro hnot
    simp only [StorageRecord.ofStorage, Storage.symbol_resolve, Storage.offset_resolve] at hnot ⊢
    exact Storage.resolve_of_not_places h hs hnot

/-- An argument that has been put in the overlay obeys the law. -/
theorem argumentLaw_place {target : TargetSettings} {entry : MapEntry}
    (hfirst : firstSpelled? snapshot map target.argumentBase = some entry)
    (hram : target.ramBase ≤ entry.loadAddress) (a : Argument) :
    ArgumentLaw snapshot target entry (.ofStorage
      (a.place (snapshot.spell entry.symbol) (entry.loadAddress - target.ramBase)).data) := by
  constructor
  case ramBase_le => exact UInt64.le_iff_toNat_le.mp hram
  case unmangled =>
    have hspelling := List.find?_some hfirst
    exact congrArg some (of_decide_eq_true hspelling)
  case mangled => rfl
  case addresses =>
    exact ⟨_, _, rfl, rfl, UInt64.toNat_sub_of_le _ _ hram, toNat_add_of_lt⟩

/-- Every address of the document of an extraction is the one that the linker map gives. -/
theorem run_addresses_follow_map (h : run settings snapshot map = .ok x) :
    ∀ path r, (path, r) ∈ x.document.listing →
      AddressLaw snapshot map settings.target r := by
  obtain ⟨stages⟩ := exists_stages h
  intro path r hr
  constructor
  case callables =>
    intro c hc
    obtain ⟨symbol, settled, hsettled, hcopy⟩ :=
      stages.exists_settledCallable_of_mem_callables hr hc
    obtain ⟨-, rfl⟩ := settledCallable_eq_some_iff.mp hsettled
    rcases hcopy with rfl | rfl
    · rfl
    · rfl
  case inputs =>
    intro i hi
    obtain ⟨s, hs, hdata⟩ := stages.exists_storage_of_mem_inputs hr hi
    rw [hdata]
    exact storageLaw_resolve stages.tabled hs
  case arguments =>
    intro p hp a ha
    obtain ⟨placement, argument, hplacement, hram, rfl⟩ :=
      stages.exists_placement_of_mem_arguments hr hp ha
    rw [AddressTable.placement?_eq stages.tabled, Option.map_eq_some_iff] at hplacement
    obtain ⟨entry, hfirst, rfl⟩ := hplacement
    exact ⟨entry, hfirst, argumentLaw_place hfirst hram argument⟩

/-- The addresses of the lamp: its code, the store of an input and the overlay of its argument. The
other input is stored nowhere. -/
theorem lamp_addresses_follow_map :
    ∃ x, run Lamp.settings Lamp.snapshot Lamp.map = .ok x ∧
      ((x.document.listing.flatMap fun (_, r) => r.callables.map CallableRecord.address) =
          [some (.located 0x80), some (.located 0x80)] ∧
        (x.document.listing.flatMap fun (_, r) =>
          r.inputs.map fun i => (i.name, i.data.baseAddress, i.data.address)) =
          [("level", some (.located 0x10), some (.located 0x12)),
            ("mode", some .unexported, some .unexported)] ∧
        (x.document.listing.flatMap fun (_, r) => r.procedures.flatMap fun p =>
          p.arguments.map fun a => (a.name, a.data.baseAddress, a.data.address)) =
          [("delay", some (.located 0x20), some (.located 0x20))]) ∧
      ∀ path r, (path, r) ∈ x.document.listing →
        AddressLaw Lamp.snapshot Lamp.map Lamp.settings.target r := by
  exact Lamp.exists_run_and (by decide +kernel) fun _ hx => run_addresses_follow_map hx

end FirmwareModel.Extraction
