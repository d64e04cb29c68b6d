import FirmwareModel.Proofs.Extraction.Addresses

/-!
# Symbols with one unmangled spelling

Several symbols can share an unmangled spelling, such as the variants of a constructor. The linker
map is searched by this spelling, so the address of a symbol is taken from the first entry of it and
all its namesakes. That is an entry of the symbol itself unless an entry of a namesake stands in
front of all of its own.
-/

namespace FirmwareModel

/-- An entry of another symbol with the same unmangled spelling stands in front of all entries of
the symbol itself. -/
def NamesakeFirst (snapshot : Snapshot) (map : List MapEntry) (symbol : String) : Prop :=
  ∃ before namesake after, map = before ++ namesake :: after ∧ namesake.symbol ≠ symbol ∧
    snapshot.unmangled namesake.symbol = snapshot.unmangled symbol ∧
    ∀ entry ∈ before, entry.symbol ≠ symbol

/-- The entry is the one that the address of a symbol is taken from: the first with the same
unmangled spelling. It is an entry of the symbol itself unless a namesake comes first. -/
structure MapEntry.StandsFor (snapshot : Snapshot) (map : List MapEntry) (symbol : String)
    (entry : MapEntry) : Prop where
  first : ∃ before after, map = before ++ entry :: after ∧
    snapshot.unmangled entry.symbol = snapshot.unmangled symbol ∧
    ∀ other ∈ before, snapshot.unmangled other.symbol ≠ snapshot.unmangled symbol
  own_iff : entry.symbol = symbol ↔ ¬ NamesakeFirst snapshot map symbol

section

variable {snapshot : Snapshot} {map : List MapEntry}

/-- The first entry of a spelling is one of the symbol itself unless a namesake comes first. -/
theorem MapEntry.standsFor_of_firstSpelled? {symbol : String} {entry : MapEntry}
    (h : firstSpelled? snapshot map (snapshot.unmangled symbol) = some entry) :
    entry.StandsFor snapshot map symbol := by
  obtain ⟨hspelling, before, after, rfl, hbefore⟩ := List.find?_eq_some_iff_append.mp h
  have hspelled : snapshot.unmangled entry.symbol = snapshot.unmangled symbol :=
    of_decide_eq_true hspelling
  have hother : ∀ other ∈ before,
      snapshot.unmangled other.symbol ≠ snapshot.unmangled symbol := by
    intro other hmem
    simpa using hbefore other hmem
  refine ⟨⟨before, after, rfl, hspelled, hother⟩, ?_⟩
  constructor
  · rintro hown ⟨before', namesake, after', hmap, hne, hnamesake, hbefore'⟩
    -- One of the two entries stands in front of the other, where neither may stand.
    rcases List.append_eq_append_iff.mp hmap with
      ⟨between, hfront, hback⟩ | ⟨between, hfront, hback⟩
    · cases between with
      | nil => exact hne ((List.cons.inj hback).1 ▸ hown)
      | cons other between =>
        obtain ⟨rfl, -⟩ := List.cons.inj hback
        exact hbefore' entry (hfront ▸ by simp) hown
    · cases between with
      | nil => exact hne ((List.cons.inj hback).1 ▸ hown)
      | cons other between =>
        obtain ⟨rfl, -⟩ := List.cons.inj hback
        exact hother namesake (hfront ▸ by simp) hnamesake
  · intro hnone
    by_contra hne
    exact hnone ⟨before, entry, after, rfl, hne, hspelled,
      fun other hmem heq => hother other hmem (congrArg snapshot.unmangled heq)⟩

/-- When the map has an entry of a symbol, it has a first one with the same spelling. -/
theorem exists_firstSpelled?_of_mem {own : MapEntry} (hown : own ∈ map) :
    ∃ entry, firstSpelled? snapshot map (snapshot.unmangled own.symbol) = some entry := by
  rw [← Option.isSome_iff_exists, firstSpelled?, List.find?_isSome]
  exact ⟨own, hown, decide_eq_true rfl⟩

end

namespace Extraction

open Document

section

variable {settings : Settings} {snapshot : Snapshot} {map : List MapEntry} {x : Extraction}

/-- How the addresses of the record of a module belong to the symbols beside them. -/
structure NamesakeLaw (snapshot : Snapshot) (map : List MapEntry) (target : TargetSettings)
    (r : ModuleRecord) : Prop where
  /-- The address of a callable is the load address of the entry, in instruction units. -/
  callables : ∀ c ∈ r.callables, (∃ own ∈ map, own.symbol = c.mangled) →
    ∃ entry : MapEntry, entry.StandsFor snapshot map c.mangled ∧
      c.address = some (.located (entry.loadAddress / target.instructionUnit))
  /-- The address of an input, if it has one, is the load address of the entry, relative to the
  start of data memory and moved by the offset. -/
  inputs : ∀ i ∈ r.inputs, ∀ symbol ∈ i.data.mangled, (∃ own ∈ map, own.symbol = symbol) →
    ∀ address, i.data.address = some (.located address) →
      ∃ entry : MapEntry, entry.StandsFor snapshot map symbol ∧
        target.ramBase.toNat ≤ entry.loadAddress.toNat ∧
        address.toNat = entry.loadAddress.toNat - target.ramBase.toNat + i.data.offset.toNat

/-- A location with an address is placed by an entry. -/
theorem StorageLaw.exists_places {target : TargetSettings} {d : StorageRecord}
    (h : StorageLaw snapshot map target d) {address : UInt64}
    (haddress : d.address = some (.located address)) :
    ∃ entry, MapEntry.Places snapshot map target d.unmangled d.offset entry ∧
      address.toNat = entry.loadAddress.toNat - target.ramBase.toNat + d.offset.toNat := by
  by_cases hplaced : ∃ entry, MapEntry.Places snapshot map target d.unmangled d.offset entry
  · obtain ⟨entry, hplaces⟩ := hplaced
    obtain ⟨base, address', -, haddress', hbase, hsum⟩ := h.placed entry hplaces
    obtain rfl : address' = address := by simpa [haddress] using haddress'.symm
    exact ⟨entry, hplaces, by rw [hsum, hbase]⟩
  · have hdropped := (h.dropped (not_exists.mp hplaced)).2
    rw [haddress] at hdropped
    cases hdropped

/-- Every address beside a symbol of the linker map is taken from an entry of that symbol, unless a
namesake of it comes first in the map: then it is that of the namesake. -/
theorem run_addresses_taken_from_namesakes (h : run settings snapshot map = .ok x) :
    ∀ path r, (path, r) ∈ x.document.listing →
      NamesakeLaw snapshot map settings.target r := by
  obtain ⟨stages⟩ := exists_stages h
  intro path r hr
  constructor
  case callables =>
    rintro c hc ⟨own, hown, hsymbol⟩
    obtain ⟨symbol, settled, hsettled, hcopy⟩ :=
      stages.exists_settledCallable_of_mem_callables hr hc
    obtain ⟨-, rfl⟩ := settledCallable_eq_some_iff.mp hsettled
    obtain ⟨rfl, haddress⟩ : c.mangled = symbol ∧
        c.address =
          some (codeAddress snapshot map settings.target (snapshot.unmangled symbol)) := by
      rcases hcopy with rfl | rfl <;> exact ⟨rfl, rfl⟩
    obtain ⟨entry, hentry⟩ :
        ∃ entry, firstSpelled? snapshot map (snapshot.unmangled c.mangled) = some entry :=
      hsymbol ▸ exists_firstSpelled?_of_mem hown
    refine ⟨entry, MapEntry.standsFor_of_firstSpelled? hentry, ?_⟩
    rw [haddress, codeAddress, hentry]
  case inputs =>
    rintro i hi symbol hsymbol ⟨own, hown, rfl⟩ address haddress
    obtain ⟨s, hs, hdata⟩ := stages.exists_storage_of_mem_inputs hr hi
    have hlaw : StorageLaw snapshot map settings.target i.data :=
      hdata ▸ storageLaw_resolve stages.tabled hs
    obtain ⟨entry, hplaces, hsum⟩ := hlaw.exists_places haddress
    have hunmangled : i.data.unmangled = some (snapshot.unmangled own.symbol) := by
      rw [hdata] at hsymbol ⊢
      obtain ⟨name, hname, hmangled⟩ := Option.map_eq_some_iff.mp hsymbol
      have hspelled := hs name (Storage.symbol_resolve ▸ hname)
      simp only [StorageRecord.ofStorage, hname, Option.map_some]
      rw [hspelled, ← hmangled]
      rfl
    have hfirst := hplaces.first
    rw [hunmangled, Option.bind_some] at hfirst
    exact ⟨entry, MapEntry.standsFor_of_firstSpelled? hfirst, hplaces.ramBase_le, hsum⟩

end

namespace Lamp

/-- The lamp with an update that is one of two variants of a constructor. -/
def constructed : Snapshot :=
  { (snapshot.addDemangled "_ZN4LampC1Ev" "Lamp::Lamp()").addDemangled "_ZN4LampC2Ev"
      "Lamp::Lamp()" with
    relocations := [⟨".rodata.b", ".text._ZN4LampC2Ev"⟩] }

/-- Where the linker put the variants. -/
def variants : List MapEntry :=
  [⟨.text, "_ZN4LampC1Ev", 0x100⟩, ⟨.text, "_ZN4LampC2Ev", 0x200⟩, ⟨.bss, "overlay", 0x800020⟩]

/-- The callable of the glow shows the second variant and has the address of the first. -/
theorem exists_run_constructed : ∃ x r, run settings constructed variants = .ok x ∧
    (["Lamp", "Glow"], r) ∈ x.document.listing ∧
    r.callable = some ⟨some (.located 0x80), "_ZN4LampC2Ev", "Lamp::Lamp()", false⟩ := by
  obtain ⟨x, hx, hcallables⟩ : ∃ x, run settings constructed variants = .ok x ∧
      (x.document.listing.map fun record => (record.1, record.2.callable)) =
        [(["Lamp"], none), (["Lamp", "Glow"],
          some ⟨some (.located 0x80), "_ZN4LampC2Ev", "Lamp::Lamp()", false⟩)] :=
    exists_ok_of (by decide +kernel)
  obtain ⟨⟨path, r⟩, hr, hrecord⟩ := List.mem_map.mp (hcallables ▸ List.mem_cons_of_mem _
    (List.mem_singleton.mpr rfl))
  obtain ⟨rfl, hcallable⟩ := Prod.mk.inj hrecord
  exact ⟨x, r, hx, hr, hcallable⟩

end Lamp

/-- The second variant has an entry in the map, and the first variant is its namesake in front. -/
theorem constructed_lamp_belongs_to_namesake :
    ∃ x r, run Lamp.settings Lamp.constructed Lamp.variants = .ok x ∧
      (["Lamp", "Glow"], r) ∈ x.document.listing ∧
      NamesakeLaw Lamp.constructed Lamp.variants Lamp.settings.target r ∧
      NamesakeFirst Lamp.constructed Lamp.variants "_ZN4LampC2Ev" := by
  obtain ⟨x, r, hx, hr, -⟩ := Lamp.exists_run_constructed
  refine ⟨x, r, hx, hr, run_addresses_taken_from_namesakes hx _ _ hr, ?_⟩
  exact ⟨[], ⟨.text, "_ZN4LampC1Ev", 0x100⟩, _, rfl, by decide, by decide, by simp⟩

/-- An address need not belong to the symbol beside it. The map has an entry of the variant that the
document shows, and the address is that of no such entry. -/
theorem run_shows_address_of_namesake :
    ∃ x r c address, run Lamp.settings Lamp.constructed Lamp.variants = .ok x ∧
      (["Lamp", "Glow"], r) ∈ x.document.listing ∧ c ∈ r.callables ∧
      c.address = some (.located address) ∧
      (∃ own ∈ Lamp.variants, own.symbol = c.mangled) ∧
      ∀ entry ∈ Lamp.variants, entry.symbol = c.mangled →
        address ≠ entry.loadAddress / Lamp.settings.target.instructionUnit := by
  obtain ⟨x, r, hx, hr, hcallable⟩ := Lamp.exists_run_constructed
  have hshown : ⟨some (.located 0x80), "_ZN4LampC2Ev", "Lamp::Lamp()", false⟩ ∈ r.callables := by
    simp [ModuleRecord.callables, hcallable]
  exact ⟨x, r, _, 0x80, hx, hr, hshown, rfl, by decide, by decide⟩

end Extraction

end FirmwareModel
