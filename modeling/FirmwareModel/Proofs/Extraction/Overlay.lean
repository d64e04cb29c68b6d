import FirmwareModel.Proofs.Extraction.Stages
import FirmwareModel.Proofs.Tree.ArgumentOffsets

/-!
# The overlay of arguments

Arguments are laid out in their overlay by an addition that is not checked. It cannot overflow when
data memory starts at 255 or behind: then the overlay is, relative to that start, at least 255 below
the end of the address space, and no argument is more than that behind the start of the overlay.
-/

namespace FirmwareModel

/-- Relative to the start of data memory, a load address has at least as much room behind it as
there is before data memory. -/
theorem toNat_sub_add_toNat_lt {load ramBase : UInt64} (h : ramBase ≤ load) :
    (load - ramBase).toNat + ramBase.toNat < UInt64.size := by
  rw [UInt64.toNat_sub_of_le _ _ h, Nat.sub_add_cancel (UInt64.le_iff_toNat_le.mp h)]
  exact load.toNat_lt_size

namespace Extraction

/-! ## Drafts -/

/-- What is known when arguments are about to be laid out: the survey of the symbols, the tree with
pointers and literals filled in, and the placements of the linker map. -/
structure Draft where
  survey : SymbolSurvey
  filled : LiteralProgress
  table : AddressTable

namespace Draft

/-- The stages of an extraction before arguments are laid out. -/
def ofBuild (settings : Settings) (snapshot : Snapshot) (map : List MapEntry) :
    Except Fault Draft :=
  match settings.validate with
  | .error fault => .error (.settings fault)
  | .ok () => do
    let survey ← SymbolSurvey.ofSnapshot settings.markers snapshot
    let linked ← ModuleTree.linkAll snapshot settings.sections survey.classified
      (.ofSurvey survey) snapshot.relocations
    let filled ← linked.1.fillLiterals snapshot settings survey.classified
    let table ← (AddressTable.ofMap snapshot map).mapError .artifact
    return { survey, filled, table }

/-- The tree whose arguments are laid out. -/
def tree (draft : Draft) (target : TargetSettings) : ModuleTree :=
  (draft.filled.tree.resolve draft.table target).1

/-- The layout of the arguments. -/
def layout (draft : Draft) (target : TargetSettings) : Except Fault ModuleTree :=
  (draft.tree target).placeArguments draft.table target

end Draft

variable {settings : Settings} {snapshot : Snapshot} {map : List MapEntry} {draft : Draft}

/-- A build comes to a draft when the settings are usable and no stage before the layout of
arguments fails. -/
theorem Draft.ofBuild_eq_ok_iff : ofBuild settings snapshot map = .ok draft ↔
    settings.validate = .ok () ∧
      SymbolSurvey.ofSnapshot settings.markers snapshot = .ok draft.survey ∧
      ∃ linked applied, ModuleTree.linkAll snapshot settings.sections draft.survey.classified
          (.ofSurvey draft.survey) snapshot.relocations = .ok (linked, applied) ∧
        linked.fillLiterals snapshot settings draft.survey.classified = .ok draft.filled ∧
        AddressTable.ofMap snapshot map = .ok draft.table := by
  unfold ofBuild
  cases hvalid : settings.validate with
  | error fault => simp
  | ok _ =>
    simp only [bind_eq_ok_iff, pure_eq_ok_iff, mapError_eq_ok_iff, true_and]
    constructor
    · rintro ⟨survey, hsurvey, ⟨linked, applied⟩, hlinked, filled, hfilled, table, htable, rfl⟩
      exact ⟨hsurvey, linked, applied, hlinked, hfilled, htable⟩
    · rintro ⟨hsurvey, linked, applied, hlinked, hfilled, htable⟩
      exact ⟨_, hsurvey, _, hlinked, _, hfilled, _, htable, rfl⟩

/-- An extraction that fails before there is a draft fails with the same fault. -/
theorem run_eq_error_of_ofBuild {fault : Fault}
    (h : Draft.ofBuild settings snapshot map = .error fault) :
    run settings snapshot map = .error fault := by
  unfold Draft.ofBuild at h
  unfold run
  cases hvalid : settings.validate with
  | error fault' => simpa [hvalid] using h
  | ok _ =>
    simp only [hvalid, runValid, bind_eq_error_iff] at h ⊢
    refine h.imp_right fun ⟨survey, hsurvey, h⟩ => ⟨survey, hsurvey, ?_⟩
    refine h.imp_right fun ⟨linked, hlinked, h⟩ => ⟨linked, hlinked, ?_⟩
    refine h.imp_right fun ⟨filled, hfilled, h⟩ => ⟨filled, hfilled, ?_⟩
    refine h.imp_right fun ⟨table, htable, h⟩ => ?_
    cases h

/-- An extraction that has come to a draft lays out its arguments next, and the document is that of
the tree with the arguments in place. -/
theorem exists_run_eq_layout_bind (h : Draft.ofBuild settings snapshot map = .ok draft) :
    ∃ finish : ModuleTree → Except Fault Extraction,
      run settings snapshot map = draft.layout settings.target >>= finish ∧
      ∀ placed x, finish placed = .ok x →
        ∃ checksum, x.document = .ofTree placed.inherit.1 checksum := by
  obtain ⟨hvalid, hsurvey, linked, applied, hlinked, hfilled, htable⟩ :=
    Draft.ofBuild_eq_ok_iff.mp h
  have hrun : run settings snapshot map = runValid settings snapshot map := by simp [run, hvalid]
  simp only [hrun, runValid, hsurvey, hlinked, hfilled, htable, ok_bind, Except.mapError]
  refine ⟨_, rfl, ?_⟩
  intro placed x hx
  obtain ⟨checksum, -, hx⟩ := bind_eq_ok_iff.mp hx
  obtain rfl := pure_eq_ok_iff.mp hx
  exact ⟨_, rfl⟩

/-! ## Laying out a draft -/

/-- What holds of the layout of a draft when no sum in it overflows. -/
structure Draft.LaysOutExactly (draft : Draft) (target : TargetSettings) : Prop where
  offset_le : ∀ a ∈ (draft.tree target).arguments, a.data.offset.toNat ≤ 255
  /-- Wherever the linker map puts the overlay, the sum for each argument is an address. -/
  sum_lt : ∀ placement, draft.table.placement? target.argumentBase = some placement →
    target.ramBase ≤ placement.load → ∀ a ∈ (draft.tree target).arguments,
      (placement.load - target.ramBase).toNat + a.data.offset.toNat < UInt64.size
  /-- The addresses of an argument in the overlay are those of the overlay and of the number of
  bytes behind it that the offset tells. -/
  addresses : ∀ placed, draft.layout target = .ok placed → ∀ a ∈ placed.arguments,
    ∃ placement base address, draft.table.placement? target.argumentBase = some placement ∧
      a.data.baseAddress = some (.located base) ∧ a.data.address = some (.located address) ∧
      base.toNat = placement.load.toNat - target.ramBase.toNat ∧
      address.toNat = base.toNat + a.data.offset.toNat

/-- No records and no literals bring an argument of a draft more than 255 bytes behind the start of
its overlay. -/
theorem Draft.byteOffsets_tree (h : ofBuild settings snapshot map = .ok draft) :
    (draft.tree settings.target).ByteOffsets := by
  obtain ⟨-, -, linked, applied, hlinked, hfilled, -⟩ := ofBuild_eq_ok_iff.mp h
  have hbuilt := ModuleTree.ByteOffsets.ofSurvey draft.survey
  exact ((hbuilt.linkAll hlinked).fillLiterals hfilled).resolve draft.table settings.target

/-- With at least 255 bytes before data memory, the layout of a draft is exact. -/
theorem Draft.laysOutExactly (h : ofBuild settings snapshot map = .ok draft)
    (hram : 255 ≤ settings.target.ramBase.toNat) : draft.LaysOutExactly settings.target := by
  have hoffset : ∀ a ∈ (draft.tree settings.target).arguments, a.data.offset.toNat ≤ 255 :=
    fun a ha => (byteOffsets_tree h).of_mem_arguments ha
  have hsum : ∀ placement : Placement, settings.target.ramBase ≤ placement.load →
      ∀ a ∈ (draft.tree settings.target).arguments,
        (placement.load - settings.target.ramBase).toNat + a.data.offset.toNat < UInt64.size := by
    intro placement hload a ha
    have hbase := toNat_sub_add_toNat_lt hload
    have hbyte := hoffset a ha
    omega
  refine ⟨hoffset, fun placement _ => hsum placement, fun placed hplaced a ha => ?_⟩
  obtain ⟨f, rfl, -, hoverlay⟩ := ModuleTree.placeArguments_eq_ok hplaced
  rw [ModuleTree.arguments_mapModules] at ha
  obtain ⟨old, hold, rfl⟩ := List.mem_map.mp ha
  obtain ⟨placement, hplacement, hload, rfl⟩ :=
    hoverlay (ModuleTree.hasProcedures_of_mem_arguments hold)
  exact ⟨placement, _, _, hplacement, rfl, rfl, UInt64.toNat_sub_of_le _ _ hload,
    toNat_add_of_lt (hsum placement hload old hold)⟩

/-- When data memory starts at 255 or behind, the layout of arguments cannot overflow. Either an
extraction fails before it lays out arguments, or it comes to a draft and goes on with the layout
of that. Then every argument is at most 255 bytes behind the start of the overlay, the sum of the
two is an address, and the address of the argument is that sum. -/
theorem run_lays_out_arguments_exactly (settings : Settings) (snapshot : Snapshot)
    (map : List MapEntry) (hram : 255 ≤ settings.target.ramBase.toNat) :
    (∃ fault, Draft.ofBuild settings snapshot map = .error fault ∧
      run settings snapshot map = .error fault) ∨
    ∃ draft, Draft.ofBuild settings snapshot map = .ok draft ∧
      draft.LaysOutExactly settings.target ∧
      ∃ finish : ModuleTree → Except Fault Extraction,
        run settings snapshot map = draft.layout settings.target >>= finish ∧
        ∀ placed x, finish placed = .ok x →
          ∃ checksum, x.document = .ofTree placed.inherit.1 checksum := by
  cases hdraft : Draft.ofBuild settings snapshot map with
  | error fault => exact Or.inl ⟨fault, rfl, run_eq_error_of_ofBuild hdraft⟩
  | ok draft =>
    exact Or.inr ⟨draft, rfl, Draft.laysOutExactly hdraft hram, exists_run_eq_layout_bind hdraft⟩

/-- A lamp with an argument at the greatest offset, whose overlay is at the end of the address
space: with 255 bytes before data memory, as few as can be, the last address is that of the
argument. By default there are more. -/
theorem lamp_lays_out_last_argument :
    let settings := { Lamp.settings with target.ramBase := 255 }
    let snapshot := (Lamp.snapshot.addSymbol "g"
      "n::Lamp::Glow::proc::reset::arg::delay::info::offset").addPayload .readOnly "g" [0xff]
    let map : List MapEntry := [⟨.bss, "overlay", 0xffffffffffffffff⟩]
    255 ≤ settings.target.ramBase.toNat ∧ 255 ≤ ({} : TargetSettings).ramBase.toNat ∧
      ∃ draft placed, Draft.ofBuild settings snapshot map = .ok draft ∧
        draft.layout settings.target = .ok placed ∧
        placed.arguments.map (fun a => (a.data.offset, a.data.address)) =
          [(255, some (.located 0xffffffffffffffff))] ∧
        draft.LaysOutExactly settings.target := by
  intro settings snapshot map
  have hram : 255 ≤ settings.target.ramBase.toNat := by decide
  obtain ⟨draft, hdraft, hlayout⟩ : ∃ draft, Draft.ofBuild settings snapshot map = .ok draft ∧
      (draft.layout settings.target).toOption.any fun placed =>
        placed.arguments.map (fun a => (a.data.offset, a.data.address)) =
          [(255, some (.located 0xffffffffffffffff))] :=
    exists_ok_of (by decide +kernel)
  obtain ⟨placed, hplaced, haddresses⟩ := exists_ok_of hlayout
  refine ⟨hram, by decide, draft, placed, hdraft, hplaced, haddresses, ?_⟩
  rcases run_lays_out_arguments_exactly settings snapshot map hram with
    ⟨fault, hfault, -⟩ | ⟨draft', hdraft', hexact, -⟩
  · cases hdraft.symm.trans hfault
  · obtain rfl := Except.ok.inj (hdraft.symm.trans hdraft')
    exact hexact

end Extraction

end FirmwareModel
