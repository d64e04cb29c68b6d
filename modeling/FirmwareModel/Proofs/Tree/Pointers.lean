import FirmwareModel.Proofs.Tree.Changes
import FirmwareModel.Proofs.Tree.References

/-!
# What relocation records fill in

A module after all records is the module before them with pointers filled in: each entity has the
callable of the last record that refers from it to code, and each input the location of the last one
that refers from it to data. Everything else is as it was, and the records that count are those that
the entity of their pointer field can hold.
-/

namespace FirmwareModel

/-! ## Entities with pointers filled in -/

/-- The location with another symbol and offset, if they are given. -/
def Storage.pointed (snapshot : Snapshot) (place? : Option (String × UInt64)) (s : Storage) :
    Storage :=
  match place? with
  | none => s
  | some (symbol, offset) => { s with symbol := some (snapshot.spell symbol), offset }

/-- The input with the callable of a code symbol and with another location, if they are given. -/
def Input.pointed (snapshot : Snapshot) (code? : Option String)
    (place? : Option (String × UInt64)) (i : Input) : Input :=
  { i with
    callable := (code?.map snapshot.callable).or i.callable
    data := i.data.pointed snapshot place? }

/-- The procedure with the callable of a code symbol, if one is given. -/
def Procedure.pointed (snapshot : Snapshot) (code? : Option String) (p : Procedure) : Procedure :=
  { p with callable := (code?.map snapshot.callable).or p.callable }

/-- The module with the callables of code symbols and the locations of inputs that are given for its
entities. -/
def Module.pointed (snapshot : Snapshot) (code? : Member → Option String)
    (place? : Member → Option (String × UInt64)) (m : Module) : Module :=
  { m with
    callable := ((code? .self).map snapshot.callable).or m.callable
    inputs := m.inputs.mapNamed fun name i =>
      i.pointed snapshot (code? (.input name)) (place? (.input name))
    procedures := m.procedures.mapNamed fun name p =>
      p.pointed snapshot (code? (.procedure name)) }

section

variable {snapshot : Snapshot}

/-- Of pointers to data that are filled in twice, the later one counts. -/
theorem Storage.pointed_pointed (place? other? : Option (String × UInt64)) (s : Storage) :
    (s.pointed snapshot place?).pointed snapshot other? =
      s.pointed snapshot (other?.or place?) := by
  cases other? with
  | none => rfl
  | some other => cases place? <;> rfl

/-- Of pointers that are filled in twice, the later ones count. -/
theorem Input.pointed_pointed (code? code'? : Option String)
    (place? place'? : Option (String × UInt64)) (i : Input) :
    (i.pointed snapshot code? place?).pointed snapshot code'? place'? =
      i.pointed snapshot (code'?.or code?) (place'?.or place?) := by
  simp only [pointed, Storage.pointed_pointed, Option.map_or, Option.or_assoc]

/-- Of pointers to code that are filled in twice, the later one counts. -/
theorem Procedure.pointed_pointed (code? code'? : Option String) (p : Procedure) :
    (p.pointed snapshot code?).pointed snapshot code'? =
      p.pointed snapshot (code'?.or code?) := by
  simp only [pointed, Option.map_or, Option.or_assoc]

/-- What is filled in later replaces what was filled in before. -/
theorem Module.pointed_pointed (code? code'? : Member → Option String)
    (place? place'? : Member → Option (String × UInt64)) (m : Module) :
    (m.pointed snapshot code? place?).pointed snapshot code'? place'? =
      m.pointed snapshot (fun member => (code'? member).or (code? member))
        fun member => (place'? member).or (place? member) := by
  simp only [pointed, Table.mapNamed_mapNamed, Input.pointed_pointed, Procedure.pointed_pointed,
    Option.map_or, Option.or_assoc]

/-- An input without pointers stays as it is. -/
theorem Input.pointed_none (i : Input) : i.pointed snapshot none none = i := rfl

/-- A procedure without pointers stays as it is. -/
theorem Procedure.pointed_none (p : Procedure) : p.pointed snapshot none = p := rfl

/-- A module without pointers stays as it is. -/
theorem Module.pointed_none (m : Module) :
    (m.pointed snapshot (fun _ => none) fun _ => none) = m := by
  simp only [pointed, Input.pointed_none, Procedure.pointed_none, Table.mapNamed_id,
    Option.map_none, Option.none_or]

variable {target : ReferenceTarget} {unmangled : String}

/-- A target fills in the pointer of an input that it is for. -/
theorem Input.edit_eq_pointed (hunmangled : snapshot.demangle target.symbol = .ok unmangled)
    (i : Input) :
    i.edit (target.edit unmangled) =
      i.pointed snapshot target.codeSymbol? target.dataPlace? := by
  obtain ⟨rfl, -⟩ := Snapshot.demangle_eq_ok_iff.mp hunmangled
  cases target <;> rfl

/-- A target that is code fills in the pointer of a procedure, and any other does nothing. -/
theorem Procedure.edit_eq_pointed (hunmangled : snapshot.demangle target.symbol = .ok unmangled)
    (p : Procedure) :
    p.edit (target.edit unmangled) = p.pointed snapshot target.codeSymbol? := by
  obtain ⟨rfl, -⟩ := Snapshot.demangle_eq_ok_iff.mp hunmangled
  cases target <;> rfl

/-- A pointer of an entity that the module has fills in that entity and no other. -/
theorem Module.edit_eq_pointed {m : Module} {member : Member}
    (hunmangled : snapshot.demangle target.symbol = .ok unmangled) (hmember : m.Has member)
    (hargument : ∀ procedure name, member ≠ .argument procedure name) :
    m.edit (target.edit unmangled) member =
      m.pointed snapshot (fun other => if other = member then target.codeSymbol? else none)
        fun other => if other = member then target.dataPlace? else none := by
  cases member with
  | self =>
    obtain ⟨rfl, -⟩ := Snapshot.demangle_eq_ok_iff.mp hunmangled
    simp only [pointed, reduceCtorEq, if_false, Input.pointed_none, Procedure.pointed_none,
      Table.mapNamed_id]
    cases target <;> rfl
  | input name =>
    simp only [pointed, edit, reduceCtorEq, if_false, Procedure.pointed_none, Table.mapNamed_id,
      Table.upsert_of_mem hmember, Table.modify_eq_mapNamed, Member.input.injEq]
    congr 2
    funext key i
    split
    · exact Input.edit_eq_pointed hunmangled i
    · rfl
  | procedure name =>
    simp only [pointed, edit, reduceCtorEq, if_false, Input.pointed_none, Table.mapNamed_id,
      Table.upsert_of_mem hmember, Table.modify_eq_mapNamed, Member.procedure.injEq]
    congr 2
    funext key p
    split
    · exact Procedure.edit_eq_pointed hunmangled p
    · rfl
  | argument procedure name => exact absurd rfl (hargument procedure name)

end

/-! ## One record -/

/-- The entity of a pointer field can hold the target: each can hold one in code, and only inputs
can hold one in data. -/
def ReferenceTarget.fits : ReferenceTarget → Member → Bool
  | code _, _ => true
  | data _ _, .input _ => true
  | data _ _, _ => false

/-- The record is that of a pointer field whose entity can hold its target. -/
def RelocationRecord.applies (sections : SectionSettings) (classified : List ClassifiedSymbol)
    (r : RelocationRecord) : Bool :=
  classified.any fun s => s.role.isPointer && s.name.mangled == r.containerSymbol &&
    s.role.owner?.any fun owner => (r.target? sections).any fun target => target.fits owner.2

namespace ModuleTree

variable {snapshot : Snapshot} {sections : SectionSettings} {classified : List ClassifiedSymbol}
  {r : RelocationRecord} {t t' t'' : ModuleTree}
  {code? code'? : List String → Member → Option String}
  {place? place'? : List String → Member → Option (String × UInt64)}

/-- Nothing is filled in where nothing is given. -/
theorem WellFormed.changedAt_pointed_none (h : t.WellFormed) :
    ChangedAt (fun _ m => m.pointed snapshot (fun _ => none) fun _ => none) t t :=
  h.changedAt_refl.congr fun _ _ m _ _ => m.pointed_none.symm

/-- What is filled in after something else replaces it. -/
theorem ChangedAt.pointed_trans (hwellFormed : t.WellFormed)
    (h : ChangedAt (fun path m => m.pointed snapshot (code? path) (place? path)) t t')
    (h' : ChangedAt (fun path m => m.pointed snapshot (code'? path) (place'? path)) t' t'') :
    ChangedAt (fun path m => m.pointed snapshot
      (fun member => (code'? path member).or (code? path member))
      fun member => (place'? path member).or (place? path member)) t t'' :=
  (h.trans h' hwellFormed fun _ _ => rfl).congr fun _ _ _ _ _ => Module.pointed_pointed _ _ _ _ _

/-- A record fills in what it tells about its target, and that at the entity of its pointer field
only. -/
theorem Holds.changedAt_link? (h : t.Holds classified)
    (hnodup : (classified.map fun s => s.name.mangled).Nodup) {applied : Bool}
    (hlink : t.link? snapshot sections classified r = .ok (t', applied)) :
    ChangedAt (fun path m => m.pointed snapshot
      (r.reference? ReferenceTarget.codeSymbol? sections classified path)
      (r.reference? ReferenceTarget.dataPlace? sections classified path)) t t' := by
  rcases link?_cases hlink with ⟨rfl, hnone⟩ |
    ⟨role, target, unmangled, owner, other, hrole, htarget, hunmangled, howner, rfl⟩
  · refine h.wellFormed.changedAt_refl.congr fun path _ m _ _ => ?_
    rw [funext (reference?_eq_none _ hnodup hnone path),
      funext (reference?_eq_none _ hnodup hnone path), m.pointed_none]
  obtain ⟨s, hs, rfl, hpointer, -⟩ := exists_of_pointerRole? hrole
  obtain ⟨n, hn, hother⟩ := h.declares s hs owner other howner
  have hargument : ∀ procedure name, other ≠ .argument procedure name := by
    obtain ⟨_, _, howner', hargument⟩ := Role.owner?_of_isPointer hpointer
    obtain ⟨rfl, rfl⟩ := Prod.mk.inj (Option.some.inj (howner.symm.trans howner'))
    exact hargument
  refine h.wellFormed.changedAt_edit_of_eq hn ?_ fun place hplace m => ?_
  · simp only [reference?_of_owner? _ hnodup hrole htarget howner, true_and,
      Module.edit_eq_pointed hunmangled hother hargument]
  · simp only [reference?_of_owner? _ hnodup hrole htarget howner, hplace, if_false, false_and,
      Module.pointed_none]

/-- Whether a record counts is decided by the role of its container. -/
theorem applies_eq (hnodup : (classified.map fun s => s.name.mangled).Nodup) :
    r.applies sections classified =
      (r.pointerRole? classified).any fun role => role.owner?.any fun owner =>
        (r.target? sections).any fun target => target.fits owner.2 := by
  rw [Bool.eq_iff_iff]
  simp only [RelocationRecord.applies, List.any_eq_true, Bool.and_eq_true, beq_iff_eq,
    Option.any_eq_true, pointerRole?_eq_some_iff hnodup]
  constructor
  · rintro ⟨s, hs, ⟨hpointer, hmangled⟩, hfits⟩
    exact ⟨s.role, ⟨s, hs, rfl, hpointer, hmangled⟩, hfits⟩
  · rintro ⟨_, ⟨s, hs, rfl, hpointer, hmangled⟩, hfits⟩
    exact ⟨s, hs, ⟨hpointer, hmangled⟩, hfits⟩

/-- Entities with pointer fields accept a pointer exactly when they can hold its target. -/
theorem accepts_edit {member : Member} (target : ReferenceTarget) (unmangled : String)
    (hargument : ∀ procedure name, member ≠ .argument procedure name) :
    member.kind.accepts (target.edit unmangled) = target.fits member := by
  cases member with
  | argument procedure name => exact absurd rfl (hargument procedure name)
  | self => cases target <;> rfl
  | input name => cases target <;> rfl
  | procedure name => cases target <;> rfl

/-- A record counts when it is that of a pointer field whose entity can hold its target. -/
theorem applied_of_link? (hnodup : (classified.map fun s => s.name.mangled).Nodup)
    {applied : Bool} (hlink : t.link? snapshot sections classified r = .ok (t', applied)) :
    applied = r.applies sections classified := by
  rw [applies_eq hnodup]
  unfold link? at hlink
  cases hrole : r.pointerRole? classified with
  | none =>
    simp only [hrole] at hlink
    exact (congrArg Prod.snd (Except.ok.inj hlink)).symm
  | some role =>
    obtain ⟨s, -, rfl, hpointer, -⟩ := exists_of_pointerRole? hrole
    obtain ⟨owner, member, howner, hargument⟩ := Role.owner?_of_isPointer hpointer
    cases htarget : r.target? sections with
    | none =>
      simp only [hrole, htarget] at hlink
      simpa [howner] using (congrArg Prod.snd (Except.ok.inj hlink)).symm
    | some target =>
      simp only [hrole, htarget, howner] at hlink
      cases hdemangle : snapshot.demangle target.symbol with
      | error fault => simp [hdemangle] at hlink
      | ok unmangled =>
        simp only [hdemangle] at hlink
        obtain ⟨-, rfl⟩ := Prod.mk.inj (Except.ok.inj hlink)
        rw [accepts_edit target unmangled hargument]
        simp [howner]

/-! ## All records -/

/-- All records together fill in the last reference of each entity. -/
theorem Holds.changedAt_linkAll (h : t.Holds classified)
    (hnodup : (classified.map fun s => s.name.mangled).Nodup) {records : List RelocationRecord}
    {count : Nat}
    (hlink : ModuleTree.linkAll snapshot sections classified t records = .ok (t', count)) :
    ChangedAt (fun path m => m.pointed snapshot
      (lastCodeReference? sections classified records path)
      (lastDataReference? sections classified records path)) t t' := by
  induction records generalizing t count with
  | nil =>
    obtain ⟨rfl, -⟩ := Prod.mk.inj (Except.ok.inj hlink)
    exact h.wellFormed.changedAt_pointed_none
  | cons r records ih =>
    obtain ⟨mid, applied, rest, hmid, hrest, -⟩ := linkAll_cons_eq_ok_iff.mp hlink
    have hstep := h.changedAt_link? hnodup hmid
    have hlater := ih (h.link? hmid).1 hrest
    refine (hstep.pointed_trans h.wellFormed hlater).congr fun path _ m _ _ => ?_
    simp only [lastCodeReference?, lastDataReference?, ← lastReference?_cons]

/-- The count is that of the records that apply. -/
theorem count_of_linkAll (hnodup : (classified.map fun s => s.name.mangled).Nodup)
    {records : List RelocationRecord} {count : Nat}
    (hlink : ModuleTree.linkAll snapshot sections classified t records = .ok (t', count)) :
    count = records.countP fun r => r.applies sections classified := by
  induction records generalizing t count with
  | nil => exact (congrArg Prod.snd (Except.ok.inj hlink)).symm
  | cons r records ih =>
    obtain ⟨mid, applied, rest, hmid, hrest, rfl⟩ := linkAll_cons_eq_ok_iff.mp hlink
    rw [List.countP_cons, ih hrest, applied_of_link? hnodup hmid]
    cases r.applies sections classified <;> rfl

/-- Records fill in the pointers of a tree that has the entities of all symbols, and leave the rest
of it alone. Each entity ends up with the callable of the last record that refers from it to code,
and each input with the symbol and the offset of the last one that refers from it to data; those
that no record refers from keep what they had. The count is that of the records of pointer fields
whose target is in code, or in data for an input. -/
theorem linkAll_fills_last_references (hnodup : (classified.map fun s => s.name.mangled).Nodup)
    (hholds : t.Holds classified) {records : List RelocationRecord} {count : Nat}
    (hlink : linkAll snapshot sections classified t records = .ok (t', count)) :
    ChangedAt (fun path m => m.pointed snapshot
      (lastCodeReference? sections classified records path)
      (lastDataReference? sections classified records path)) t t' ∧
    count = records.countP fun r => r.applies sections classified :=
  ⟨hholds.changedAt_linkAll hnodup hlink, count_of_linkAll hnodup hlink⟩

/-- Of five records, two refer from the lamp to code, and the later one counts; the lamp cannot hold
the data that another one refers to, and no pointer field is that of the last one. -/
theorem lamp_keeps_last_references :
    let lamp : ModulePath := ⟨"Lamp", by decide⟩
    let callable := Role.moduleField lamp .callable
    let level := Role.inputField lamp "level" .address
    let classified : List ClassifiedSymbol := [⟨⟨"a", "a"⟩, callable⟩, ⟨⟨"b", "b"⟩, level⟩]
    let t := (ModuleTree.empty.editOwner callable .keep).editOwner level .keep
    let records : List RelocationRecord := [⟨".rodata.a", ".text.on"⟩,
      ⟨".rodata.b", ".bss.store+0x2"⟩, ⟨".rodata.a", ".text.off"⟩, ⟨".rodata.a", ".data.store"⟩,
      ⟨".rodata.c", ".text.on"⟩]
    (classified.map fun s => s.name.mangled).Nodup ∧ t.Holds classified ∧
      ∃ t', linkAll {} {} classified t records = .ok (t', 3) ∧
        lastCodeReference? {} classified records ["Lamp"] .self = some "off" ∧
        lastDataReference? {} classified records ["Lamp"] (.input "level") = some ("store", 2) ∧
        ChangedAt (fun path m => m.pointed {} (lastCodeReference? {} classified records path)
          (lastDataReference? {} classified records path)) t t' ∧
        3 = records.countP fun r => r.applies {} classified := by
  intro lamp callable level classified t records
  have hnodup : (classified.map fun s => s.name.mangled).Nodup := by decide
  have hreachable : t.Reachable := .editOwner level .keep (.editOwner callable .keep .empty)
  have hholds : t.Holds classified := by
    have hkeys : (t.moduleAt? ["Lamp"]).map (fun m => m.inputs.keys) = some ["level"] := by
      decide +kernel
    obtain ⟨m, hm, hinputs⟩ := Option.map_eq_some_iff.mp hkeys
    refine ⟨hreachable.wellFormed, fun s hs path member howner => ?_⟩
    have hlamp : path.segments = ["Lamp"] ∧ (member = .self ∨ member = .input "level") := by
      rcases List.mem_pair.mp hs with rfl | rfl
      · obtain ⟨rfl, rfl⟩ := Prod.mk.inj (Option.some.inj howner)
        exact ⟨by decide, Or.inl rfl⟩
      · obtain ⟨rfl, rfl⟩ := Prod.mk.inj (Option.some.inj howner)
        exact ⟨by decide, Or.inr rfl⟩
    obtain ⟨hpath, rfl | rfl⟩ := hlamp
    · exact ⟨m, hpath ▸ hm, trivial⟩
    · exact ⟨m, hpath ▸ hm, by simp [Module.Has, hinputs]⟩
  obtain ⟨⟨t', count⟩, ht', hcount⟩ :
      ∃ result, linkAll {} {} classified t records = .ok result ∧ result.2 = 3 :=
    exists_ok_of (by decide +kernel)
  obtain rfl : count = 3 := hcount
  exact ⟨hnodup, hholds, t', ht', by decide +kernel, by decide +kernel,
    linkAll_fills_last_references hnodup hholds ht'⟩

end ModuleTree

end FirmwareModel
