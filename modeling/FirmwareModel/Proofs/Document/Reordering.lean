import FirmwareModel.Proofs.Document.OfTree
import FirmwareModel.Proofs.Tree.Built
import FirmwareModel.Proofs.Tree.Counting

/-!
# Documents up to the order of siblings

Documents are reordered when they show the same entities and differ at most in the order of
siblings, at every level. Trees that are alike have such documents: the record at a path shows the
module there above the records at the paths one name longer, and the two trees have the same names
there.
-/

namespace FirmwareModel

namespace Document

/-- The procedures are the same but for the order of their arguments. -/
structure ProcedureRecord.Reordered (p q : ProcedureRecord) : Prop where
  name : p.name = q.name
  description : p.description = q.description
  callable : p.callable = q.callable
  arguments : p.arguments.Perm q.arguments

/-- The modules are the same but for the order of inputs, procedures, arguments and modules, here
and in all modules below. -/
inductive ModuleRecord.Reordered : ModuleRecord → ModuleRecord → Prop
  | intro {m n : ModuleRecord} {modules : List ModuleRecord}
      (name : m.name = n.name)
      (description : m.description = n.description)
      (callable : m.callable = n.callable)
      (inputs : m.inputs.Perm n.inputs)
      (procedures : UpToOrder ProcedureRecord.Reordered m.procedures n.procedures)
      (order : m.modules.Perm modules)
      (below : List.Forall₂ Reordered modules n.modules) : Reordered m n

/-- The documents are the same but for the order of siblings at every level. -/
structure Reordered (d e : Document) : Prop where
  checksum : d.checksum = e.checksum
  modules : UpToOrder ModuleRecord.Reordered d.modules e.modules

variable {p q : Procedure} {m n : Module} {below below' : List ModuleRecord}

/-- Procedures that are alike have records that differ in the order of arguments at most. -/
theorem ProcedureRecord.reordered_ofProcedure (h : p.Alike q) :
    (ofProcedure p).Reordered (ofProcedure q) := by
  have hbare : p.name = q.name ∧ p.description = q.description ∧ p.callable = q.callable := by
    simpa [Procedure.bare] using h.bare
  obtain ⟨hname, hdescription, hcallable⟩ := hbare
  refine ⟨hname, hdescription, congrArg (Option.map CallableRecord.ofCallable) hcallable, ?_⟩
  exact Table.perm_map_values fun name => by rw [h.arguments]

/-- Modules that are alike have records that differ in the order of siblings at most, if that holds
of the records below. -/
theorem ModuleRecord.reordered_ofModule (h : m.Alike n)
    (hbelow : UpToOrder Reordered below below') :
    (ofModule m below).Reordered (ofModule n below') := by
  obtain ⟨hname, -, hdescription, hcallable, -⟩ := h.shown_eq
  obtain ⟨modules, horder, hmodules⟩ := hbelow
  refine .intro hname hdescription (congrArg (Option.map CallableRecord.ofCallable) hcallable)
    (h.perm_inputs _) ?_ horder hmodules
  refine Table.upToOrder_map_values fun name => ?_
  have hrel := h.procedures_rel name
  generalize m.procedures.find? name = p, n.procedures.find? name = q at hrel
  cases hrel with
  | none => exact .none
  | some hpq => exact .some (ProcedureRecord.reordered_ofProcedure hpq)

end Document

namespace ModuleTree

open Document

variable {t u : ModuleTree} {path : List String}

/-- The record of the module at a path. -/
def recordAt? (t : ModuleTree) (path : List String) : Option ModuleRecord :=
  t.valueAt? (fun id m => .ofModule m (t.recordsBelow (some id))) path

/-- The records below a path are those at the paths one name longer. -/
theorem WellFormed.recordsBelow_eq_filterMap (h : t.WellFormed) {start : Option Nat}
    (hplace : t.placeAt? path = some start) :
    t.recordsBelow start =
      (t.childNames path).filterMap fun name => t.recordAt? (path ++ [name]) := by
  have hnames : t.childNames path = (t.children start).keys := by simp [childNames, hplace]
  rw [h.recordsBelow_eq, Table.values_eq_filterMap_keys, List.filterMap_filterMap, hnames]
  refine List.filterMap_congr fun name _ => ?_
  rw [recordAt?, valueAt?, placeAt?_concat, hplace, Option.bind_some]
  cases (t.children start).find? name <;> rfl

section

variable (h : t.Alike u) (ht : t.WellFormed) (hu : u.WellFormed)

include h ht hu

/-- Trees that are alike have the same names below each path. -/
theorem Alike.perm_childNames (path : List String) :
    (t.childNames path).Perm (u.childNames path) := by
  have hnodup : ∀ t : ModuleTree, (t.childNames path).Nodup := by
    intro t
    rw [childNames]
    cases t.placeAt? path with
    | none => exact List.nodup_nil
    | some start => exact (t.children start).nodup_keys
  rw [List.perm_ext_iff_of_nodup (hnodup t) (hnodup u)]
  intro name
  rw [← ht.exists_moduleAt?_concat_iff, ← hu.exists_moduleAt?_concat_iff]
  have hrel := h.moduleAt?_rel (path ++ [name])
  generalize t.moduleAt? (path ++ [name]) = m, u.moduleAt? (path ++ [name]) = n at hrel
  cases hrel <;> simp

/-- The records below a path are reordered when all those at the paths one name longer are. -/
theorem Alike.recordsBelow_rel {start start' : Option Nat}
    (hstart : t.placeAt? path = some start) (hstart' : u.placeAt? path = some start')
    (hrecords : ∀ name ∈ t.childNames path, Option.Rel ModuleRecord.Reordered
      (t.recordAt? (path ++ [name])) (u.recordAt? (path ++ [name]))) :
    UpToOrder ModuleRecord.Reordered (t.recordsBelow start) (u.recordsBelow start') := by
  have hnames := h.perm_childNames ht hu path
  rw [ht.recordsBelow_eq_filterMap hstart, hu.recordsBelow_eq_filterMap hstart']
  exact upToOrder_filterMap hnames fun name hname => hrecords name (hnames.mem_iff.mpr hname)

/-- Trees that are alike have reordered records at each path to a module. -/
theorem Alike.recordAt?_rel {id : Nat} (hplace : t.placeAt? path = some (some id)) :
    Option.Rel ModuleRecord.Reordered (t.recordAt? path) (u.recordAt? path) := by
  -- Modules come behind the one that encloses them, so the distance to the last one decreases.
  induction hdistance : t.size - id using Nat.strong_induction_on generalizing id path with
  | h distance ih =>
    obtain ⟨m, hm⟩ := ht.exists_module?_of_placeAt? hplace
    have hrel := h.moduleAt?_rel path
    rw [moduleAt?_eq_some_iff.mpr ⟨id, hplace, hm⟩] at hrel
    cases hn : u.moduleAt? path with
    | none => simp [hn] at hrel
    | some n =>
      rw [hn, Option.rel_some_some] at hrel
      obtain ⟨id', hplace', hn'⟩ := moduleAt?_eq_some_iff.mp hn
      have hbelow := h.recordsBelow_rel ht hu hplace hplace' fun name hname => by
        obtain ⟨child, hchild⟩ := Option.isSome_iff_exists.mp (mem_childNames_iff.mp hname)
        obtain ⟨start, childId, hstart, hfind, rfl⟩ := placeAt?_concat_eq_some_iff.mp hchild
        obtain rfl := Option.some.inj (hplace.symm.trans hstart)
        obtain ⟨c, hc, -, hparent⟩ := ht.entry hfind
        have hlt := ht.parent_lt hc hparent
        have hsize := module?_lt hc
        exact ih (t.size - childId) (by omega) hchild rfl
      rw [recordAt?, valueAt?, hplace, recordAt?, valueAt?, hplace']
      simp only [Option.join_some, Option.bind_some, hm, hn', Option.map_some]
      exact .some (ModuleRecord.reordered_ofModule hrel hbelow)

/-- Trees that are alike have reordered documents. -/
theorem Alike.reordered (checksum : Option String) :
    (ofTree t checksum).Reordered (ofTree u checksum) := by
  refine ⟨rfl, h.recordsBelow_rel ht hu (placeAt?_nil t) (placeAt?_nil u) fun name hname => ?_⟩
  obtain ⟨place, hplace⟩ := Option.isSome_iff_exists.mp (mem_childNames_iff.mp hname)
  obtain ⟨start, id, -, -, rfl⟩ := placeAt?_concat_eq_some_iff.mp hplace
  exact h.recordAt?_rel ht hu hplace

end

end ModuleTree

end FirmwareModel
