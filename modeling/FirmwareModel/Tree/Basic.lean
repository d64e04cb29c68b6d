import FirmwareModel.Tree.Entity

/-!
# Module trees

All modules of one firmware are kept in one sequence, in which a module comes after the module that
encloses it, and refer to each other by their index there. Siblings are in order of arrival, which
is the order in which documents list them.
-/

namespace FirmwareModel

/-- The modules of one firmware. -/
structure ModuleTree where
  /-- The modules, each behind the one that encloses it. -/
  nodes : Array Module
  /-- The indices of the modules that no other encloses. -/
  roots : Table Nat
  deriving DecidableEq, Repr

namespace ModuleTree

/-- The tree without modules. -/
def empty : ModuleTree :=
  ⟨#[], .empty⟩

instance : Inhabited ModuleTree := ⟨empty⟩

/-- The number of modules at any depth. -/
def size (t : ModuleTree) : Nat :=
  t.nodes.size

/-- The module with a given index. -/
def module? (t : ModuleTree) (id : Nat) : Option Module :=
  t.nodes[id]?

/-- The children of a module, or the roots. -/
def children (t : ModuleTree) : Option Nat → Table Nat
  | none => t.roots
  | some id => ((t.module? id).map Module.modules).getD .empty

/-- The path of a child with the given name, under a module or as a root. -/
def childPath (t : ModuleTree) (parent : Option Nat) (name : String) : String :=
  match parent.bind t.module? with
  | some module => module.path ++ "::" ++ name
  | none => name

/-- Change one module. -/
def modifyModule (t : ModuleTree) (id : Nat) (f : Module → Module) : ModuleTree :=
  { t with nodes := t.nodes.modify id f }

/-- Enter a child under a module or among the roots. -/
def link (t : ModuleTree) (parent : Option Nat) (name : String) (child : Nat) : ModuleTree :=
  match parent with
  | none => { t with roots := t.roots.insertNew name child }
  | some id => t.modifyModule id fun m => { m with modules := m.modules.insertNew name child }

/-- Add a module behind all others, under a module or as a root. -/
def addChild (t : ModuleTree) (parent : Option Nat) (name : String) : ModuleTree :=
  let child : Module := { name, path := t.childPath parent name, parent }
  let grown : ModuleTree := { t with nodes := t.nodes.push child }
  grown.link parent name t.size

/-- Walk down from a module or from the roots, adding the modules that are missing on the way. -/
def ensureFrom (t : ModuleTree) (start : Option Nat) : List String → ModuleTree × Option Nat
  | [] => (t, start)
  | name :: names =>
    match (t.children start).find? name with
    | some id => t.ensureFrom (some id) names
    | none => (t.addChild start name).ensureFrom (some t.size) names

/-- The tree with all modules on a path, and the index of the module that the path names. -/
def ensure (t : ModuleTree) (path : ModulePath) : ModuleTree × Nat :=
  let (grown, id) := t.ensureFrom none path.segments
  (grown, id.getD 0)

/-- Walk down from a module or from the roots. -/
def findFrom? (t : ModuleTree) (start : Option Nat) : List String → Option Nat
  | [] => start
  | name :: names => ((t.children start).find? name).bind fun id => t.findFrom? (some id) names

/-- The index of the module that a path names. -/
def find? (t : ModuleTree) (path : ModulePath) : Option Nat :=
  t.findFrom? none path.segments

/-- The module with an index and those that enclose it, up to that many of them. -/
def ancestorsUpTo (t : ModuleTree) : Nat → Option Nat → List Module
  | 0, _ => []
  | _, none => []
  | bound + 1, some id =>
    match t.module? id with
    | none => []
    | some module => module :: t.ancestorsUpTo bound module.parent

/-- The module with an index, then each module that encloses the one before. A module comes behind
the one that encloses it, so the index bounds their number. -/
def ancestors (t : ModuleTree) (id : Nat) : List Module :=
  t.ancestorsUpTo (id + 1) (some id)

/-- List pending modules, each followed by what is below it, up to that many of them. -/
def listFrom (t : ModuleTree) : Nat → List Nat → List Nat
  | 0, _ => []
  | _, [] => []
  | bound + 1, id :: pending => id :: t.listFrom bound ((t.children (some id)).values ++ pending)

/-- All modules, each before its children, in the order of documents. -/
def preorder (t : ModuleTree) : List Nat :=
  t.listFrom t.size t.roots.values

/-- Whether any module declares a procedure. -/
def hasProcedures (t : ModuleTree) : Bool :=
  t.nodes.any fun m => m.procedures.size ≠ 0

/-- Change every module, given its index. -/
def mapModules (t : ModuleTree) (f : Nat → Module → Module) : ModuleTree :=
  { t with nodes := t.nodes.mapIdx f }

/-- Edit an entity, after making sure of it and of all modules on the way to it. -/
def edit (t : ModuleTree) (path : ModulePath) (member : Member) (e : Edit) : ModuleTree :=
  let (grown, id) := t.ensure path
  grown.modifyModule id fun m => m.edit e member

/-- Edit the entity that a role speaks of, if it speaks of one. -/
def editOwner (t : ModuleTree) (role : Role) (e : Edit) : ModuleTree :=
  match role.owner? with
  | some (path, member) => t.edit path member e
  | none => t

/-- Sum a number over all modules. -/
def count (t : ModuleTree) (f : Module → Nat) : Nat :=
  (t.nodes.toList.map f).foldr (· + ·) 0

end ModuleTree

end FirmwareModel
