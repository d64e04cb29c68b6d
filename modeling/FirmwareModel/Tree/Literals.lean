import FirmwareModel.Tree.Links

/-!
# Literals of entities

A literal field takes its value from the section of its symbol. A symbol without a section, or with
bytes that are no literal of the kind, leaves a diagnostic and the entity as it was.
-/

namespace FirmwareModel

/-- The change that a literal makes. -/
def Literal.edit : Literal → Edit
  | description text => .describe text
  | size bytes => .store fun s => { s with size := bytes }
  | type primitive => .store fun s => { s with type := some primitive }
  | offset bytes => .store fun s => { s with offset := bytes }

/-- A tree in the course of filling in literals. -/
structure LiteralProgress where
  tree : ModuleTree
  stored : Nat := 0
  diagnostics : List Diagnostic := []

namespace Snapshot

/-- The literal of a symbol, in the first section that it has. The outer fault is one of the
snapshot, the inner one concerns the symbol alone. -/
def literal (s : Snapshot) (settings : Settings) (symbol : String) (kind : LiteralKind) :
    Except Fault (Except Fault Literal) :=
  match s.findPayload symbol settings.sections.payloadPriority with
  | .error fault => .error (.artifact fault)
  | .ok none => .ok (.error (.noSection symbol))
  | .ok (some (_, bytes)) =>
    .ok ((Literal.decode settings.target.typeTable kind bytes).mapError (.literal symbol))

end Snapshot

namespace LiteralProgress

/-- Fill in the literal of one symbol, if its field is one. -/
def step (snapshot : Snapshot) (settings : Settings) (p : LiteralProgress)
    (symbol : ClassifiedSymbol) : Except Fault LiteralProgress :=
  match symbol.role.literalKind? with
  | none => .ok p
  | some kind => do
    match ← snapshot.literal settings symbol.name.mangled kind with
    | .ok literal =>
      return { p with tree := p.tree.editOwner symbol.role literal.edit, stored := p.stored + 1 }
    | .error fault =>
      let diagnostic := Diagnostic.ofReport .payloads symbol.name.mangled fault.report
      return { p with diagnostics := p.diagnostics ++ [diagnostic] }

end LiteralProgress

/-- Fill in the literals of all symbols, in order. -/
def ModuleTree.fillLiterals (snapshot : Snapshot) (settings : Settings) (t : ModuleTree)
    (classified : List ClassifiedSymbol) : Except Fault LiteralProgress :=
  classified.foldlM (LiteralProgress.step snapshot settings) { tree := t }

end FirmwareModel
