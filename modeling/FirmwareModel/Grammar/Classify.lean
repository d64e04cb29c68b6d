import FirmwareModel.Grammar.Role

/-!
# Recognising the roles of symbols

A symbol name is read against the modules that the symbol table declares. Of the module paths that
the name follows with a marker, the longest one counts; what stands behind it must then be a
declaration, or the name is at fault. Names without such a path tell nothing.
-/

namespace FirmwareModel

open FirmwareModel.Text

/-- The forms of declaration that can be malformed. -/
inductive DeclarationForm where
  | moduleInfo | input | procedure
  deriving DecidableEq, Repr

/-- The kinds of entity whose fields are named in declarations. -/
inductive EntityKind where
  | module | input | procedure | argument
  deriving DecidableEq, Repr

/-- Why a name that begins like a declaration is none. -/
inductive DeclarationFault where
  | malformed (form : DeclarationForm) (tokens : List String)
  | unknownField (owner : EntityKind) (field : String)
  deriving DecidableEq, Repr

/-- The words for a form of declaration. -/
def DeclarationForm.phrase : DeclarationForm → String
  | moduleInfo => "module info"
  | input => "input"
  | procedure => "procedure"

/-- The word for a kind of entity. -/
def EntityKind.word : EntityKind → String
  | module => "module"
  | input => "input"
  | procedure => "procedure"
  | argument => "argument"

/-- The words for a fault in a declaration. -/
def DeclarationFault.message : DeclarationFault → String
  | malformed form tokens =>
    "malformed " ++ form.phrase ++ " declaration '" ++ qualified tokens ++ "'"
  | unknownField owner field => "unknown " ++ owner.word ++ " field '" ++ field ++ "'"

/-- The text left after `start`, when the text begins with it. -/
def stripText? (start text : String) : Option (List Char) :=
  stripStart? start.toList text.toList

/-- The module that a name declares: what stands between the namespace and the first `::` that
the module marker follows. -/
def declaredModule? (m : Markers) (name : String) : Option ModulePath := do
  let rest ← stripText? m.namespaceText name
  let (path, _) ← cutBefore? (':' :: ':' :: m.module.toList) rest
  ModulePath.ofText? (String.ofList path)

/-- The field with a given word, or the fault of an owner that has no such field. -/
def fieldOr {α : Type} (owner : EntityKind) (word : String) (field? : Option α) :
    Except DeclarationFault α :=
  match field? with
  | some field => .ok field
  | none => .error (.unknownField owner word)

/-- The role of a name with the given segments behind the path of a module, when the first of
them is a marker. -/
def roleOfTokens? (m : Markers) (module : ModulePath) (tokens : List String) :
    Option (Except DeclarationFault Role) :=
  let head := tokens.headD ""
  if head = m.module then some (.ok (.marker module))
  else if head = m.info then
    some <|
      match tokens with
      | [_, field] =>
        (fieldOr .module field (ModuleField.ofWord? field)).map (Role.moduleField module)
      | _ => .error (.malformed .moduleInfo tokens)
  else if head = m.inputs then
    some <|
      match tokens with
      | [_, input, info, field] =>
        if info = m.info ∧ isIdentifier input then
          (fieldOr .input field (InputField.ofWord? field)).map (Role.inputField module input)
        else .error (.malformed .input tokens)
      | _ => .error (.malformed .input tokens)
  else if head = m.procedure then
    some <|
      match tokens with
      | [_, procedure, info, field] =>
        if info = m.info ∧ isIdentifier procedure then
          (fieldOr .procedure field (ProcedureField.ofWord? field)).map
            (Role.procedureField module procedure)
        else .error (.malformed .procedure tokens)
      | [_, procedure, arguments, argument, info, field] =>
        if arguments = m.arguments ∧ info = m.info ∧ isIdentifier procedure ∧
            isIdentifier argument then
          (fieldOr .argument field (ArgumentField.ofWord? field)).map
            (Role.argumentField module procedure argument)
        else .error (.malformed .procedure tokens)
      | _ => .error (.malformed .procedure tokens)
  else none

/-- The role that a module path gives to the text behind the namespace, when the text is the path,
`::` and a marker. -/
def roleUnder? (m : Markers) (rest : List Char) (module : ModulePath) :
    Option (Except DeclarationFault Role) := do
  let tail ← stripStart? (module.text.toList ++ [':', ':']) rest
  roleOfTokens? m module ((splitSegments tail).map String.ofList)

/-- Module paths with the longest first; paths of one length keep their order. -/
def longestFirst (paths : List ModulePath) : List ModulePath :=
  paths.mergeSort fun p q => q.length ≤ p.length

/-- The role of a name against the modules of the symbol table. -/
def classify (m : Markers) (paths : List ModulePath) (name : String) :
    Except DeclarationFault Role :=
  match stripText? m.namespaceText name with
  | none => .ok .irrelevant
  | some rest => ((longestFirst paths).findSome? (roleUnder? m rest)).getD (.ok .irrelevant)

end FirmwareModel
