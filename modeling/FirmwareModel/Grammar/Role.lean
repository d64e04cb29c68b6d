import FirmwareModel.Grammar.ModulePath
import FirmwareModel.Settings

/-!
# Roles of symbols

The name of an exported symbol tells which field of which entity the symbol holds:

* `<namespace><path>::<module>` declares a module;
* `<namespace><path>::<info>::<field>` is a field of a module;
* `<namespace><path>::<inputs>::<input>::<info>::<field>` is a field of an input;
* `<namespace><path>::<procedure>::<name>::<info>::<field>` is a field of a procedure;
* `<namespace><path>::<procedure>::<name>::<arguments>::<argument>::<info>::<field>` is a field of
  an argument.

The words between angle brackets that are no names come from the settings. `Role.declaration`
spells the name of a role.
-/

namespace FirmwareModel

/-- The fields that a module can declare. -/
inductive ModuleField where
  | description | callable | address
  deriving DecidableEq, Repr

/-- The fields that an input can declare. -/
inductive InputField where
  | description | size | type | callable | address
  deriving DecidableEq, Repr

/-- The fields that a procedure can declare. -/
inductive ProcedureField where
  | description | callable
  deriving DecidableEq, Repr

/-- The fields that an argument can declare. -/
inductive ArgumentField where
  | description | offset | size | type
  deriving DecidableEq, Repr

namespace ModuleField

/-- The fields, in the order of declaration. -/
def all : List ModuleField :=
  [description, callable, address]

/-- The word for the field in a symbol name. -/
def word : ModuleField → String
  | description => "description"
  | callable => "callable"
  | address => "address"

/-- The field with a given word. -/
def ofWord? (word : String) : Option ModuleField :=
  all.find? fun field => field.word = word

end ModuleField

namespace InputField

/-- The fields, in the order of declaration. -/
def all : List InputField :=
  [description, size, type, callable, address]

/-- The word for the field in a symbol name. -/
def word : InputField → String
  | description => "description"
  | size => "size"
  | type => "type"
  | callable => "callable"
  | address => "address"

/-- The field with a given word. -/
def ofWord? (word : String) : Option InputField :=
  all.find? fun field => field.word = word

end InputField

namespace ProcedureField

/-- The fields, in the order of declaration. -/
def all : List ProcedureField :=
  [description, callable]

/-- The word for the field in a symbol name. -/
def word : ProcedureField → String
  | description => "description"
  | callable => "callable"

/-- The field with a given word. -/
def ofWord? (word : String) : Option ProcedureField :=
  all.find? fun field => field.word = word

end ProcedureField

namespace ArgumentField

/-- The fields, in the order of declaration. -/
def all : List ArgumentField :=
  [description, offset, size, type]

/-- The word for the field in a symbol name. -/
def word : ArgumentField → String
  | description => "description"
  | offset => "offset"
  | size => "size"
  | type => "type"

/-- The field with a given word. -/
def ofWord? (word : String) : Option ArgumentField :=
  all.find? fun field => field.word = word

end ArgumentField

/-- The kinds of literal that a symbol can hold. -/
inductive LiteralKind where
  /-- Text that ends with a zero byte. -/
  | description
  /-- A byte count of two bytes, the lower one first. -/
  | size
  /-- One byte: an index into the type table. -/
  | type
  /-- One byte: an offset into the argument overlay. -/
  | offset
  deriving DecidableEq, Repr

/-- What a symbol tells about the model. -/
inductive Role where
  /-- The symbol declares that a module exists. -/
  | marker (module : ModulePath)
  | moduleField (module : ModulePath) (field : ModuleField)
  | inputField (module : ModulePath) (input : String) (field : InputField)
  | procedureField (module : ModulePath) (procedure : String) (field : ProcedureField)
  | argumentField (module : ModulePath) (procedure argument : String) (field : ArgumentField)
  /-- The symbol tells nothing. -/
  | irrelevant
  deriving DecidableEq, Repr

/-- An entity of the model within its module. -/
inductive Member where
  /-- The module itself. -/
  | self
  | input (name : String)
  | procedure (name : String)
  | argument (procedure name : String)
  deriving DecidableEq, Repr

namespace Role

/-- The entity that a field belongs to: its module and its place there. -/
def owner? : Role → Option (ModulePath × Member)
  | marker _ => none
  | moduleField module _ => some (module, .self)
  | inputField module input _ => some (module, .input input)
  | procedureField module procedure _ => some (module, .procedure procedure)
  | argumentField module procedure argument _ => some (module, .argument procedure argument)
  | irrelevant => none

/-- Whether the value is a pointer, which the object file keeps as a relocation record. -/
def isPointer : Role → Bool
  | moduleField _ .callable | moduleField _ .address => true
  | inputField _ _ .callable | inputField _ _ .address => true
  | procedureField _ _ .callable => true
  | _ => false

/-- The kind of literal that the section of the symbol holds, if it holds one. -/
def literalKind? : Role → Option LiteralKind
  | moduleField _ .description => some .description
  | inputField _ _ .description => some .description
  | inputField _ _ .size => some .size
  | inputField _ _ .type => some .type
  | procedureField _ _ .description => some .description
  | argumentField _ _ _ .description => some .description
  | argumentField _ _ _ .size => some .size
  | argumentField _ _ _ .type => some .type
  | argumentField _ _ _ .offset => some .offset
  | _ => none

/-- The segments behind the module path in the name of a symbol with this role. -/
def tokens (m : Markers) : Role → List String
  | marker _ => [m.module]
  | moduleField _ field => [m.info, field.word]
  | inputField _ input field => [m.inputs, input, m.info, field.word]
  | procedureField _ procedure field => [m.procedure, procedure, m.info, field.word]
  | argumentField _ procedure argument field =>
    [m.procedure, procedure, m.arguments, argument, m.info, field.word]
  | irrelevant => []

/-- The module that a role speaks of. -/
def module? : Role → Option ModulePath
  | marker module => some module
  | role => role.owner?.map Prod.fst

/-- The name of a symbol with this role. -/
def declaration (m : Markers) (role : Role) : String :=
  match role.module? with
  | some module => m.namespaceText ++ Text.qualified (module.text :: role.tokens m)
  | none => ""

end Role

end FirmwareModel
