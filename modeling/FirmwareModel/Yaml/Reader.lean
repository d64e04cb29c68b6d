import FirmwareModel.Yaml.Cursor

/-!
# Reading YAML

One document in block or flow style, with comments, anchors, aliases and tags. Collections in block
style are structured by columns: what belongs to a collection stands further right than the column
of the collection around it, except that the items of a sequence may stand at the column of the
name that the sequence belongs to.
-/

namespace FirmwareModel.Yaml

/-- A position in a text, with the nodes that have been given names before it. -/
structure State where
  cursor : Cursor
  anchors : List (List Char × Node) := []

/-- The state at another position. -/
def State.at (s : State) (cursor : Cursor) : State :=
  { s with cursor }

/-- The name and the text of the tag that a node is given. -/
structure Properties where
  anchor : Option (List Char) := none
  tag : Option (List Char) := none

/-- Whether no property is given. -/
def Properties.isEmpty (p : Properties) : Bool :=
  p.anchor.isNone && p.tag.isNone

/-- A node with its properties, and the state in which its name is known. -/
def Properties.apply (p : Properties) (node : Node) (s : State) : Node × State :=
  let node :=
    match node with
    | .scalar plain tag text => .scalar plain ((p.tag.bind Tag.ofText?).or tag) text
    | node => node
  match p.anchor with
  | some name => (node, { s with anchors := (name, node) :: s.anchors })
  | none => (node, s)

/-- The characters of names of nodes. -/
def isNameChar (c : Char) : Bool :=
  Text.isSymbolChar c || c == '-'

/-- A name of a node, which has to end where a name can end. -/
def readName? (s : List Char) : Option (List Char) :=
  let name := s.takeWhile isNameChar
  let after := s.drop name.length
  if name.isEmpty then none
  else if endsWord after || after.head?.any (fun c => "?:,]\x7d%@`".toList.contains c) then some name
  else none

/-- The characters that a tag is made of; one between angle brackets has some more. -/
def isTagChar (bracketed : Bool) (c : Char) : Bool :=
  isNameChar c || ";/?:@&=+$.!~*'()%".toList.contains c ||
    (bracketed && "<>,[]".toList.contains c)

/-- The text of a tag behind its mark, which has to end where a tag can end. No handles are known
that the document would have to define. -/
def readTag? (flow : Bool) (s : List Char) : Option (List Char) :=
  let bracketed := s.head? == some '<'
  let tag := s.takeWhile (isTagChar bracketed)
  let after := s.drop tag.length
  let handled := s.head? != some '!' && (s.dropWhile isNameChar).head? == some '!'
  let closed := if bracketed then tag.getLast? == some '>' else tag.getLast? != some '!'
  if closed && !handled && (endsWord after || (flow && after.head? == some ',')) then some tag
  else none

/-- The properties at a position, and the position of what they belong to. -/
def readProperties (flow : Bool) : Nat → Properties → Cursor → Option (Properties × Cursor)
  | 0, _, _ => none
  | fuel + 1, p, c =>
    let next (count : Nat) : Cursor :=
      let after := c.advance count
      if flow then after.skipFlow else after.skip true
    match c.rest with
    | '&' :: rest =>
      if p.anchor.isSome then none
      else
        (readName? rest).bind fun name =>
          readProperties flow fuel { p with anchor := some name } (next (name.length + 1))
    | '!' :: rest =>
      if p.tag.isSome then none
      else
        (readTag? flow rest).bind fun tag =>
          readProperties flow fuel { p with tag := some tag } (next (tag.length + 1))
    | _ => some (p, c)

/-- Whether a plain scalar can begin with the rest of a text. -/
def startsPlain (flow : Bool) : List Char → Bool
  | [] => false
  | c :: rest =>
    if c == '-' then !endsWord rest
    else if c == '?' || c == ':' then !flow && !endsWord rest
    else !(isSpaceOrTab c || isBreak c || isIndicator c)

/-- Whether a position behind a node makes the node the name of a member. -/
def Cursor.atNameEnd (c : Cursor) : Bool :=
  !c.fresh && c.atIndicator ':'

/-- Whether a position lies too far left for what belongs to a collection. -/
def Cursor.leaves (c : Cursor) (parent : Option Nat) : Bool :=
  c.fresh && parent.any (c.column ≤ ·)

mutual

/-- A node that needs no lines of its own: an alias, a flow collection, or a quoted or plain scalar.
Also whether it has several lines; the position after it is behind blanks. -/
def readInline (flow : Bool) (parent : Option Nat) :
    Nat → State → Option (Node × Bool × State)
  | 0, _ => none
  | fuel + 1, s =>
    let c := s.cursor
    let behind (last : Cursor) : State :=
      s.at (last.advance (last.rest.takeWhile isSpaceOrTab).length)
    match c.rest with
    | '*' :: rest =>
      (readName? rest).bind fun name =>
        (s.anchors.lookup name).map fun node => (node, false, behind (c.advance (name.length + 1)))
    | '"' :: _ =>
      (readQuoted true fuel (c.advance 1)).map fun (text, several, last) =>
        (.scalar false none text, several, behind last)
    | '\'' :: _ =>
      (readQuoted false fuel (c.advance 1)).map fun (text, several, last) =>
        (.scalar false none text, several, behind last)
    | '[' :: _ =>
      (readFlowItems fuel (s.at (c.advance 1))).map fun (items, last) =>
        (.sequence items, false,
          last.at (last.cursor.advance (last.cursor.rest.takeWhile isSpaceOrTab).length))
    | '\x7b' :: _ =>
      (readFlowMembers fuel (s.at (c.advance 1))).map fun (members, last) =>
        (.mapping members, false,
          last.at (last.cursor.advance (last.cursor.rest.takeWhile isSpaceOrTab).length))
    | rest =>
      if startsPlain flow rest then
        let minColumn := match parent with
          | some column => column + 1
          | none => 0
        (readPlain flow minColumn fuel c).map fun (text, several, last) =>
          (.scalar true none text, several, s.at last)
      else none

/-- A node in flow style, which is empty where none is written. -/
def readFlowNode : Nat → State → Option (Node × State)
  | 0, _ => none
  | fuel + 1, s => do
    let (p, c) ← readProperties true fuel {} s.cursor.skipFlow
    if c.rest.head?.any fun ch => ch == ',' || ch == ']' || ch == '\x7d' || ch == ':' then
      if p.isEmpty then none else some (p.apply .empty (s.at c))
    else
      let (node, _, last) ← readInline true none fuel (s.at c)
      return p.apply node last

/-- The value behind the colon of a pair in flow style, which may be left out. -/
def readFlowValue : Nat → State → Option (Node × State)
  | 0, _ => none
  | fuel + 1, s =>
    let c := s.cursor.skipFlow
    if c.rest.head?.any fun ch => ch == ',' || ch == ']' || ch == '\x7d' then
      some (.empty, s.at c)
    else readFlowNode fuel (s.at c)

/-- A pair in flow style, whose value may be left out along with the colon. Also whether there was a
colon. -/
def readFlowPair : Nat → State → Option (Node × Node × Bool × State)
  | 0, _ => none
  | fuel + 1, s => do
    let marked := s.cursor.atIndicator '?'
    let s := if marked then s.at (s.cursor.advance 1).skipFlow else s
    let (name, s) ←
      if marked && s.cursor.rest.head? == some ':' then some (.empty, s) else readFlowNode fuel s
    let c := s.cursor.skipFlow
    if c.rest.head? == some ':' then
      let (value, s) ← readFlowValue fuel (s.at (c.advance 1))
      return (name, value, true, s)
    else return (name, .empty, marked, s.at c)

/-- The items of a sequence in flow style up to its closing bracket. -/
def readFlowItems : Nat → State → Option (List Node × State)
  | 0, _ => none
  | fuel + 1, s =>
    let c := s.cursor.skipFlow
    if c.rest.head? == some ']' then some ([], s.at (c.advance 1))
    else do
      let (name, value, paired, s) ← readFlowPair fuel (s.at c)
      let item := if paired then .mapping [(name, value)] else name
      let c := s.cursor.skipFlow
      match c.rest with
      | ',' :: _ =>
        let (items, s) ← readFlowItems fuel (s.at (c.advance 1))
        return (item :: items, s)
      | ']' :: _ => return ([item], s.at (c.advance 1))
      | _ => none

/-- The members of a mapping in flow style up to its closing brace. -/
def readFlowMembers : Nat → State → Option (List (Node × Node) × State)
  | 0, _ => none
  | fuel + 1, s =>
    let c := s.cursor.skipFlow
    if c.rest.head? == some '\x7d' then some ([], s.at (c.advance 1))
    else do
      let (name, value, _, s) ← readFlowPair fuel (s.at c)
      let c := s.cursor.skipFlow
      match c.rest with
      | ',' :: _ =>
        let (members, s) ← readFlowMembers fuel (s.at (c.advance 1))
        return ((name, value) :: members, s)
      | '\x7d' :: _ => return ([(name, value)], s.at (c.advance 1))
      | _ => none

/-- A node in block style behind an indicator of a collection at column `parent`. A collection may
begin on the line of the indicator if `compact`, and a sequence may stand at the column of the
indicator if `level`. -/
def readBlockNode (parent : Option Nat) (compact level : Bool) :
    Nat → State → Option (Node × State)
  | 0, _ => none
  | fuel + 1, s => do
    let start := s.cursor.skip (!compact)
    let left (c : Cursor) (p : Properties) : Option (Node × State) :=
      if level && !c.atEnd && parent == some c.column && c.atIndicator '-' then do
        let (items, last) ← readItems c.column fuel (s.at c)
        return p.apply (.sequence items) last
      else some (p.apply .empty (s.at c))
    if start.atEnd || start.leaves parent then left start {}
    else
      let (p, c) ← readProperties false fuel {} start
      if !p.isEmpty && (c.atEnd || c.leaves parent) then left c p
      else if !p.isEmpty && c.fresh then
        let (node, last) ← readContent parent true c {} fuel (s.at c)
        return p.apply node last
      else readContent parent (compact || start.fresh) start p fuel (s.at c)

/-- A node in block style whose first character stands at the position, behind its properties on the
same line. If it is the name of a member, a mapping begins at `start`, and the properties are those
of the name. -/
def readContent (parent : Option Nat) (compact : Bool) (start : Cursor) (p : Properties) :
    Nat → State → Option (Node × State)
  | 0, _ => none
  | fuel + 1, s =>
    let c := s.cursor
    let mapping : Option (Node × State) :=
      if compact then
        (readMembers start.column fuel (s.at start)).map fun (members, last) =>
          (.mapping members, last)
      else none
    if c.atIndicator '-' then
      if compact && p.isEmpty then
        (readItems c.column fuel s).map fun (items, last) => (.sequence items, last)
      else none
    else if c.atIndicator '?' || c.atIndicator ':' then if p.isEmpty then mapping else none
    else if c.rest.head?.any fun ch => ch == '|' || ch == '>' then
      (readBlockScalar (c.rest.head? == some '|') parent fuel (c.advance 1)).map
        fun (text, last) => p.apply (.scalar false none text) (s.at last)
    else
      (readInline false parent fuel s).bind fun (node, several, last) =>
        if last.cursor.atNameEnd then if several then none else mapping
        else some (p.apply node last)

/-- The items of a sequence in block style at a column, the first of which is at the position. -/
def readItems (column : Nat) : Nat → State → Option (List Node × State)
  | 0, _ => none
  | fuel + 1, s => do
    let (item, s) ← readBlockNode (some column) true false fuel (s.at (s.cursor.advance 1))
    let c := s.cursor.skip false
    if c.atEnd then return ([item], s.at c)
    else if !c.fresh then none
    else if c.column == column && c.atIndicator '-' then
      let (items, s) ← readItems column fuel (s.at c)
      return (item :: items, s)
    else return ([item], s.at c)

/-- The name of a member in block style and the position at its colon, or the position after the
name if that is marked and has no colon. -/
def readMemberName (column : Nat) : Nat → State → Option (Node × Bool × State)
  | 0, _ => none
  | fuel + 1, s =>
    let c := s.cursor
    if c.atIndicator '?' then do
      let (name, s) ← readBlockNode (some column) true true fuel (s.at (c.advance 1))
      let c := s.cursor.skip false
      return (name, c.fresh && c.column == column && c.atIndicator ':', s.at c)
    else if c.atIndicator ':' then some (.empty, true, s)
    else do
      let (p, c) ← readProperties false fuel {} c
      let (node, several, last) ← readInline false (some column) fuel (s.at c)
      if several || !last.cursor.atNameEnd then none
      else
        let (node, last) := p.apply node last
        return (node, true, last)

/-- The members of a mapping in block style at a column, the first of which is at the position. -/
def readMembers (column : Nat) : Nat → State → Option (List (Node × Node) × State)
  | 0, _ => none
  | fuel + 1, s => do
    let (name, hasValue, s) ← readMemberName column fuel s
    let (value, s) ←
      if hasValue then readBlockNode (some column) false true fuel (s.at (s.cursor.advance 1))
      else some (.empty, s)
    let c := s.cursor.skip false
    if c.atEnd || (c.fresh && c.column < column) then return ([(name, value)], s.at c)
    else if c.fresh && c.column == column then
      let (members, s) ← readMembers column fuel (s.at c)
      return ((name, value) :: members, s)
    else none

end

/-- The words of a line before a comment. -/
def lineWords (line : List Char) : List (List Char) :=
  ((line.splitBy fun c d => isSpaceOrTab c == isSpaceOrTab d).filter fun word =>
    !word.all isSpaceOrTab).takeWhile fun word => word.head? != some '#'

/-- The directives of a document. -/
inductive Directive where
  | version
  | tagHandle

/-- The directive that a line is behind its mark: a known version, or what a tag handle means. -/
def Directive.ofLine? (line : List Char) : Option Directive :=
  match (lineWords line).map String.ofList with
  | ["YAML", number] => if number = "1.1" ∨ number = "1.2" then some version else none
  | ["TAG", handle, _] =>
    if handle.toList.head? = some '!' ∧ handle.toList.getLast? = some '!' then some tagHandle
    else none
  | _ => none

/-- The position after the directives of a document, and whether the document is opened by its
mark, which has to follow directives. There is one version at most. -/
def skipDirectives (versioned directed : Bool) (c : Cursor) : Nat → Option (Bool × Cursor)
  | 0 => none
  | fuel + 1 =>
    let c := c.skip false
    if c.column == 0 && c.rest.head? == some '%' then
      let line := c.rest.takeWhile fun ch => !isBreak ch
      let next : Cursor := { rest := c.rest.drop line.length }
      match Directive.ofLine? line.tail with
      | none => none
      | some .version => if versioned then none else skipDirectives true true next fuel
      | some .tagHandle => skipDirectives versioned true next fuel
    else if c.atDocumentMark && c.rest.head? == some '-' then some (true, c.advance 3)
    else if directed then none
    else some (false, c)

/-- Whether only the mark of its end follows a document. -/
def endsDocument (c : Cursor) : Nat → Bool
  | 0 => false
  | fuel + 1 =>
    let c := c.skip true
    if c.rest.isEmpty then true
    else if c.atDocumentMark && c.rest.head? == some '.' then endsDocument (c.advance 3) fuel
    else false

/-- The document that a text is. A text without any document is none, and so is one with several. -/
def read? (text : String) : Option Node :=
  let s := normalizeBreaks text.toList
  if !s.all isAllowed then none
  else
    let s := if s.head? == some '\uFEFF' then s.tail else s
    let fuel := 4 * s.length + 8
    (skipDirectives false false { rest := s } fuel).bind fun (opened, c) =>
      if !opened && c.atEnd then none
      else
        (readBlockNode none (!opened) false fuel { cursor := c }).bind fun (node, last) =>
          if endsDocument last.cursor fuel then some node else none

end FirmwareModel.Yaml
