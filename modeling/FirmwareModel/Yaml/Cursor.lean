import FirmwareModel.Yaml.Node

/-!
# Reading positions and scalars of YAML

A cursor is a position in a YAML text: what is still to be read, the column, and whether only blanks
stand before it on its line. The functions here take blank space or one scalar off it. Breaks
inside scalars are folded: a single one becomes a space, and of several the first is dropped.
-/

namespace FirmwareModel.Yaml

open FirmwareModel.Text

/-- The characters that a YAML text may hold. -/
def isAllowed (c : Char) : Bool :=
  let n := c.toNat
  n == 0x09 || n == 0x0A || n == 0x0D || (0x20 ≤ n && n ≤ 0x7E) || n == 0x85 ||
    (0xA0 ≤ n && n ≤ 0xFFFD) || 0x10000 ≤ n

/-- The text with one form of line break for all that mean the same. -/
def normalizeBreaks : List Char → List Char
  | [] => []
  | '\r' :: '\n' :: rest => '\n' :: normalizeBreaks rest
  | c :: rest => (if c == '\r' || c == '\u0085' then '\n' else c) :: normalizeBreaks rest

/-- Whether a character is a space or a tab. -/
def isSpaceOrTab (c : Char) : Bool :=
  c == ' ' || c == '\t'

/-- The indicators that structure flow collections. -/
def isFlowIndicator (c : Char) : Bool :=
  c == ',' || c == '[' || c == ']' || c == '\x7b' || c == '\x7d'

/-- A position in a text. -/
structure Cursor where
  rest : List Char
  column : Nat := 0
  /-- Only blanks stand before the position on its line. -/
  fresh : Bool := true

namespace Cursor

/-- The position after that many characters of the same line. -/
def advance (c : Cursor) (count : Nat) : Cursor :=
  { rest := c.rest.drop count, column := c.column + count, fresh := false }

/-- Whether the mark of a document begins here. -/
def atDocumentMark (c : Cursor) : Bool :=
  c.column == 0 &&
    match c.rest with
    | '-' :: '-' :: '-' :: rest => endsWord rest
    | '.' :: '.' :: '.' :: rest => endsWord rest
    | _ => false

/-- Whether nothing more of the document follows. -/
def atEnd (c : Cursor) : Bool :=
  c.rest.isEmpty || c.atDocumentMark

/-- Whether the given indicator stands here by itself. -/
def atIndicator (c : Cursor) (indicator : Char) : Bool :=
  match c.rest with
  | first :: rest => first == indicator && endsWord rest
  | [] => false

/-- The position after blanks, breaks and comments. Tabs count as blanks on the line of the
position if `tabs`, and on later lines in flow style only. -/
def skipBlank (flow : Bool) (tabs comment : Bool) (column : Nat) (fresh : Bool) :
    List Char → Cursor
  | [] => { rest := [], column, fresh }
  | c :: rest =>
    if isBreak c then skipBlank flow flow false 0 true rest
    else if comment || c == ' ' || (tabs && c == '\t') then
      skipBlank flow tabs comment (column + 1) fresh rest
    else if c == '#' then skipBlank flow tabs true (column + 1) fresh rest
    else { rest := c :: rest, column, fresh }

/-- The next position in block style where something stands. -/
def skip (c : Cursor) (tabs : Bool) : Cursor :=
  skipBlank false tabs false c.column c.fresh c.rest

/-- The next position in flow style where something stands. -/
def skipFlow (c : Cursor) : Cursor :=
  skipBlank true true false c.column c.fresh c.rest

/-- The spaces and tabs before the first break, the breaks, and the position after all blanks. -/
def takeBlank (column : Nat) (fresh : Bool) : List Char → List Char × List Char × Cursor
  | [] => ([], [], { rest := [], column, fresh })
  | c :: rest =>
    if isSpaceOrTab c then
      let (blanks, breaks, next) := takeBlank (column + 1) fresh rest
      (if fresh then blanks else c :: blanks, breaks, next)
    else if isBreak c then
      let (_, breaks, next) := takeBlank 0 true rest
      ([], c :: breaks, next)
    else ([], [], { rest := c :: rest, column, fresh })

end Cursor

/-- What the breaks between two lines of a scalar stand for. -/
def foldBreaks : List Char → List Char
  | ['\n'] => [' ']
  | '\n' :: breaks => breaks
  | breaks => breaks

/-- What the blanks and breaks between two parts of a scalar stand for. -/
def foldBlank (blanks breaks : List Char) : List Char :=
  if breaks.isEmpty then blanks else foldBreaks breaks

/-! ## Plain scalars -/

/-- The characters of a plain scalar up to the next blank. A colon before a blank ends them, and in
flow style an indicator of flow collections does. -/
def plainWord (flow : Bool) : List Char → List Char
  | [] => []
  | c :: rest =>
    if isSpaceOrTab c || isBreak c || (c == ':' && endsWord rest) || (flow && isFlowIndicator c)
    then []
    else c :: plainWord flow rest

/-- The text of a plain scalar, whether it has several lines, and the next position where something
stands. In block style its further lines stand in columns from `minColumn` on. -/
def readPlain (flow : Bool) (minColumn : Nat) : Nat → Cursor → Option (List Char × Bool × Cursor)
  | 0, _ => none
  | fuel + 1, c =>
    let word := plainWord flow c.rest
    let ended := c.advance word.length
    if flow && word.getLast? == some ':' && ended.rest.head?.any isFlowIndicator then none
    else
      let (blanks, breaks, next) := Cursor.takeBlank ended.column false ended.rest
      let stops :=
        next.atEnd || next.rest.head? == some '#' || (plainWord flow next.rest).isEmpty ||
          (!flow && next.fresh && next.column < minColumn)
      if stops then some (word, false, next)
      else
        (readPlain flow minColumn fuel next).map fun (more, _, last) =>
          (word ++ foldBlank blanks breaks ++ more, !breaks.isEmpty, last)

/-! ## Quoted scalars -/

/-- The character of an escape with a hexadecimal number of that many digits. -/
def numericEscape? (digits : Nat) (s : List Char) : Option Char := do
  if s.length < digits then none
  else
    let n ← continueNumeral? 16 0 (s.take digits)
    if n.isValidChar then some (Char.ofNat n) else none

/-- The character of an escape between double quotes, and the number of characters after the
backslash that it takes up. -/
def escapedChar? : List Char → Option (Char × Nat)
  | [] => none
  | 'x' :: rest => (numericEscape? 2 rest).map (·, 3)
  | 'u' :: rest => (numericEscape? 4 rest).map (·, 5)
  | 'U' :: rest => (numericEscape? 8 rest).map (·, 9)
  | c :: _ =>
    ([('0', '\x00'), ('a', '\x07'), ('b', '\x08'), ('t', '\t'), ('\t', '\t'), ('n', '\n'),
      ('v', '\x0b'), ('f', '\x0c'), ('r', '\r'), ('e', '\x1b'), (' ', ' '), ('"', '"'),
      ('/', '/'), ('\\', '\\'), ('N', '\u0085'), ('_', '\u00a0'), ('L', '\u2028'),
      ('P', '\u2029')].lookup c).map (·, 1)

/-- The text of a quoted scalar from a position inside it, whether it has several lines, and the
position after its closing quote. -/
def readQuoted (double : Bool) : Nat → Cursor → Option (List Char × Bool × Cursor)
  | 0, _ => none
  | fuel + 1, c =>
    let continueWith (part : List Char) (broken : Bool) (next : Cursor) :=
      (readQuoted double fuel next).map fun (more, several, last) =>
        (part ++ more, broken || several, last)
    if c.atDocumentMark then none
    else
      match c.rest with
      | [] => none
      | ch :: rest =>
        if isSpaceOrTab ch || isBreak ch then
          let (blanks, breaks, next) := Cursor.takeBlank c.column false c.rest
          continueWith (foldBlank blanks breaks) (!breaks.isEmpty) next
        else if double then
          if ch == '"' then some ([], false, c.advance 1)
          else if ch == '\\' then
            if rest.head?.any isBreak then
              let (_, breaks, next) := Cursor.takeBlank 0 true rest.tail
              continueWith breaks true next
            else
              (escapedChar? rest).bind fun (escaped, count) =>
                continueWith [escaped] false (c.advance (count + 1))
          else continueWith [ch] false (c.advance 1)
        else if ch == '\'' then
          if rest.head? == some '\'' then continueWith ['\''] false (c.advance 2)
          else some ([], false, c.advance 1)
        else continueWith [ch] false (c.advance 1)

/-! ## Block scalars -/

/-- What the header of a block scalar says. -/
structure BlockHeader where
  /-- The indentation in addition to that of the parent, if it is given. -/
  increment : Option Nat := none
  /-- Whether all breaks at the end are kept, or none, if that is given. -/
  keepsEnd : Option Bool := none

/-- The header of a block scalar, and what follows it on its line. -/
def readBlockHeader : List Char → Option (BlockHeader × List Char)
  | '+' :: c :: rest =>
    if c == '0' then none
    else if isDecimalDigit c then some (⟨digitIn? 10 c, some true⟩, rest)
    else some (⟨none, some true⟩, c :: rest)
  | '-' :: c :: rest =>
    if c == '0' then none
    else if isDecimalDigit c then some (⟨digitIn? 10 c, some false⟩, rest)
    else some (⟨none, some false⟩, c :: rest)
  | c :: rest =>
    if c == '0' then none
    else if isDecimalDigit c then
      match rest with
      | '+' :: rest => some (⟨digitIn? 10 c, some true⟩, rest)
      | '-' :: rest => some (⟨digitIn? 10 c, some false⟩, rest)
      | rest => some (⟨digitIn? 10 c, none⟩, rest)
    else if c == '+' then some (⟨none, some true⟩, rest)
    else if c == '-' then some (⟨none, some false⟩, rest)
    else some ({}, c :: rest)
  | [] => some ({}, [])

/-- The breaks and the indentation before the next line of a block scalar, and the position there.
Spaces are taken up to the given column, or all of them when it is not yet known; the greatest
column that they reach is returned, too. -/
def takeIndentation (limit : Option Nat) (column greatest : Nat) :
    List Char → List Char × Nat × Cursor
  | [] => ([], max greatest column, { rest := [], column })
  | c :: rest =>
    if c == ' ' && limit.all (column < ·) then takeIndentation limit (column + 1) greatest rest
    else if isBreak c then
      let (breaks, deepest, next) := takeIndentation limit 0 (max greatest column) rest
      (c :: breaks, deepest, next)
    else ([], max greatest column, { rest := c :: rest, column })

/-- The lines of a block scalar whose indentation is known, from the start of the text of a line on.
The breaks before that line are `before`, and what was before them began with a blank if
`afterBlank`. The result ends with the last line; the breaks after it are returned apart. -/
def readBlockLines (literal : Bool) (indent : Nat) (afterBlank : Bool) (lead before : List Char) :
    Nat → Cursor → Option (List Char × List Char × List Char × Cursor)
  | 0, _ => none
  | fuel + 1, c =>
    if c.column != indent || c.rest.isEmpty then some ([], lead, before, c)
    else
      let blank := c.rest.head?.any isSpaceOrTab
      let joint :=
        if !literal && lead == ['\n'] && !afterBlank && !blank then
          if before.isEmpty then [' '] else before
        else lead ++ before
      let line := c.rest.takeWhile fun ch => !isBreak ch
      let after := c.rest.drop line.length
      let (breaks, _, next) := takeIndentation (some indent) 0 0 after.tail
      (readBlockLines literal indent blank (after.take 1) breaks fuel next).map
        fun (text, lead, trailing, last) => (joint ++ line ++ text, lead, trailing, last)

/-- A block scalar after its indicator, given the column of the collection around it. -/
def readBlockScalar (literal : Bool) (parent : Option Nat) (fuel : Nat) (c : Cursor) :
    Option (List Char × Cursor) := do
  let (header, afterHeader) ← readBlockHeader c.rest
  let behind := afterHeader.dropWhile isSpaceOrTab
  let behind :=
    if behind.head? == some '#' then behind.dropWhile fun ch => !isBreak ch else behind
  if !behind.head?.all isBreak then none
  else
    let known := header.increment.map (· + parent.getD 0)
    let (breaks, deepest, first) := takeIndentation known 0 0 behind.tail
    let least := match parent with
      | some column => column + 1
      | none => 1
    let indent := known.getD (max deepest least)
    if known.all (first.column < ·) && first.rest.head? == some '\t' then none
    else
      let (text, lead, trailing, last) ←
        readBlockLines literal indent false [] breaks fuel { first with fresh := true }
      let ending := match header.keepsEnd with
        | some true => lead ++ trailing
        | some false => []
        | none => lead
      return (text ++ ending, { last with fresh := true })

end FirmwareModel.Yaml
