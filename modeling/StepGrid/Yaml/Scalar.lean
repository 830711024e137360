import StepGrid.Yaml.Token

/-! The text of scalars in each style. Lines of a scalar are folded: a single break
becomes a space, and of several breaks all but the first stay. -/

namespace StepGrid.Yaml

/-- A malformed text; nothing is said about what is wrong with it. -/
inductive Malformed where
  | malformed
deriving DecidableEq, Repr

/-- Blanks and breaks since the last visible character of a scalar, in reverse. An
escaped break starts a gap without a first break. -/
inductive Gap where
  | none
  | blanks (text : List Char)
  | breaks (first : Option Char) (later : List Char)
deriving DecidableEq, Repr

namespace Gap

/-- The text that a gap amounts to once something follows it. -/
def join : Gap → List Char
  | none => []
  | blanks text => text.reverse
  | breaks first later =>
    if first = some '\n' then if later.isEmpty then [' '] else later.reverse
    else first.toList ++ later.reverse

def blank (gap : Gap) (char : Char) : Gap :=
  match gap with
  | none => blanks [char]
  | blanks text => blanks (char :: text)
  | breaks first later => breaks first later

def lineBreak (gap : Gap) (char : Char) : Gap :=
  match gap with
  | none => breaks (some char) []
  | blanks _ => breaks (some char) []
  | breaks first later => breaks first (char :: later)

def crossesLine : Gap → Bool
  | breaks _ _ => true
  | _ => false

def isNone : Gap → Bool
  | none => true
  | _ => false

end Gap

/-- A scalar that was read, and whether the blanks after it contain a break. -/
structure ScalarEnd where
  text : List Char
  cursor : Cursor
  crossedLine : Bool
deriving Repr

def isFlowIndicator (char : Char) : Bool :=
  char = ',' || char = '[' || char = ']' || char = '\x7b' || char = '\x7d'

/-- Whether a visible character after a gap starts something else. -/
def endsPlainAfterGap (flow : Bool) (indent : Int) (mark : Mark) (text : List Char) : Bool :=
  (!flow && (mark.column : Int) < indent) || (mark.column = 0 && startsDocumentMark text) ||
    text.head? = some '#'

/-- A colon in a flow collection must not touch an indicator. -/
def isMisplacedColon (flow : Bool) (char : Char) (rest : List Char) : Bool :=
  flow && char = ':' && rest.head?.any fun next => isFlowIndicator next || next = '?'

def endsPlain (flow : Bool) (char : Char) (rest : List Char) : Bool :=
  (char = ':' && endsWord rest) || (flow && isFlowIndicator char)

/-- A plain scalar whose text so far is in reverse. In a block its lines are indented at
least to the given column. -/
def plainScalar (flow : Bool) (indent : Int) (taken : List Char) (gap : Gap) (mark : Mark) :
    List Char → Except Malformed ScalarEnd
  | [] => .ok ⟨taken.reverse, ⟨[], mark⟩, gap.crossesLine⟩
  | char :: rest =>
    if isBlank char then
      if gap.crossesLine && (mark.column : Int) < indent && char = '\t' then .error .malformed
      else plainScalar flow indent taken (gap.blank char) (mark.after char) rest
    else if isBreak char then
      plainScalar flow indent taken (gap.lineBreak char) (mark.after char) rest
    else if !gap.isNone && endsPlainAfterGap flow indent mark (char :: rest) then
      .ok ⟨taken.reverse, ⟨char :: rest, mark⟩, gap.crossesLine⟩
    else if isMisplacedColon flow char rest then .error .malformed
    else if endsPlain flow char rest then
      .ok ⟨taken.reverse, ⟨char :: rest, mark⟩, gap.crossesLine⟩
    else plainScalar flow indent (char :: (gap.join.reverse ++ taken)) .none (mark.after char) rest

/-- The text after a single quote; a doubled quote stands for one. -/
def singleQuoted (taken : List Char) (gap : Gap) (mark : Mark) :
    List Char → Except Malformed ScalarEnd
  | [] => .error .malformed
  | char :: rest =>
    if isBlank char then singleQuoted taken (gap.blank char) (mark.after char) rest
    else if isBreak char then singleQuoted taken (gap.lineBreak char) (mark.after char) rest
    else if !gap.isNone && mark.column = 0 && startsDocumentMark (char :: rest) then .error .malformed
    else if char = '\'' then
      match rest with
      | '\'' :: after =>
        singleQuoted ('\'' :: (gap.join.reverse ++ taken)) .none ((mark.after char).after '\'') after
      | _ => .ok ⟨(gap.join.reverse ++ taken).reverse, ⟨rest, mark.after char⟩, false⟩
    else singleQuoted (char :: (gap.join.reverse ++ taken)) .none (mark.after char) rest

/-- The character of an escape of one letter. -/
def escaped? : Char → Option Char
  | '0' => some '\x00'
  | 'a' => some '\x07'
  | 'b' => some '\x08'
  | 't' => some '\t'
  | '\t' => some '\t'
  | 'n' => some '\n'
  | 'v' => some '\x0b'
  | 'f' => some '\x0c'
  | 'r' => some '\r'
  | 'e' => some '\x1b'
  | ' ' => some ' '
  | '"' => some '"'
  | '/' => some '/'
  | '\\' => some '\\'
  | 'N' => some '\u0085'
  | '_' => some '\u00a0'
  | 'L' => some '\u2028'
  | 'P' => some '\u2029'
  | _ => none

/-- The number of hexadecimal digits after an escape letter. -/
def escapeWidth? : Char → Option Nat
  | 'x' => some 2
  | 'u' => some 4
  | 'U' => some 8
  | _ => none

def hexDigit? (char : Char) : Option Nat :=
  if '0' ≤ char ∧ char ≤ '9' then some (char.toNat - '0'.toNat)
  else if 'a' ≤ char ∧ char ≤ 'f' then some (char.toNat - 'a'.toNat + 10)
  else if 'A' ≤ char ∧ char ≤ 'F' then some (char.toNat - 'A'.toNat + 10)
  else none

/-- Where the reader of a double-quoted scalar stands in an escape. -/
inductive Escape where
  | outside
  | letter
  | digits (left : Nat) (code : Nat)
deriving DecidableEq, Repr

/-- The text after a double quote. -/
def doubleQuoted (escape : Escape) (taken : List Char) (gap : Gap) (mark : Mark) :
    List Char → Except Malformed ScalarEnd
  | [] => .error .malformed
  | char :: rest =>
    match escape with
    | .digits left code =>
      match hexDigit? char with
      | none => .error .malformed
      | some digit =>
        let code := code * 16 + digit
        if 1 < left then doubleQuoted (.digits (left - 1) code) taken gap (mark.after char) rest
        else if code.isValidChar then
          doubleQuoted .outside (Char.ofNat code :: taken) gap (mark.after char) rest
        else .error .malformed
    | .letter =>
      if isBreak char then doubleQuoted .outside taken (.breaks none []) (mark.after char) rest
      else
        match escapeWidth? char, escaped? char with
        | some width, _ => doubleQuoted (.digits width 0) taken gap (mark.after char) rest
        | none, some value => doubleQuoted .outside (value :: taken) gap (mark.after char) rest
        | none, none => .error .malformed
    | .outside =>
      if isBlank char then doubleQuoted .outside taken (gap.blank char) (mark.after char) rest
      else if isBreak char then doubleQuoted .outside taken (gap.lineBreak char) (mark.after char) rest
      else if !gap.isNone && mark.column = 0 && startsDocumentMark (char :: rest) then
        .error .malformed
      else if char = '"' then
        .ok ⟨(gap.join.reverse ++ taken).reverse, ⟨rest, mark.after char⟩, false⟩
      else if char = '\\' then
        doubleQuoted .letter (gap.join.reverse ++ taken) .none (mark.after char) rest
      else doubleQuoted .outside (char :: (gap.join.reverse ++ taken)) .none (mark.after char) rest

/-- What becomes of the breaks at the end of a block scalar. -/
inductive Chomping where
  | strip
  | clip
  | keep
deriving DecidableEq, Repr

structure BlockHeader where
  chomping : Chomping := .clip
  increment : Nat := 0
  rest : List Char
deriving Repr

def chomping? : Char → Option Chomping
  | '+' => some .keep
  | '-' => some .strip
  | _ => none

/-- The indicators of a block scalar, in either order. -/
def blockHeader : List Char → BlockHeader
  | first :: rest =>
    match chomping? first, rest with
    | some chomping, digit :: after =>
      if digit.isDigit then ⟨chomping, digit.toNat - '0'.toNat, after⟩ else ⟨chomping, 0, rest⟩
    | some chomping, [] => ⟨chomping, 0, []⟩
    | none, sign :: after =>
      if first.isDigit then
        match chomping? sign with
        | some chomping => ⟨chomping, first.toNat - '0'.toNat, after⟩
        | none => ⟨.clip, first.toNat - '0'.toNat, rest⟩
      else ⟨.clip, 0, first :: rest⟩
    | none, [] => if first.isDigit then ⟨.clip, first.toNat - '0'.toNat, []⟩ else ⟨.clip, 0, [first]⟩
  | [] => ⟨.clip, 0, []⟩

/-- The lines of a block scalar so far. The column of its text is zero until the first
visible line shows it. -/
structure BlockLines where
  column : Nat
  deepest : Nat
  taken : List Char
  first : Option Char
  later : List Char
  afterBlank : Bool
deriving Repr

namespace BlockLines

def isShallow (lines : BlockLines) (mark : Mark) : Bool :=
  lines.column = 0 || mark.column < lines.column

/-- A line starts with a visible character or a blank of its own. -/
def beginLine (lines : BlockLines) (literal : Bool) (char : Char) : BlockLines :=
  let folds := !literal && lines.first = some '\n' && !lines.afterBlank && !isBlank char
  let joint := if folds then if lines.later.isEmpty then [' '] else [] else lines.first.toList
  { lines with
    taken := char :: (lines.later ++ joint.reverse ++ lines.taken)
    first := none
    later := []
    afterBlank := isBlank char }

def text (lines : BlockLines) (chomping : Chomping) : List Char :=
  lines.taken.reverse ++ (if chomping = .strip then [] else lines.first.toList) ++
    (if chomping = .keep then lines.later.reverse else [])

end BlockLines

/-- The lines of a block scalar, which stand at the least column or deeper. -/
def blockLines (literal : Bool) (least : Nat) (inLine : Bool) (lines : BlockLines) (mark : Mark) :
    List Char → Except Malformed (BlockLines × Cursor)
  | [] => .ok (lines, ⟨[], mark⟩)
  | char :: rest =>
    if inLine then
      if isBreak char then
        blockLines literal least false { lines with first := some char } (mark.after char) rest
      else
        blockLines literal least true { lines with taken := char :: lines.taken } (mark.after char) rest
    else if char = ' ' && lines.isShallow mark then
      blockLines literal least false lines (mark.after char) rest
    else if char = '\t' && lines.isShallow mark then .error .malformed
    else
      let deepest := max lines.deepest mark.column
      if isBreak char then
        blockLines literal least false { lines with deepest, later := char :: lines.later }
          (mark.after char) rest
      else
        let column := if lines.column = 0 then max deepest least else lines.column
        if mark.column = column then
          blockLines literal least true ({ lines with column }.beginLine literal char) (mark.after char) rest
        else .ok (lines, ⟨char :: rest, mark⟩)

/-- A block scalar after its indicator, in a block at the given indentation. -/
def blockScalar (literal : Bool) (indent : Int) (cursor : Cursor) :
    Except Malformed ScalarEnd :=
  let header := blockHeader cursor.rest
  let sized := cursor.skip (cursor.rest.length - header.rest.length)
  let blank := sized.skipRun isBlank
  let line := if blank.rest.head? = some '#' then blank.skipRun (!isBreak ·) else blank
  if (cursor.rest.take (cursor.rest.length - header.rest.length)).contains '0' then .error .malformed
  else if !(line.rest.head?.all isBreak) then .error .malformed
  else do
    let start := line.skip 1
    let column := if header.increment = 0 then 0 else (max indent 0).toNat + header.increment
    let (lines, after) ← blockLines literal (max (indent + 1) 1).toNat false
      ⟨column, 0, [], none, [], false⟩ start.mark start.rest
    return ⟨lines.text header.chomping, after, false⟩

end StepGrid.Yaml
