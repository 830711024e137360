import StepGrid.Yaml.Name

/-! Cutting a YAML text into tokens. A scalar, an alias or a flow collection may turn out
to be a key only when the colon after it is met; until then it is held back, and its key
token goes in front of it. When the text is malformed, the tokens up to those still held
back stand. -/

namespace StepGrid.Yaml

/-- Something that may be a key, by the number of its token. Where a block wants a key, it
has to be one. -/
structure KeyCandidate where
  required : Bool
  number : Nat
  mark : Mark
deriving DecidableEq, Repr

/-- Keys stand on one line and have at most so many bytes. -/
def longestKey : Nat := 1024

def KeyCandidate.isStale (candidate : KeyCandidate) (mark : Mark) : Bool :=
  candidate.mark.line < mark.line || candidate.mark.index + longestKey < mark.index

/-- The tokens so far are in reverse. The columns of the open blocks are innermost first,
and so are the candidates of the flow collections around the current one. A text that is
cut goes on after its end, but in no way that can be read. -/
structure Lexer where
  cut : Bool
  cursor : Cursor
  tokens : List Token
  count : Nat
  released : Nat
  candidate : Option KeyCandidate
  outer : List (Option KeyCandidate)
  columns : List Nat
  keyAllowed : Bool
  finished : Bool
deriving Repr

namespace Lexer

def start (cut : Bool) (text : List Char) : Lexer where
  cut := cut
  cursor := ⟨text, .start⟩
  tokens := []
  count := 0
  released := 0
  candidate := none
  outer := []
  columns := []
  keyAllowed := true
  finished := false

def inFlow (lexer : Lexer) : Bool := !lexer.outer.isEmpty

def mark (lexer : Lexer) : Mark := lexer.cursor.mark

/-- The column of the innermost block, one left of the text when there is none. -/
def indent (lexer : Lexer) : Int := lexer.columns.head?.elim (-1) fun column => column

def push (lexer : Lexer) (kind : Token.Kind) (mark : Mark) : Lexer :=
  { lexer with tokens := ⟨kind, mark⟩ :: lexer.tokens, count := lexer.count + 1 }

/-- Puts a token before the one of the given number. -/
def insert (lexer : Lexer) (number : Nat) (kind : Token.Kind) (mark : Mark) : Lexer :=
  let later := lexer.count - number
  { lexer with
    tokens := lexer.tokens.take later ++ ⟨kind, mark⟩ :: lexer.tokens.drop later
    count := lexer.count + 1 }

def moveTo (lexer : Lexer) (cursor : Cursor) : Lexer := { lexer with cursor }

/-- Pushes a token of some characters and goes past them. -/
def pushPast (lexer : Lexer) (kind : Token.Kind) (width : Nat) : Lexer :=
  (lexer.push kind lexer.mark).moveTo (lexer.cursor.skip width)

def allowKey (lexer : Lexer) (keyAllowed : Bool) : Lexer := { lexer with keyAllowed }

/-- Gives up the candidate at hand. -/
def dropCandidate (lexer : Lexer) : Except Malformed Lexer :=
  if lexer.candidate.any (·.required) then .error .malformed
  else .ok { lexer with candidate := none }

/-- What comes next may be a key. -/
def proposeKey (lexer : Lexer) : Except Malformed Lexer :=
  if lexer.keyAllowed then do
    let required := !lexer.inFlow && lexer.indent == lexer.mark.column
    let lexer ← lexer.dropCandidate
    return { lexer with candidate := some ⟨required, lexer.count, lexer.mark⟩ }
  else .ok lexer

def candidates (lexer : Lexer) : List KeyCandidate := (lexer.candidate :: lexer.outer).filterMap id

/-- Forgets the candidates that have become too long. -/
def dropStale (lexer : Lexer) : Except Malformed Lexer :=
  if lexer.candidates.any fun candidate => candidate.required && candidate.isStale lexer.mark then
    .error .malformed
  else
    let keep (candidate : Option KeyCandidate) := candidate.filter fun known => !known.isStale lexer.mark
    .ok { lexer with candidate := keep lexer.candidate, outer := lexer.outer.map keep }

/-- Opens a block at a column deeper than the innermost one; its token goes before the one
of the given number, or last. -/
def openBlock (lexer : Lexer) (number : Option Nat) (kind : Token.Kind) (mark : Mark) : Lexer :=
  if !lexer.inFlow && lexer.indent < mark.column then
    let opened := match number with
      | some number => lexer.insert number kind mark
      | none => lexer.push kind mark
    { opened with columns := mark.column :: lexer.columns }
  else lexer

/-- Closes the blocks deeper than a column. -/
def closeBlocks (lexer : Lexer) (column : Int) : Lexer :=
  if lexer.inFlow then lexer
  else
    let isDeeper (block : Nat) : Bool := column < block
    let closed := (lexer.columns.takeWhile isDeeper).length
    { lexer with
      tokens := List.replicate closed ⟨.blockEnd, lexer.mark⟩ ++ lexer.tokens
      count := lexer.count + closed
      columns := lexer.columns.dropWhile isDeeper }

/-- Goes to the next visible character outside comments. In a block a key may start after
a break, and before one tabs are no indentation. A byte order mark may start a line. -/
def toVisible (flow allowed comment : Bool) (mark : Mark) : List Char → Bool × Cursor
  | [] => (allowed, ⟨[], mark⟩)
  | char :: rest =>
    if isBreak char then toVisible flow (allowed || !flow) false (mark.after char) rest
    else if comment then toVisible flow allowed true (mark.after char) rest
    else if char = '#' then toVisible flow allowed true (mark.after char) rest
    else if char = ' ' || (char = '\t' && (flow || !allowed)) ||
        (char = '\ufeff' && mark.column = 0) then
      toVisible flow allowed false (mark.after char) rest
    else (allowed, ⟨char :: rest, mark⟩)

def seek (lexer : Lexer) : Lexer :=
  let (keyAllowed, cursor) := toVisible lexer.inFlow lexer.keyAllowed false lexer.mark lexer.cursor.rest
  { lexer with cursor, keyAllowed }

/-- The text ends as if after a last break. -/
def takeEnd (lexer : Lexer) : Except Malformed Lexer := do
  let mark := lexer.mark
  let last : Mark := if mark.column = 0 then mark else ⟨mark.line + 1, 0, mark.index⟩
  let lexer := (lexer.moveTo ⟨lexer.cursor.rest, last⟩).closeBlocks (-1)
  let lexer ← lexer.dropCandidate
  return { (lexer.allowKey false).push .streamEnd last with finished := true }

/-- Between documents no block is open and nothing is a key. -/
def leaveDocument (lexer : Lexer) : Except Malformed Lexer := do
  return (← (lexer.closeBlocks (-1)).dropCandidate).allowKey false

def takeDirective (lexer : Lexer) : Except Malformed Lexer := do
  let lexer ← lexer.leaveDocument
  let (kind, rest) ← directive (lexer.cursor.rest.drop 1)
  return (lexer.push kind lexer.mark).moveTo
    (lexer.cursor.skip (lexer.cursor.rest.length - rest.length))

def takeDocumentMark (lexer : Lexer) (kind : Token.Kind) : Except Malformed Lexer := do
  return (← lexer.leaveDocument).pushPast kind 3

def openFlow (lexer : Lexer) (kind : Token.Kind) : Except Malformed Lexer := do
  let lexer ← lexer.proposeKey
  let inner := { lexer with candidate := none, outer := lexer.candidate :: lexer.outer }
  return (inner.allowKey true).pushPast kind 1

def closeFlow (lexer : Lexer) (kind : Token.Kind) : Except Malformed Lexer := do
  let lexer ← lexer.dropCandidate
  let surrounding := match lexer.outer with
    | [] => lexer
    | candidate :: outer => { lexer with candidate, outer }
  return (surrounding.allowKey false).pushPast kind 1

def takeFlowEntry (lexer : Lexer) : Except Malformed Lexer := do
  return ((← lexer.dropCandidate).allowKey true).pushPast .flowEntry 1

/-- An indicator that opens a block where one may start. -/
def startBlock (lexer : Lexer) (kind : Token.Kind) : Except Malformed Lexer :=
  if lexer.inFlow then .ok lexer
  else if lexer.keyAllowed then .ok (lexer.openBlock none kind lexer.mark)
  else .error .malformed

def takeBlockEntry (lexer : Lexer) : Except Malformed Lexer := do
  let lexer ← (← lexer.startBlock .blockSequence).dropCandidate
  return (lexer.allowKey true).pushPast .blockEntry 1

def takeKey (lexer : Lexer) : Except Malformed Lexer := do
  let lexer ← (← lexer.startBlock .blockMapping).dropCandidate
  return (lexer.allowKey !lexer.inFlow).pushPast .key 1

/-- A colon makes a key of the candidate before it. -/
def takeValue (lexer : Lexer) : Except Malformed Lexer :=
  match lexer.candidate with
  | some candidate =>
    let keyed := lexer.insert candidate.number .key candidate.mark
    let opened := keyed.openBlock (some candidate.number) .blockMapping candidate.mark
    .ok ((({ opened with candidate := none }).allowKey false).pushPast .value 1)
  | none => do
    let lexer ← lexer.startBlock .blockMapping
    return (lexer.allowKey !lexer.inFlow).pushPast .value 1

def takeAnchor (lexer : Lexer) (kind : List Char → Token.Kind) : Except Malformed Lexer := do
  let lexer ← lexer.proposeKey
  let name := (lexer.cursor.skip 1).run isWordChar
  let after := lexer.cursor.skip (name.length + 1)
  if name.isEmpty || !endsAnchor after.rest then .error .malformed
  else return ((lexer.allowKey false).push (kind name) lexer.mark).moveTo after

def takeTag (lexer : Lexer) : Except Malformed Lexer := do
  let lexer ← lexer.proposeKey
  let (name, rest) ← tagName (lexer.cursor.rest.drop 1)
  if !endsTag lexer.inFlow rest then .error .malformed
  else
    return ((lexer.allowKey false).push (.tag name) lexer.mark).moveTo
      (lexer.cursor.skip (lexer.cursor.rest.length - rest.length))

def takeBlockScalar (lexer : Lexer) (style : ScalarStyle) : Except Malformed Lexer := do
  let lexer ← lexer.dropCandidate
  let scalar ← blockScalar (style = .literal) lexer.indent (lexer.cursor.skip 1)
  return ((lexer.allowKey true).push (.scalar style scalar.text) lexer.mark).moveTo scalar.cursor

def takeScalar (lexer : Lexer) (style : ScalarStyle)
    (read : Lexer → Except Malformed ScalarEnd) : Except Malformed Lexer := do
  let lexer ← lexer.proposeKey
  let scalar ← read lexer
  return ((lexer.allowKey scalar.crossedLine).push (.scalar style scalar.text) lexer.mark).moveTo
    scalar.cursor

def readSingleQuoted (lexer : Lexer) : Except Malformed ScalarEnd :=
  let inside := lexer.cursor.skip 1
  singleQuoted [] .none inside.mark inside.rest

def readDoubleQuoted (lexer : Lexer) : Except Malformed ScalarEnd :=
  let inside := lexer.cursor.skip 1
  doubleQuoted .outside [] .none inside.mark inside.rest

def readPlain (lexer : Lexer) : Except Malformed ScalarEnd :=
  plainScalar lexer.inFlow (lexer.indent + 1) [] .none lexer.mark lexer.cursor.rest

/-- A visible character that is no indicator, or an indicator that touches what follows,
starts a plain scalar. -/
def startsPlain (flow : Bool) (char : Char) (rest : List Char) : Bool :=
  !(isBlank char || "-?:,[]\x7b\x7d#&*!|>'\"%@`".contains char) ||
    (char = '-' && !rest.head?.any isBlank) ||
    (!flow && (char = '?' || char = ':') && !endsWord rest)

/-- Takes the token that starts with a visible character. -/
def takeToken (lexer : Lexer) (char : Char) (rest : List Char) : Except Malformed Lexer :=
  let flow := lexer.inFlow
  let alone := flow || endsWord rest
  if lexer.mark.column = 0 ∧ char = '%' then lexer.takeDirective
  else if lexer.mark.column = 0 ∧ startsDocumentMark (char :: rest) then
    lexer.takeDocumentMark (if char = '-' then .documentStart else .documentEnd)
  else if char = '[' then lexer.openFlow .flowSequence
  else if char = '\x7b' then lexer.openFlow .flowMapping
  else if char = ']' then lexer.closeFlow .flowSequenceEnd
  else if char = '\x7d' then lexer.closeFlow .flowMappingEnd
  else if char = ',' then lexer.takeFlowEntry
  else if char = '-' ∧ endsWord rest then lexer.takeBlockEntry
  else if char = '?' ∧ alone then lexer.takeKey
  else if char = ':' ∧ alone then lexer.takeValue
  else if char = '*' then lexer.takeAnchor .aliasOf
  else if char = '&' then lexer.takeAnchor .anchor
  else if char = '!' then lexer.takeTag
  else if char = '|' ∧ !flow then lexer.takeBlockScalar .literal
  else if char = '>' ∧ !flow then lexer.takeBlockScalar .folded
  else if char = '\'' then lexer.takeScalar .singleQuoted readSingleQuoted
  else if char = '"' then lexer.takeScalar .doubleQuoted readDoubleQuoted
  else if startsPlain flow char rest then lexer.takeScalar .plain readPlain
  else .error .malformed

/-- So many characters are looked at to tell one token from another. -/
def lookahead : Nat := 4

/-- Whether the text is cut within so many characters. -/
def isCutWithin (lexer : Lexer) (count : Nat) : Bool :=
  lexer.cut && lexer.cursor.rest.length < count

/-- Takes the next token, with the key and block tokens that come with it. Where a text is
cut, a token that touches the cut is not known. -/
def next (lexer : Lexer) : Except Malformed Lexer := do
  let lexer ← lexer.seek.dropStale
  let lexer := lexer.closeBlocks lexer.mark.column
  if lexer.isCutWithin lookahead then .error .malformed
  else
    match lexer.cursor.rest with
    | [] => lexer.takeEnd
    | char :: rest =>
      let taken ← lexer.takeToken char rest
      if taken.isCutWithin 1 then .error .malformed else .ok taken

/-- Lets go of the tokens before the first one that may still be a key. -/
def release (lexer : Lexer) : Except Malformed Lexer := do
  let lexer ← lexer.dropStale
  let held := lexer.candidates.map (·.number)
  return { lexer with released := held.foldl min lexer.count }

/-- What is left to do; a token always leaves less. -/
def remaining (lexer : Lexer) : Nat :=
  lexer.cursor.rest.length + if lexer.finished then 0 else 1

end Lexer

/-- The tokens that can be told, and whether they are all there are. -/
structure Tokens where
  list : List Token
  complete : Bool
deriving Repr

def Lexer.known (lexer : Lexer) : Tokens :=
  ⟨lexer.tokens.reverse.take lexer.released, false⟩

def Lexer.run (lexer : Lexer) : Tokens :=
  match lexer.release with
  | .error _ => lexer.known
  | .ok settled =>
    if settled.finished then ⟨settled.tokens.reverse, true⟩
    else
      match settled.next with
      | .error _ => settled.known
      | .ok taken => if taken.remaining < lexer.remaining then taken.run else settled.known
termination_by lexer.remaining

/-- Carriage returns, pairs of carriage return and line feed, and next-line characters
become line feeds, after some text in reverse. -/
def plainBreaks (done : List Char) : List Char → List Char
  | [] => done.reverse
  | '\r' :: '\n' :: rest => plainBreaks ('\n' :: done) rest
  | '\r' :: rest => plainBreaks ('\n' :: done) rest
  | '\u0085' :: rest => plainBreaks ('\n' :: done) rest
  | char :: rest => plainBreaks (char :: done) rest

/-- The characters that a YAML text may contain. -/
def isPrintable (char : Char) : Bool :=
  let code := char.toNat
  code = 0x9 || code = 0xa || code = 0xd || (0x20 ≤ code && code ≤ 0x7e) || code = 0x85 ||
    (0xa0 ≤ code && code ≤ 0xfffd) || 0x10000 ≤ code

/-- A text is read in portions of at most so many bytes, which end with whole characters. -/
def portionSize : Nat := 16384

/-- The portions before the first one with a character that no text may contain, and
whether there is such a one. What was read so far is in reverse, and `room` bytes are left
in the current portion. -/
def legible (room : Nat) (earlier portion : List Char) : List Char → List Char × Bool
  | [] => ((portion ++ earlier).reverse, false)
  | char :: rest =>
    let isNew : Bool := room < char.utf8Size
    let earlier := if isNew then portion ++ earlier else earlier
    if isPrintable char then
      legible ((if isNew then portionSize else room) - char.utf8Size) earlier
        (if isNew then [char] else char :: portion) rest
    else (earlier.reverse, true)

def tokens (text : List Char) : Tokens :=
  let (text, cut) := legible portionSize [] [] text
  (Lexer.start cut (plainBreaks [] text)).run

end StepGrid.Yaml
