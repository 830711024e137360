import StepGrid.Yaml.Scalar

/-! Tags, anchors and directives: the names of a YAML text. -/

namespace StepGrid.Yaml

def isUriChar (verbatim : Bool) (char : Char) : Bool :=
  isWordChar char || ";/?:@&=+$.!~*'()%".contains char || (verbatim && ",[]".contains char)

/-- The number of bytes that go on with a character after its first one. -/
def bytesAfter? (byte : Nat) : Option Nat :=
  if byte < 0x80 then some 0
  else if byte < 0xc0 then none
  else if byte < 0xe0 then some 1
  else if byte < 0xf0 then some 2
  else if byte < 0xf8 then some 3
  else none

/-- The bytes of an address and the text after it. Escaped bytes make up characters, of
which `left` bytes are still to come; whether there is such a character is not asked. -/
def uri (verbatim : Bool) (left : Nat) (taken : List UInt8) :
    List Char → Except Malformed (List UInt8 × List Char)
  | [] => if left = 0 then .ok (taken.reverse, []) else .error .malformed
  | char :: rest =>
    if char = '%' then
      match rest with
      | first :: second :: after =>
        match hexDigit? first, hexDigit? second with
        | some high, some low =>
          let byte := high * 16 + low
          let expected := if left = 0 then bytesAfter? byte
            else if byte < 0x80 || 0xc0 ≤ byte then none
            else some (left - 1)
          match expected with
          | some left => uri verbatim left (UInt8.ofNat byte :: taken) after
          | none => .error .malformed
        | _, _ => .error .malformed
      | _ => .error .malformed
    else if left ≠ 0 then .error .malformed
    else if isUriChar verbatim char then uri verbatim 0 (octets [char] ++ taken) rest
    else .ok (taken.reverse, char :: rest)

/-- A zero byte ends an address, whatever is written after it. -/
def untilZero (bytes : List UInt8) : List UInt8 := bytes.takeWhile (· ≠ 0)

/-- An address of which something is written. -/
def someUri (verbatim : Bool) (text : List Char) : Except Malformed (List UInt8 × List Char) := do
  let (taken, rest) ← uri verbatim 0 [] text
  if taken.isEmpty then .error .malformed else .ok (untilZero taken, rest)

/-- The handle after its first exclamation mark, and the text after it. -/
def handle (text : List Char) : List Char × List Char :=
  let word := text.takeWhile isWordChar
  match text.dropWhile isWordChar with
  | '!' :: rest => ('!' :: word ++ ['!'], rest)
  | rest => ('!' :: word, rest)

/-- A tag after its exclamation mark. Without a second mark the handle is the first mark
alone, and a mark alone is a tag without handle. -/
def tagName (text : List Char) : Except Malformed (TagName × List Char) :=
  match text with
  | '<' :: rest =>
    match someUri true rest with
    | .ok (suffix, '>' :: after) => .ok (⟨[], suffix⟩, after)
    | _ => .error .malformed
  | _ =>
    let (name, rest) := handle text
    if 1 < name.length ∧ name.getLast? = some '!' then do
      let (suffix, after) ← someUri false rest
      return (⟨name, suffix⟩, after)
    else do
      let (more, after) ← uri false 0 [] rest
      let suffix := octets (name.drop 1) ++ untilZero more
      return (if suffix.isEmpty then ⟨[], octets ['!']⟩ else ⟨['!'], suffix⟩, after)

/-- What may follow a tag. -/
def endsTag (flow : Bool) (text : List Char) : Bool :=
  endsWord text || (flow && text.head? = some ',')

/-- What may follow the name of an anchor. -/
def endsAnchor (text : List Char) : Bool :=
  endsWord text || text.head?.any fun char => "?:,]\x7d%@`".contains char

def versionNumber (text : List Char) : Except Malformed (Nat × List Char) :=
  let digits := text.takeWhile Char.isDigit
  if digits.isEmpty || 9 < digits.length then .error .malformed
  else
    .ok (digits.foldl (fun value digit => value * 10 + (digit.toNat - '0'.toNat)) 0,
      text.dropWhile Char.isDigit)

def versionDirective (text : List Char) : Except Malformed (Token.Kind × List Char) := do
  let (major, rest) ← versionNumber (text.dropWhile isBlank)
  match rest with
  | '.' :: rest =>
    let (minor, rest) ← versionNumber rest
    return (.version major minor, rest)
  | _ => .error .malformed

def tagDirective (text : List Char) : Except Malformed (Token.Kind × List Char) :=
  match text.dropWhile isBlank with
  | '!' :: rest => do
    let (name, after) := handle rest
    if 1 < name.length ∧ name.getLast? ≠ some '!' then .error .malformed
    else if !after.head?.any isBlank then .error .malformed
    else
      let (expansion, last) ← someUri true (after.dropWhile isBlank)
      if endsWord last then .ok (.tagDirective name expansion, last) else .error .malformed
  | _ => .error .malformed

/-- A directive after its percent sign, and the text from the next line on. -/
def directive (text : List Char) : Except Malformed (Token.Kind × List Char) := do
  let name := text.takeWhile isWordChar
  let rest := text.dropWhile isWordChar
  if name.isEmpty || !endsWord rest then .error .malformed
  else
    let (kind, rest) ←
      if name = "YAML".toList then versionDirective rest
      else if name = "TAG".toList then tagDirective rest
      else .error .malformed
    let blank := rest.dropWhile isBlank
    let line := if blank.head? = some '#' then blank.dropWhile (!isBreak ·) else blank
    match line with
    | [] => return (kind, [])
    | char :: after => if isBreak char then return (kind, after) else .error .malformed

end StepGrid.Yaml
