import StepGrid.Frontmatter.Fault
import StepGrid.Settings
import StepGrid.Text.Lines
import StepGrid.Yaml.Document

/-! Settings from a YAML document. Fields are read in order and the first fault ends the
reading, even where the text is malformed further on. -/

namespace StepGrid.Frontmatter

inductive Field where
  | title
  | tempo
  | stepsPerBar
  | velocity
  | channel
deriving DecidableEq, Repr

namespace Field

/-- The tempo has two names. -/
def ofName? (name : List Char) : Option Field :=
  if name = "title".toList then some title
  else if name = "tempo".toList ∨ name = "bpm".toList then some tempo
  else if name = "steps-per-bar".toList then some stepsPerBar
  else if name = "velocity".toList then some velocity
  else if name = "channel".toList then some channel
  else none

def name : Field → String
  | title => "title"
  | tempo => "tempo"
  | stepsPerBar => "steps-per-bar"
  | velocity => "velocity"
  | channel => "channel"

end Field

def coreTag (name : String) : List UInt8 := Yaml.octets ("tag:yaml.org,2002:" ++ name).toList

/-- A scalar with a tag of its own kind of value, or that there is no such value. -/
def tagged (text : List Char) (expected : String) (value : Option Yaml.Value) :
    Found ⊕ Cause :=
  match value with
  | some value => .inl (.value value)
  | none => .inr (.wrongText (String.ofList text) expected)

/-- What a scalar amounts to where it is not wanted. -/
def foundScalar (scalar : Yaml.Scalar) : Found ⊕ Cause :=
  let text := scalar.text
  let asText : Found ⊕ Cause := .inl (.value (.text (String.ofList text)))
  let plain := scalar.style = .plain
  match scalar.tag with
  | none => if plain then .inl (.value (Yaml.Core.resolve text)) else asText
  | some tag =>
    if tag = coreTag "bool" then tagged text "a boolean" ((Yaml.Core.boolean? text).map .boolean)
    else if tag = coreTag "int" then
      tagged text "an integer" (((Yaml.Core.integer? text).filter Yaml.Core.isWide).map .integer)
    else if tag = coreTag "float" then tagged text "a float" ((Yaml.Core.float? text).map .float)
    else if tag = coreTag "null" then
      tagged text "null" (if Yaml.Core.isNull text then some .null else none)
    else if (Yaml.octets ['!']).isPrefixOf tag ∧ plain then .inl (.value (Yaml.Core.resolve text))
    else asText

/-- The cause to give where a node of the expected kind was wanted. -/
def misplaced (node : Yaml.Node) (expected : String) : Cause :=
  match node with
  | .sequence _ => .wrongType .sequence expected
  | .mapping _ => .wrongType .mapping expected
  | .scalar scalar =>
    match foundScalar scalar with
    | .inl found => .wrongType found expected
    | .inr cause => cause

/-- Whether a scalar leaves its field unset. -/
def isUnset (scalar : Yaml.Scalar) : Except Cause Bool :=
  if scalar.style ≠ .plain then .ok false
  else match scalar.tag with
    | none => .ok (scalar.text.isEmpty || Yaml.Core.isNull scalar.text)
    | some tag =>
      if tag ≠ coreTag "null" then .ok false
      else if Yaml.Core.isNull scalar.text then .ok true
      else .error (.wrongText (String.ofList scalar.text) "null")

/-- The integer of a plain scalar, or of a literal one whose tag says so. -/
def integer? (scalar : Yaml.Scalar) : Option Int :=
  if scalar.style = .plain ∨ (scalar.style = .literal ∧ scalar.tag = some (coreTag "int")) then
    Yaml.Core.word? scalar.text
  else none

def text? (scalar : Yaml.Scalar) : Option String := some (String.ofList scalar.text)

/-- The value of a field, if it is set. A null that is none is told of the whole mapping. -/
def readValue {α : Type} (read : Yaml.Scalar → Option α) (expected key : String)
    (mapping : Yaml.Mark) (node : Yaml.Node) : Except Fault (Option α) :=
  let wrong : Except Fault (Option α) :=
    .error (.field (some key) (misplaced node expected) node.mark)
  match node with
  | .scalar scalar =>
    match isUnset scalar with
    | .error cause => .error (.field none cause mapping)
    | .ok true => .ok none
    | .ok false =>
      match read scalar with
      | some value => .ok (some value)
      | none => wrong
  | _ => wrong

def readField (field : Field) (key : String) (mapping : Yaml.Mark) (node : Yaml.Node)
    (layer : Settings.Layer) : Except Fault Settings.Layer :=
  match field with
  | .title => do return { layer with title := ← readValue text? "a string" key mapping node }
  | .tempo => do return { layer with tempo := ← readValue integer? "i64" key mapping node }
  | .stepsPerBar => do
    return { layer with stepsPerBar := ← readValue integer? "i64" key mapping node }
  | .velocity => do return { layer with velocity := ← readValue integer? "i64" key mapping node }
  | .channel => do return { layer with channel := ← readValue integer? "i64" key mapping node }

/-- The field of a key that was not given before. -/
def readKey (mapping : Yaml.Mark) (given : List Field) (node : Yaml.Node) : Except Fault Field :=
  match node with
  | .scalar scalar =>
    match Field.ofName? scalar.text with
    | none => .error (.field none (.unknownField (String.ofList scalar.text)) scalar.mark)
    | some field =>
      if field ∈ given then .error (.field none (.duplicateField field.name) mapping)
      else .ok field
  | node => .error (.field none (misplaced node "field identifier") node.mark)

/-- The name under which the value of a key is told. -/
def keyText (member : Yaml.Member) : String :=
  match member.aliased, member.node with
  | false, .scalar scalar => String.ofList scalar.text
  | _, _ => "?"

/-- Keys and values in turn. A key without value comes only from a malformed text. -/
def readFields (mapping : Yaml.Mark) (given : List Field) (layer : Settings.Layer) :
    List Yaml.Member → Except Fault Settings.Layer
  | [] => .ok layer
  | [key] => do
    let _ ← readKey mapping given key.node
    return layer
  | key :: value :: rest => do
    let field ← readKey mapping given key.node
    let layer ← readField field (keyText key) mapping value.node layer
    readFields mapping (field :: given) layer rest

def expectedRoot : String := "struct RawSettings"

def readMembers : List Yaml.Member → Except Fault Settings.Layer
  | [] => .ok {}
  | root :: fields =>
    match root.node with
    | .mapping mark => readFields mark [] {} fields
    | .scalar scalar =>
      if scalar.style = .plain ∧ scalar.text.isEmpty then .ok {}
      else .error (.field none (misplaced root.node expectedRoot) scalar.mark)
    | .sequence mark => .error (.field none (misplaced root.node expectedRoot) mark)

/-- The settings of a YAML text. A text of white space sets nothing. -/
def read (text : List Char) : Except Fault Settings.Layer :=
  if text.all Text.isBlank then .ok {}
  else
    let document := Yaml.document text
    match readMembers document.members with
    | .error fault => .error fault
    | .ok layer => if document.complete then .ok layer else .error .malformed

end StepGrid.Frontmatter
