import StepGrid.Yaml.Event

/-! A YAML document as far as flat settings go: its root and what stands right inside it.
Names are given all over the document, so an alias may stand for a node further inside. -/

namespace StepGrid.Yaml

/-- The handles that directives declare, and the tokens after them. A version is declared
once at most and is 1.1 or 1.2; a handle is declared once at most. -/
def directives (versioned : Bool) (handles : Handles) : List Token → Option (Handles × List Token)
  | ⟨.version major minor, _⟩ :: rest =>
    if versioned ∨ major ≠ 1 ∨ (minor ≠ 1 ∧ minor ≠ 2) then none else directives true handles rest
  | ⟨.tagDirective handle expansion, _⟩ :: rest =>
    if (handles.lookup handle).isSome then none
    else directives versioned (handles ++ [(handle, expansion)]) rest
  | rest => some (handles, rest)

/-- The end of the text, possibly after marks that end the document. -/
def isTextEnd : List Token → Bool
  | ⟨.streamEnd, _⟩ :: _ => true
  | ⟨.documentEnd, _⟩ :: rest => isTextEnd rest
  | _ => false

/-- Whether a document without a node ends here. -/
def endsDocument : Token.Kind → Bool
  | .version .. | .tagDirective .. | .documentStart | .documentEnd | .streamEnd => true
  | _ => false

/-- The events of a document, which are none in a text without one. -/
def Listing.ofDocument (tokens : List Token) : Listing :=
  let declares := match tokens with
    | ⟨.version .., _⟩ :: _ | ⟨.tagDirective .., _⟩ :: _ | ⟨.documentStart, _⟩ :: _ => true
    | _ => false
  if declares then
    match directives false [] tokens with
    | some (handles, ⟨.documentStart, _⟩ :: ⟨kind, mark⟩ :: rest) =>
      if endsDocument kind then ⟨[.node none (.empty mark)], some (⟨kind, mark⟩ :: rest)⟩
      else ofNeeds (handles ++ standardHandles) [] [.node .block] (⟨kind, mark⟩ :: rest)
    | _ => ⟨[], none⟩
  else if isTextEnd (tokens.take 1) then ⟨[], some tokens⟩
  else ofNeeds standardHandles [] [.node .block] tokens

/-- The names given to nodes, each with a number, and the nodes of the numbers. -/
structure Anchors where
  numbers : List (List Char × Nat)
  nodes : List (Nat × Node)

/-- A name gets the number of the names before it; a node takes over the number of another
where a name was given twice. -/
def Anchors.give (anchors : Anchors) (name : List Char) (node : Node) : Anchors :=
  let number := anchors.numbers.length
  ⟨(name, number) :: anchors.numbers.filter (·.1 ≠ name),
    (number, node) :: anchors.nodes.filter (·.1 ≠ number)⟩

/-- A node, or the number of the one that an alias stands for. -/
inductive Reference where
  | here (node : Node)
  | there (number : Nat)

/-- The root and what stands right inside it, with the names of the whole document. An alias
that names nothing ends the document. -/
structure Outline where
  anchors : Anchors
  references : List Reference
  known : Bool

/-- Goes through the events at some depth, after the references met before in reverse. -/
def Outline.ofEvents (depth : Nat) (anchors : Anchors) (met : List Reference) :
    List Event → Outline
  | [] => ⟨anchors, met.reverse, true⟩
  | .close :: rest => ofEvents (depth - 1) anchors met rest
  | .aliasOf name :: rest =>
    match anchors.numbers.lookup name with
    | none => ⟨anchors, met.reverse, false⟩
    | some number =>
      ofEvents depth anchors (if depth ≤ 1 then .there number :: met else met) rest
  | .node anchor node :: rest =>
    ofEvents (if node.isCollection then depth + 1 else depth)
      (anchor.elim anchors fun name => anchors.give name node)
      (if depth ≤ 1 then .here node :: met else met) rest

/-- A node of a document, and whether an alias stands for it. -/
structure Member where
  aliased : Bool
  node : Node
deriving DecidableEq, Repr

/-- The nodes of a document in order, and whether the whole text was well-formed. -/
structure Document where
  members : List Member
  complete : Bool
deriving Repr

def Reference.resolve? (anchors : Anchors) : Reference → Option Member
  | here node => some ⟨false, node⟩
  | there number => (anchors.nodes.lookup number).map (⟨true, ·⟩)

def document (text : List Char) : Document :=
  let tokens := tokens text
  let listing := Listing.ofDocument tokens.list
  let outline := Outline.ofEvents 0 ⟨[], []⟩ [] listing.events
  ⟨outline.references.filterMap (·.resolve? outline.anchors),
    outline.known && tokens.complete && listing.rest.any isTextEnd⟩

end StepGrid.Yaml
