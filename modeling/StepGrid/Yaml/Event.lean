import StepGrid.Yaml.Lexer

/-! The events of a YAML document: its scalars and aliases in turn, and where collections
start and end. What has to come next is a stack of needs; each takes tokens and leaves
other needs in its place. -/

namespace StepGrid.Yaml

structure Scalar where
  text : List Char
  style : ScalarStyle
  tag : Option (List UInt8)
  mark : Mark
deriving DecidableEq, Repr

/-- A scalar, or the start of a collection. -/
inductive Node where
  | scalar (scalar : Scalar)
  | sequence (mark : Mark)
  | mapping (mark : Mark)
deriving DecidableEq, Repr

namespace Node

def mark : Node → Mark
  | scalar leaf => leaf.mark
  | sequence mark => mark
  | mapping mark => mark

def isCollection : Node → Bool
  | scalar _ => false
  | _ => true

def empty (mark : Mark) : Node := scalar ⟨[], .plain, none, mark⟩

end Node

/-- A node with the name it is given, the name of another node, or the end of the innermost
collection. -/
inductive Event where
  | node (anchor : Option (List Char)) (node : Node)
  | aliasOf (name : List Char)
  | close
deriving DecidableEq, Repr

/-- Block collections stand in blocks only. Under a key the items of a sequence need not be
deeper than the key. -/
inductive Place where
  | flow
  | block
  | underKey
deriving DecidableEq, Repr

/-- What has to come next. Bare items belong to a sequence no deeper than its key, and a
pair is a mapping of one entry inside a flow sequence. -/
inductive Need where
  | node (place : Place)
  | blockItem
  | bareItem
  | blockKey
  | blockValue
  | flowItem
  | afterItem
  | pairKey
  | pairValue
  | pairEnd
  | flowKey
  | flowValue
  | noValue
  | afterPair
deriving DecidableEq, Repr

namespace Need

/-- A need weighs more than the needs it leaves without taking a token. With a token taken,
those it leaves weigh less than five more. -/
def weight : Need → Nat
  | node _ => 2
  | pairKey => 3
  | flowItem => 5
  | flowKey => 5
  | _ => 1

def weights : List Need → Nat
  | [] => 0
  | need :: needs => need.weight + weights needs

theorem weights_append (first second : List Need) :
    weights (first ++ second) = weights first + weights second := by
  induction first with
  | nil => simp [weights]
  | cons need needs ih => simp [weights, ih, Nat.add_assoc]

end Need

/-- The prefixes that the handles of tags stand for, the document's own ones first. -/
abbrev Handles := List (List Char × List UInt8)

def standardHandles : Handles :=
  [(['!'], octets ['!']), (['!', '!'], octets "tag:yaml.org,2002:".toList)]

/-- A whole tag; none if its handle stands for nothing. -/
def expandTag (handles : Handles) : Option TagName → Option (Option (List UInt8))
  | none => some none
  | some ⟨[], suffix⟩ => some (some suffix)
  | some ⟨handle, suffix⟩ => (handles.lookup handle).map fun expansion => some (expansion ++ suffix)

structure Properties where
  anchor : Option (List Char)
  tag : Option TagName
  mark : Option Mark
  rest : List Token

/-- The anchor and the tag before a node, in either order. -/
def properties : List Token → Properties
  | ⟨.anchor name, mark⟩ :: ⟨.tag tag, _⟩ :: rest => ⟨some name, some tag, some mark, rest⟩
  | ⟨.anchor name, mark⟩ :: rest => ⟨some name, none, some mark, rest⟩
  | ⟨.tag tag, mark⟩ :: ⟨.anchor name, _⟩ :: rest => ⟨some name, some tag, some mark, rest⟩
  | ⟨.tag tag, mark⟩ :: rest => ⟨none, some tag, some mark, rest⟩
  | rest => ⟨none, none, none, rest⟩

/-- The events that a need makes of the tokens it takes, and what it leaves. -/
structure Step where
  events : List Event
  needs : List Need
  rest : List Token

namespace Step

def empty (mark : Mark) (needs : List Need) (rest : List Token) : Step :=
  ⟨[.node none (.empty mark)], needs, rest⟩

def close (rest : List Token) : Step := ⟨[.close], [], rest⟩

/-- The node after its properties, which alone are an empty scalar. -/
def ofContent (place : Place) (properties : Properties) (tag : Option (List UInt8)) : Option Step :=
  match properties.rest with
  | [] => none
  | ⟨kind, here⟩ :: after =>
    let mark := properties.mark.getD here
    let node (found : Node) (needs : List Need) (rest : List Token) : Option Step :=
      some ⟨[.node properties.anchor found], needs, rest⟩
    match kind with
    | .scalar style text => node (.scalar ⟨text, style, tag, mark⟩) [] after
    | .flowSequence => node (.sequence mark) [.flowItem] after
    | .flowMapping => node (.mapping mark) [.flowKey] after
    | kind =>
      if kind = .blockEntry ∧ place = .underKey then
        node (.sequence mark) [.bareItem] properties.rest
      else if kind = .blockSequence ∧ place ≠ .flow then node (.sequence mark) [.blockItem] after
      else if kind = .blockMapping ∧ place ≠ .flow then node (.mapping mark) [.blockKey] after
      else if properties.mark.isSome then
        node (.scalar ⟨[], .plain, tag, mark⟩) [] properties.rest
      else none

def ofNode (handles : Handles) (place : Place) (tokens : List Token) : Option Step :=
  match tokens with
  | ⟨.aliasOf name, _⟩ :: rest => some ⟨[.aliasOf name], [], rest⟩
  | _ => do ofContent place (properties tokens) (← expandTag handles (properties tokens).tag)

/-- After an indicator a node follows, or an empty one where something else does: just
after the indicator in a block, and before what follows in a flow collection. -/
def afterIndicator (place : Place) (mark : Option Mark) (ends : Token.Kind → Bool)
    (needs : List Need) : List Token → Option Step
  | [] => none
  | ⟨kind, here⟩ :: rest =>
    if ends kind then some (empty (mark.getD here) needs (⟨kind, here⟩ :: rest))
    else some ⟨[], .node place :: needs, ⟨kind, here⟩ :: rest⟩

/-- The place just after an indicator. -/
def past (mark : Mark) : Option Mark := some ⟨mark.line, mark.column + 1, mark.index + 1⟩

def endsBlockNode : Token.Kind → Bool
  | .key | .value | .blockEnd => true
  | _ => false

def endsBlockItem : Token.Kind → Bool
  | .blockEntry | .blockEnd => true
  | _ => false

def endsFlowItem : Token.Kind → Bool
  | .flowEntry | .flowSequenceEnd => true
  | _ => false

def endsFlowValue : Token.Kind → Bool
  | .flowEntry | .flowMappingEnd => true
  | _ => false

def inBlock (need : Need) (tokens : List Token) : Option Step :=
  match need, tokens with
  | .blockItem, ⟨.blockEntry, mark⟩ :: rest =>
    afterIndicator .block (past mark) endsBlockItem [.blockItem] rest
  | .blockItem, ⟨.blockEnd, _⟩ :: rest => some (close rest)
  | .bareItem, ⟨.blockEntry, mark⟩ :: rest =>
    afterIndicator .block (past mark) (fun kind => endsBlockItem kind || endsBlockNode kind)
      [.bareItem] rest
  | .bareItem, next :: rest => some (close (next :: rest))
  | .blockKey, ⟨.key, mark⟩ :: rest =>
    afterIndicator .underKey (past mark) endsBlockNode [.blockValue, .blockKey] rest
  | .blockKey, ⟨.blockEnd, _⟩ :: rest => some (close rest)
  | .blockValue, ⟨.value, mark⟩ :: rest =>
    afterIndicator .underKey (past mark) endsBlockNode [] rest
  | .blockValue, next :: rest => some (empty next.mark [] (next :: rest))
  | _, _ => none

/-- In a flow sequence a question mark without a key swallows what follows. -/
def inFlowSequence (need : Need) (tokens : List Token) : Option Step :=
  match need, tokens with
  | .flowItem, ⟨.flowSequenceEnd, _⟩ :: rest => some (close rest)
  | .flowItem, ⟨.key, mark⟩ :: rest =>
    some ⟨[.node none (.mapping mark)], [.pairKey, .pairValue, .pairEnd, .afterItem], rest⟩
  | .flowItem, tokens => some ⟨[], [.node .flow, .afterItem], tokens⟩
  | .afterItem, ⟨.flowEntry, _⟩ :: rest => some ⟨[], [.flowItem], rest⟩
  | .afterItem, ⟨.flowSequenceEnd, _⟩ :: rest => some (close rest)
  | .pairKey, ⟨kind, mark⟩ :: rest =>
    if kind = .value || endsFlowItem kind then some (empty mark [] rest)
    else some ⟨[], [.node .flow], ⟨kind, mark⟩ :: rest⟩
  | .pairValue, ⟨.value, _⟩ :: rest => afterIndicator .flow none endsFlowItem [] rest
  | .pairValue, next :: rest => some (empty next.mark [] (next :: rest))
  | .pairEnd, tokens => some (close tokens)
  | _, _ => none

def inFlowMapping (need : Need) (tokens : List Token) : Option Step :=
  match need, tokens with
  | .flowKey, ⟨.flowMappingEnd, _⟩ :: rest => some (close rest)
  | .flowKey, ⟨.key, _⟩ :: rest =>
    afterIndicator .flow none (fun kind => kind = .value || endsFlowValue kind)
      [.flowValue, .afterPair] rest
  | .flowKey, tokens => some ⟨[], [.node .flow, .noValue, .afterPair], tokens⟩
  | .flowValue, ⟨.value, _⟩ :: rest => afterIndicator .flow none endsFlowValue [] rest
  | .flowValue, next :: rest => some (empty next.mark [] (next :: rest))
  | .noValue, next :: rest => some (empty next.mark [] (next :: rest))
  | .afterPair, ⟨.flowEntry, _⟩ :: rest => some ⟨[], [.flowKey], rest⟩
  | .afterPair, ⟨.flowMappingEnd, _⟩ :: rest => some (close rest)
  | _, _ => none

/-- The step of a need, if the tokens can meet it. -/
def ofNeed (handles : Handles) (need : Need) (tokens : List Token) : Option Step :=
  match need with
  | .node place => ofNode handles place tokens
  | .blockItem | .bareItem | .blockKey | .blockValue => inBlock need tokens
  | .flowItem | .afterItem | .pairKey | .pairValue | .pairEnd => inFlowSequence need tokens
  | .flowKey | .flowValue | .noValue | .afterPair => inFlowMapping need tokens

/-- What a step makes less: a token counts as much as what it can bring. -/
def cost (needs : List Need) (tokens : List Token) : Nat := Need.weights needs + 5 * tokens.length

@[simp, grind =]
theorem cost_nil (tokens : List Token) : cost [] tokens = 5 * tokens.length := by
  simp [cost, Need.weights]

@[simp, grind =]
theorem cost_cons (need : Need) (needs : List Need) (tokens : List Token) :
    cost (need :: needs) tokens = need.weight + cost needs tokens := by
  simp [cost, Need.weights, Nat.add_assoc]

theorem afterIndicator_cost_le {place : Place} {mark : Option Mark} {ends : Token.Kind → Bool}
    {needs : List Need} {tokens : List Token} {step : Step}
    (taken : afterIndicator place mark ends needs tokens = some step) :
    cost step.needs step.rest ≤ cost needs tokens + 2 := by
  unfold afterIndicator at taken
  split at taken
  · contradiction
  · split at taken
    · cases taken
      simp [empty]
    · cases taken
      simp only [cost_cons, Need.weight]
      omega

theorem properties_rest_length (tokens : List Token) :
    (properties tokens).rest.length + (properties tokens).mark.toList.length ≤ tokens.length := by
  unfold properties
  split <;> simp

theorem ofContent_cost_lt {place : Place} {properties : Properties} {tag : Option (List UInt8)}
    {step : Step} (taken : ofContent place properties tag = some step) :
    cost step.needs step.rest <
      5 * (properties.rest.length + properties.mark.toList.length) + 2 := by
  unfold ofContent at taken
  split at taken
  · contradiction
  · cases told : properties.mark <;> simp only [told] at taken <;> grind [Need.weight]

theorem ofNode_cost_lt {handles : Handles} {place : Place} {tokens : List Token} {step : Step}
    (taken : ofNode handles place tokens = some step) :
    cost step.needs step.rest < cost [.node place] tokens := by
  unfold ofNode at taken
  split at taken
  · cases taken
    simp [Need.weight]
    omega
  · obtain ⟨tag, _, taken⟩ := Option.bind_eq_some_iff.1 taken
    have less := ofContent_cost_lt taken
    have shorter := properties_rest_length tokens
    simp only [cost_cons, cost_nil, Need.weight]
    omega

theorem inBlock_cost_lt {need : Need} {tokens : List Token} {step : Step}
    (taken : inBlock need tokens = some step) :
    cost step.needs step.rest < cost [need] tokens := by
  unfold inBlock at taken
  split at taken <;> grind [→ afterIndicator_cost_le, Need.weight, close, empty]

theorem inFlowSequence_cost_lt {need : Need} {tokens : List Token} {step : Step}
    (taken : inFlowSequence need tokens = some step) :
    cost step.needs step.rest < cost [need] tokens := by
  unfold inFlowSequence at taken
  split at taken <;> grind [→ afterIndicator_cost_le, Need.weight, close, empty]

theorem inFlowMapping_cost_lt {need : Need} {tokens : List Token} {step : Step}
    (taken : inFlowMapping need tokens = some step) :
    cost step.needs step.rest < cost [need] tokens := by
  unfold inFlowMapping at taken
  split at taken <;> grind [→ afterIndicator_cost_le, Need.weight, close, empty]

theorem ofNeed_cost_lt {handles : Handles} {need : Need} {tokens : List Token} {step : Step}
    (taken : ofNeed handles need tokens = some step) :
    cost step.needs step.rest < cost [need] tokens := by
  unfold ofNeed at taken
  split at taken <;>
    grind [→ ofNode_cost_lt, → inBlock_cost_lt, → inFlowSequence_cost_lt, → inFlowMapping_cost_lt]

end Step

/-- The events that were met, and the tokens after them if all is well. -/
structure Listing where
  events : List Event
  rest : Option (List Token)

/-- Meets the needs in turn, after the events met before in reverse. -/
def Listing.ofNeeds (handles : Handles) (met : List Event) (needs : List Need)
    (tokens : List Token) : Listing :=
  match needs with
  | [] => ⟨met.reverse, some tokens⟩
  | need :: later =>
    match _taken : Step.ofNeed handles need tokens with
    | none => ⟨met.reverse, none⟩
    | some step => ofNeeds handles (step.events.reverse ++ met) (step.needs ++ later) step.rest
termination_by Step.cost needs tokens
decreasing_by
  have less := Step.ofNeed_cost_lt _taken
  simp only [Step.cost, Need.weights, Need.weights_append] at less ⊢
  omega

end StepGrid.Yaml
