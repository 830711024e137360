import StepGrid.CommandLine.Arguments
import StepGrid.Proofs.LastWrite
import StepGrid.Proofs.PitchNames
import Mathlib.Data.List.Basic

/-! Arguments in groups, each an option with its value or an input. However the groups are
arranged, they ask for the same as long as those of one option keep their order, and of these
the last one counts. What stands behind an option is its value and nothing else. -/

namespace StepGrid.Proofs.CommandGroups
open CommandLine PitchNames

/-- A number as it is written: some digits, and a sign before them or none. -/
inductive Numeral : List Char → Int → Prop where
  | plain {digits : List Char} (written : digits ≠ []) (ascii : ∀ digit ∈ digits, digit.isDigit = true) :
      Numeral digits (decimal digits)
  | plus {digits : List Char} (written : digits ≠ []) (ascii : ∀ digit ∈ digits, digit.isDigit = true) :
      Numeral ('+' :: digits) (decimal digits)
  | minus {digits : List Char} (written : digits ≠ []) (ascii : ∀ digit ∈ digits, digit.isDigit = true) :
      Numeral ('-' :: digits) (-decimal digits)

inductive Setting where
  | tempo
  | stepsPerBar
  | velocity
  | channel
deriving DecidableEq

namespace Setting

def option : Setting → String
  | tempo => "--bpm"
  | stepsPerBar => "--steps-per-bar"
  | velocity => "--velocity"
  | channel => "--channel"

def flag : Setting → Flag
  | tempo => .tempo
  | stepsPerBar => .stepsPerBar
  | velocity => .velocity
  | channel => .channel

def of : Setting → Settings.Layer → Option Int
  | tempo => (·.tempo)
  | stepsPerBar => (·.stepsPerBar)
  | velocity => (·.velocity)
  | channel => (·.channel)

end Setting

inductive Kind where
  | sequence
  | output
  | setting (setting : Setting)
  | events
  | input
deriving DecidableEq

inductive Group where
  | sequence (spelling text : String)
  | output (spelling path : String)
  | setting (setting : Setting) (digits : String) (value : Int)
  | events
  | input (path : String)

namespace Group

/-- The values of options are any texts, but for numbers, which have 64 bits. An input does
not begin with a hyphen unless it is one. -/
def WellFormed : Group → Prop
  | sequence spelling _ => spelling = "-s" ∨ spelling = "--sequence"
  | output spelling _ => spelling = "-o" ∨ spelling = "--output"
  | setting _ digits value => Numeral digits.toList value ∧ -2 ^ 63 ≤ value ∧ value < 2 ^ 63
  | events => True
  | input path => path = "-" ∨ path.toList.head? ≠ some '-'

def kind : Group → Kind
  | sequence .. => .sequence
  | output .. => .output
  | setting which .. => .setting which
  | events => .events
  | input _ => .input

def arguments : Group → List String
  | sequence spelling text => [spelling, text]
  | output spelling path => [spelling, path]
  | setting which digits _ => [which.option, digits]
  | events => ["--events"]
  | input path => [path]

def text? : Group → Option String
  | sequence _ text => some text
  | _ => none

def path? : Group → Option String
  | output _ path => some path
  | _ => none

def value? (wanted : Setting) : Group → Option Int
  | setting which _ value => if which = wanted then some value else none
  | _ => none

def shown? : Group → Option Bool
  | events => some true
  | _ => none

def input? : Group → Option String
  | input path => some path
  | _ => none

end Group

def lastOf (value : Group → Option α) (groups : List Group) : Option α := (groups.filterMap value).getLast?

def OneSource (groups : List Group) : Prop :=
  (∃ path, groups.filterMap Group.input? = [path]) ∧ groups.filterMap Group.text? = [] ∨
    groups.filterMap Group.input? = [] ∧ groups.filterMap Group.text? ≠ []

/-- The same groups, those of one option in the same order. -/
def Rearranges (groups other : List Group) : Prop :=
  ∀ kind, other.filter (·.kind = kind) = groups.filter (·.kind = kind)

/-- What groups ask for, each option by its last group. -/
structure Asks (groups : List Group) (invocation : Invocation) : Prop where
  input : (∃ text, lastOf Group.text? groups = some text ∧ invocation.input = .inline text) ∨
    lastOf Group.text? groups = none ∧ ∃ path, .input path ∈ groups ∧ invocation.input = .file path
  output : invocation.output = (lastOf Group.path? groups).getD "output.mid"
  events : invocation.events = true ↔ .events ∈ groups
  title : invocation.overrides.title = none
  overrides : ∀ setting : Setting, setting.of invocation.overrides = lastOf (Group.value? setting) groups

section Reading

theorem map_natural?_eq_some {digits : List Char} {sign : Int → Int} {value : Int} :
    (do return ((← Digits.natural? digits : Nat) : Int) : Option Int).map sign = some value ↔
      digits ≠ [] ∧ (∀ digit ∈ digits, digit.isDigit = true) ∧ value = sign (decimal digits) := by
  constructor
  · intro read
    obtain ⟨_, lifted, rfl⟩ := Option.map_eq_some_iff.mp read
    obtain ⟨number, found, same⟩ := Option.bind_eq_some_iff.mp lifted
    cases same
    obtain ⟨written, ascii, rfl⟩ := natural?_eq_some.mp found
    exact ⟨written, ascii, rfl⟩
  · rintro ⟨written, ascii, rfl⟩
    rw [natural?_eq_some.mpr ⟨written, ascii, rfl⟩]
    rfl

theorem signed?_eq_some {text : List Char} {value : Int} : signed? text = some value ↔ Numeral text value := by
  unfold signed?
  split
  next digits =>
    rw [map_natural?_eq_some]
    constructor
    · rintro ⟨written, ascii, rfl⟩
      exact .plus written ascii
    · intro numeral
      cases numeral with
      | plain _ ascii => exact absurd (ascii '+' List.mem_cons_self) (by decide)
      | plus written ascii => exact ⟨written, ascii, rfl⟩
  next digits =>
    rw [map_natural?_eq_some]
    constructor
    · rintro ⟨written, ascii, rfl⟩
      exact .minus written ascii
    · intro numeral
      cases numeral with
      | plain _ ascii => exact absurd (ascii '-' List.mem_cons_self) (by decide)
      | minus written ascii => exact ⟨written, ascii, rfl⟩
  next noPlus noMinus =>
    rw [map_natural?_eq_some]
    constructor
    · rintro ⟨written, ascii, rfl⟩
      exact .plain written ascii
    · intro numeral
      cases numeral with
      | plain written ascii => exact ⟨written, ascii, rfl⟩
      | plus => exact absurd rfl (noPlus _)
      | minus => exact absurd rfl (noMinus _)

theorem integer?_eq_some {text : String} {value : Int} :
    integer? text = some value ↔ Numeral text.toList value ∧ -2 ^ 63 ≤ value ∧ value < 2 ^ 63 := by
  simp only [integer?, Option.filter_eq_some_iff, signed?_eq_some, Digits.isWord, Bool.and_eq_true, decide_eq_true_eq]
  exact and_congr_right fun _ => by omega

def spellings : List String :=
  ["-h", "--help", "-s", "--sequence", "-o", "--output", "--bpm", "--steps-per-bar", "--velocity", "--channel", "--events"]

private theorem looksLikeFlag_of_ofArgument? {argument : String} {flag : Flag}
    (found : Flag.ofArgument? argument = some flag) :
    looksLikeFlag argument = true := by
  have spelled : argument ∈ spellings := by
    by_contra other
    simp only [spellings, List.mem_cons, List.not_mem_nil, or_false, not_or] at other
    simp [Flag.ofArgument?, other] at found
  have all : ∀ spelling ∈ spellings, looksLikeFlag spelling = true := by decide
  exact all argument spelled

private theorem not_looksLikeFlag {path : String} (plain : path = "-" ∨ path.toList.head? ≠ some '-') :
    looksLikeFlag path = false := by
  rcases plain with rfl | plain
  · rfl
  · unfold looksLikeFlag
    split
    next hyphen => exact absurd (congrArg List.head? hyphen) plain
    next => rfl

private theorem ofArgument?_option (setting : Setting) : Flag.ofArgument? setting.option = some setting.flag := by
  cases setting <;> decide

end Reading

section Taking

def take (draft : Draft) : Group → Draft
  | .sequence _ text => { draft with sequence := some text }
  | .output _ path => { draft with output := path }
  | .setting which _ value => draft.override which.flag value
  | .events => { draft with events := true }
  | .input path => { draft with path := some path }

variable {draft : Draft}

private theorem set_flag {which : Setting} {digits : String} {value : Int} (reads : integer? digits = some value) :
    draft.set which.flag digits = .ok (draft.override which.flag value) := by
  cases which <;> simp [Setting.flag, Draft.set, reads]

/-- A flag with a value takes the next argument, whatever that is. -/
theorem parse_value {argument value : String} {flag : Flag} {next : Draft}
    (found : Flag.ofArgument? argument = some flag) (help : flag ≠ .help) (events : flag ≠ .events)
    (set : draft.set flag value = .ok next) (rest : List String) :
    draft.parse (argument :: value :: rest) = next.parse rest := by
  rw [Draft.parse, found]
  cases flag with
  | help => exact absurd rfl help
  | events => exact absurd rfl events
  | sequence | output | tempo | stepsPerBar | velocity | channel => simp only [set]

private theorem parse_group {group : Group} (wellFormed : group.WellFormed)
    (free : group.input? = none ∨ draft.path = none)
    (rest : List String) : draft.parse (group.arguments ++ rest) = (take draft group).parse rest := by
  cases group with
  | sequence spelling text =>
    have found : Flag.ofArgument? spelling = some .sequence := by
      rcases wellFormed with rfl | rfl <;> decide
    exact parse_value found nofun nofun rfl rest
  | output spelling path =>
    have found : Flag.ofArgument? spelling = some .output := by
      rcases wellFormed with rfl | rfl <;> decide
    exact parse_value found nofun nofun rfl rest
  | setting which digits value =>
    have set : draft.set which.flag digits = .ok (draft.override which.flag value) :=
      set_flag (integer?_eq_some.mpr wellFormed)
    exact parse_value (ofArgument?_option which) (by cases which <;> nofun) (by cases which <;> nofun) set rest
  | events => rfl
  | input path =>
    have plain := not_looksLikeFlag wellFormed
    have noFlag : Flag.ofArgument? path = none := by
      cases found : Flag.ofArgument? path with
      | none => rfl
      | some flag => cases plain.symm.trans (looksLikeFlag_of_ofArgument? found)
    have first : draft.path = none := free.resolve_left nofun
    show draft.parse (path :: rest) = _
    rw [Draft.parse, noFlag]
    simp only [Draft.place, plain, first, Option.isSome_none, Bool.false_eq_true, if_false]
    rfl

private theorem path_take (draft : Draft) (group : Group) : (take draft group).path = group.input?.or draft.path := by
  cases group with
  | setting which => cases which <;> rfl
  | _ => rfl

private theorem sequence_take (draft : Draft) (group : Group) :
    (take draft group).sequence = group.text?.or draft.sequence := by
  cases group with
  | setting which => cases which <;> rfl
  | _ => rfl

private theorem output_take (draft : Draft) (group : Group) :
    (take draft group).output = group.path?.getD draft.output := by
  cases group with
  | setting which => cases which <;> rfl
  | _ => rfl

private theorem events_take (draft : Draft) (group : Group) :
    (take draft group).events = group.shown?.getD draft.events := by
  cases group with
  | setting which => cases which <;> rfl
  | _ => rfl

private theorem title_take (draft : Draft) (group : Group) :
    (take draft group).overrides.title = draft.overrides.title := by
  cases group with
  | setting which => cases which <;> rfl
  | _ => rfl

/-- An option sets its own setting and leaves all others alone. -/
theorem override_take (wanted : Setting) (draft : Draft) (group : Group) :
    wanted.of (take draft group).overrides = (group.value? wanted).or (wanted.of draft.overrides) := by
  cases group with
  | setting which => cases which <;> cases wanted <;> rfl
  | _ => rfl

/-- Groups are taken one by one, as long as there is at most one input. -/
theorem parse_groups {groups : List Group} (wellFormed : ∀ group ∈ groups, group.WellFormed)
    (single : draft.path.toList.length + (groups.filterMap Group.input?).length ≤ 1) :
    draft.parse (groups.flatMap Group.arguments) = (groups.foldl take draft).finish := by
  induction groups generalizing draft with
  | nil => rw [List.flatMap_nil, Draft.parse, List.foldl_nil]
  | cons group groups ih =>
    obtain ⟨first, others⟩ := List.forall_mem_cons.mp wellFormed
    have path := path_take draft group
    rw [List.flatMap_cons]
    cases input : group.input? with
    | none =>
      rw [parse_group first (.inl input)]
      rw [List.filterMap_cons_none input] at single
      rw [input, Option.none_or] at path
      exact ih others (path ▸ single)
    | some given =>
      -- This is the one input, so none has been given before it.
      rw [List.filterMap_cons_some input, List.length_cons] at single
      have free : draft.path = none := by
        apply Option.toList_eq_nil_iff.mp
        exact List.length_eq_zero_iff.mp (by omega)
      rw [parse_group first (.inr free)]
      rw [input, Option.some_or] at path
      apply ih others
      rw [path, Option.toList_some, List.length_singleton]
      omega

def draftOf (groups : List Group) : Draft where
  path := lastOf Group.input? groups
  sequence := lastOf Group.text? groups
  output := (lastOf Group.path? groups).getD "output.mid"
  events := (lastOf Group.shown? groups).getD false
  overrides := {
    tempo := lastOf (Group.value? .tempo) groups
    stepsPerBar := lastOf (Group.value? .stepsPerBar) groups
    velocity := lastOf (Group.value? .velocity) groups
    channel := lastOf (Group.value? .channel) groups }

private theorem of_foldl_take (wanted : Setting) (groups : List Group) :
    wanted.of (groups.foldl take {}).overrides = lastOf (Group.value? wanted) groups := by
  have written :=
    @field_foldl _ _ _ take (fun draft => wanted.of draft.overrides) (Group.value? wanted) (override_take wanted) {} groups
  have unset : wanted.of ({} : Draft).overrides = none := by cases wanted <;> rfl
  rwa [unset, Option.or_none] at written

private theorem title_foldl_take (groups : List Group) : (groups.foldl take {}).overrides.title = none := by
  have written := @field_foldl _ _ _ take (fun draft => draft.overrides.title) (fun _ => none) title_take {} groups
  have nothing : groups.filterMap (fun _ => (none : Option String)) = [] := List.filterMap_eq_nil_iff.mpr fun _ _ => rfl
  rwa [nothing] at written

private theorem foldl_take (groups : List Group) : groups.foldl take {} = draftOf groups := by
  have path := field_foldl path_take {} groups
  have sequence := field_foldl sequence_take {} groups
  have output := field_foldl_getD output_take {} groups
  have events := field_foldl_getD events_take {} groups
  have title := title_foldl_take groups
  have setting := fun wanted => of_foldl_take wanted groups
  rw [Option.or_none] at path sequence
  generalize groups.foldl take {} = draft at *
  obtain ⟨_, _, _, _, _, _, _, _, _⟩ := draft
  simp only [draftOf, Draft.mk.injEq, Settings.Layer.mk.injEq]
  exact ⟨path, sequence, output, events, title, setting .tempo, setting .stepsPerBar, setting .velocity, setting .channel⟩

end Taking

section Rearranging
variable {group : Group} {groups other : List Group}

private theorem kind_of_text? {text : String} (found : group.text? = some text) : group.kind = .sequence := by
  cases group with
  | sequence => rfl
  | _ => cases found

private theorem kind_of_path? {path : String} (found : group.path? = some path) : group.kind = .output := by
  cases group with
  | output => rfl
  | _ => cases found

private theorem kind_of_value? {wanted : Setting} {value : Int} (found : group.value? wanted = some value) :
    group.kind = .setting wanted := by
  cases group with
  | setting which digits value =>
    rw [Group.value?] at found
    split at found
    next same => exact congrArg Kind.setting same
    next => cases found
  | _ => cases found

private theorem kind_of_shown? {shown : Bool} (found : group.shown? = some shown) : group.kind = .events := by
  cases group with
  | events => rfl
  | _ => cases found

private theorem kind_of_input? {path : String} (found : group.input? = some path) : group.kind = .input := by
  cases group with
  | input => rfl
  | _ => cases found

private theorem filterMap_filter_kind {value : Group → Option α} {kind : Kind}
    (only : ∀ {group held}, value group = some held → group.kind = kind) (groups : List Group) :
    (groups.filter (·.kind = kind)).filterMap value = groups.filterMap value := by
  rw [List.filterMap_filter]
  apply List.filterMap_congr
  intro group _
  cases held : value group with
  | none => exact ite_self none
  | some _ => exact if_pos (decide_eq_true (only held))

theorem Rearranges.filterMap_eq (rearranges : Rearranges groups other) {value : Group → Option α} {kind : Kind}
    (only : ∀ {group held}, value group = some held → group.kind = kind) :
    other.filterMap value = groups.filterMap value := by
  rw [← filterMap_filter_kind only other, rearranges kind, filterMap_filter_kind only]

theorem Rearranges.lastOf_eq (rearranges : Rearranges groups other) {value : Group → Option α} {kind : Kind}
    (only : ∀ {group held}, value group = some held → group.kind = kind) : lastOf value other = lastOf value groups :=
  congrArg List.getLast? (rearranges.filterMap_eq only)

private theorem Rearranges.mem (rearranges : Rearranges groups other) (member : group ∈ other) : group ∈ groups := by
  have kept : group ∈ other.filter (·.kind = group.kind) := List.mem_filter.mpr ⟨member, decide_eq_true rfl⟩
  rw [rearranges group.kind] at kept
  exact (List.mem_filter.mp kept).1

theorem Rearranges.draftOf_eq (rearranges : Rearranges groups other) : draftOf other = draftOf groups := by
  have setting (wanted : Setting) : lastOf (Group.value? wanted) other = lastOf (Group.value? wanted) groups :=
    rearranges.lastOf_eq kind_of_value?
  rw [draftOf, rearranges.lastOf_eq kind_of_input?, rearranges.lastOf_eq kind_of_text?, rearranges.lastOf_eq kind_of_path?,
    rearranges.lastOf_eq kind_of_shown?, setting, setting, setting, setting]
  rfl

end Rearranging

section Asking
variable {groups : List Group}

private theorem length_inputs_le (source : OneSource groups) : (groups.filterMap Group.input?).length ≤ 1 := by
  rcases source with ⟨⟨path, inputs⟩, _⟩ | ⟨inputs, _⟩
  · rw [inputs, List.length_singleton]
  · rw [inputs]
    exact Nat.zero_le 1

private theorem demand_groups (wellFormed : ∀ group ∈ groups, group.WellFormed)
    (single : (groups.filterMap Group.input?).length ≤ 1) :
    demand (groups.flatMap Group.arguments) = (draftOf groups).finish := by
  rw [demand, parse_groups wellFormed (by simpa using single), foldl_take]

private theorem eq_true_of_mem_shown {shown : Bool} (member : shown ∈ groups.filterMap Group.shown?) :
    shown = true ∧ .events ∈ groups := by
  obtain ⟨group, present, found⟩ := List.mem_filterMap.mp member
  cases group with
  | events => exact ⟨(Option.some.inj found).symm, present⟩
  | _ => cases found

theorem shown_iff : (lastOf Group.shown? groups).getD false = true ↔ .events ∈ groups := by
  unfold lastOf
  constructor
  · intro shown
    cases last : (groups.filterMap Group.shown?).getLast? with
    | none =>
      rw [last] at shown
      cases shown
    | some held => exact (eq_true_of_mem_shown (List.mem_of_getLast? last)).2
  · intro member
    have present : true ∈ groups.filterMap Group.shown? := List.mem_filterMap.mpr ⟨.events, member, rfl⟩
    rw [List.getLast?_eq_some_getLast (List.ne_nil_of_mem present), Option.getD_some]
    exact (eq_true_of_mem_shown (List.getLast_mem _)).1

private theorem asks_of_input {input : Input}
    (given : (∃ text, lastOf Group.text? groups = some text ∧ input = .inline text) ∨
      lastOf Group.text? groups = none ∧ ∃ path, .input path ∈ groups ∧ input = .file path) :
    Asks groups ⟨input, (draftOf groups).output, (draftOf groups).events, (draftOf groups).overrides⟩ where
  input := given
  output := rfl
  events := shown_iff
  title := rfl
  overrides setting := by cases setting <;> rfl

private theorem finish_draftOf (source : OneSource groups) :
    ∃ invocation, (draftOf groups).finish = .invoke invocation ∧ Asks groups invocation := by
  rcases source with ⟨⟨path, inputs⟩, texts⟩ | ⟨inputs, texts⟩
  · have found : lastOf Group.input? groups = some path := congrArg List.getLast? inputs
    have absent : lastOf Group.text? groups = none := congrArg List.getLast? texts
    have member : .input path ∈ groups := by
      obtain ⟨group, present, same⟩ := List.mem_filterMap.mp (inputs ▸ List.mem_singleton_self path)
      cases group with
      | input => exact Option.some.inj same ▸ present
      | _ => cases same
    refine ⟨_, ?_, asks_of_input (.inr ⟨absent, path, member, rfl⟩)⟩
    simp only [Draft.finish, draftOf, found, absent]
  · have absent : lastOf Group.input? groups = none := congrArg List.getLast? inputs
    have found := List.getLast?_eq_some_getLast texts
    refine ⟨_, ?_, asks_of_input (.inl ⟨_, found, rfl⟩)⟩
    rw [← lastOf] at found
    simp only [Draft.finish, draftOf, found, absent]

end Asking

/-- Groups in any arrangement ask for what the last of each option sets, if they give one
source. -/
theorem demand_arranged {groups : List Group} (wellFormed : ∀ group ∈ groups, group.WellFormed)
    (source : OneSource groups) :
    ∃ invocation, demand (groups.flatMap Group.arguments) = .invoke invocation ∧ Asks groups invocation ∧
      ∀ other, Rearranges groups other → demand (other.flatMap Group.arguments) = .invoke invocation := by
  obtain ⟨invocation, finished, asks⟩ := finish_draftOf source
  have single := length_inputs_le source
  refine ⟨invocation, (demand_groups wellFormed single).trans finished, asks, fun other rearranges => ?_⟩
  have singleToo : (other.filterMap Group.input?).length ≤ 1 := by rwa [rearranges.filterMap_eq kind_of_input?]
  rw [demand_groups (fun group member => wellFormed group (rearranges.mem member)) singleToo, rearranges.draftOf_eq]
  exact finished

theorem demand_arranged_help :
    ∃ invocation, demand ["-o", "--help", "--bpm", "-5", "-", "--bpm", "+90", "--events"] = .invoke invocation ∧
      demand ["--events", "-", "--bpm", "-5", "-o", "--help", "--bpm", "+90"] = .invoke invocation ∧
        invocation.input = .file "-" ∧ invocation.output = "--help" ∧ invocation.overrides.tempo = some 90 := by
  have slow : integer? "-5" = some (-5) := by decide
  have quick : integer? "+90" = some 90 := by decide
  have wellFormed : ∀ group ∈ [Group.output "-o" "--help", .setting .tempo "-5" (-5), .input "-",
      .setting .tempo "+90" 90, .events], group.WellFormed := by
    simp only [List.forall_mem_cons, List.not_mem_nil, false_imp_iff, implies_true, and_true]
    exact ⟨.inl rfl, integer?_eq_some.mp slow, .inl rfl, integer?_eq_some.mp quick, trivial⟩
  obtain ⟨invocation, first, asks, rearranged⟩ := demand_arranged wellFormed (.inl ⟨⟨"-", rfl⟩, rfl⟩)
  have second : demand ["--events", "-", "--bpm", "-5", "-o", "--help", "--bpm", "+90"] = .invoke invocation := by
    apply rearranged [.events, .input "-", .setting .tempo "-5" (-5), .output "-o" "--help", .setting .tempo "+90" 90]
    intro kind
    rcases kind with _ | _ | setting | _ | _
    case setting => cases setting <;> rfl
    all_goals rfl
  refine ⟨invocation, first, second, ?_, asks.output, asks.overrides .tempo⟩
  rcases asks.input with ⟨_, given, _⟩ | ⟨_, path, member, same⟩
  · cases given
  · have only : path = "-" := by simpa using member
    rw [same, only]

end StepGrid.Proofs.CommandGroups
