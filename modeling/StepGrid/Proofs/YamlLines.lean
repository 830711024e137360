import StepGrid.Proofs.YamlTokens
import StepGrid.Yaml.Document

/-! Flat mappings with one key a line, and the document that is read from one: the mapping, and
the keys and values in turn. -/

namespace StepGrid.Proofs.YamlLines
open Yaml Lexer YamlScalars YamlTokens

section Lines

/-- The value at the end of a line: a word, which is more than a hyphen, or a quoted text in ASCII. -/
inductive Leaf where
  | word (text : List Char) (chars : ∀ char ∈ text, isWordChar char = true) (filled : text ≠ [])
    (solid : text ≠ ['-'])
  | quoted (text : List Char) (printed : ∀ char ∈ text, isPrinted char = true)

namespace Leaf

def text : Leaf → List Char
  | word text _ _ _ => text
  | quoted text _ => text

def style : Leaf → ScalarStyle
  | word .. => .plain
  | quoted .. => .singleQuoted

def written : Leaf → List Char
  | word text _ _ _ => text
  | quoted text _ => '\'' :: (doubled text ++ ['\''])

def scalar (leaf : Leaf) (mark : Mark) : Scalar := ⟨leaf.text, leaf.style, none, mark⟩

end Leaf

structure Line where
  initial : Char
  more : List Char
  chars : ∀ char ∈ initial :: more, isWordChar char = true
  letter : initial ≠ '-'
  value : Leaf

namespace Line

def key (line : Line) : List Char := line.initial :: line.more

def written (line : Line) : List Char := line.key ++ ':' :: ' ' :: line.value.written

def isShort (line : Line) : Bool := line.key.length ≤ longestKey

def kinds (line : Line) : List Token.Kind :=
  [.key, .scalar .plain line.key, .value, .scalar line.value.style line.value.text]

end Line

def continued (lines : List Line) : List Char := lines.flatMap fun line => '\n' :: line.written

/-- After a value the text ends, or the lexer comes to the next line, where a key may start. -/
def EndsLine (cursor : Cursor) (keyAllowed : Bool) : List Line → Prop
  | [] => cursor.rest = []
  | line :: lines => ∃ mark : Mark, mark.column = 0 ∧
      toVisible false keyAllowed false cursor.mark cursor.rest = (true, ⟨line.written ++ continued lines, mark⟩)

end Lines

section Runs

variable {released : Nat} {cursor : Cursor} {tokens : List Token} {columns : List Nat} {keyAllowed : Bool}

/-- Where no key may start, a scalar is nothing but itself. -/
theorem takeScalar_between (style : ScalarStyle) {read : Lexer → Except Malformed ScalarEnd} {scalar : ScalarEnd}
    (found : read (between none released cursor tokens columns false) = .ok scalar) :
    (between none released cursor tokens columns false).takeScalar style read =
      .ok (between none released scalar.cursor (⟨.scalar style scalar.text, cursor.mark⟩ :: tokens) columns
        scalar.crossedLine) := by
  rw [takeScalar]
  change read (between none released cursor tokens columns false) >>= _ = _
  rw [found]
  rfl

private theorem endsLine_feed (mark : Mark) (lines : List Line) : EndsLine ⟨continued lines, mark⟩ false lines := by
  cases lines with
  | nil => rfl
  | cons line lines =>
    refine ⟨mark.after '\n', rfl, ?_⟩
    exact (toVisible_line false mark _).trans (toVisible_word false true _ (line.chars _ List.mem_cons_self) _)

variable (released tokens) (lines : List Line) (mark : Mark)

private theorem readPlain_word {text : List Char} (chars : ∀ char ∈ text, isWordChar char = true) :
    ∃ last keyAllowed, EndsLine last keyAllowed lines ∧ last.rest.length ≤ (continued lines).length ∧
      readPlain (between none released ⟨text ++ continued lines, mark⟩ tokens [0] false) =
        .ok ⟨text, last, keyAllowed⟩ := by
  cases lines with
  | nil =>
    refine ⟨⟨[], text.foldl Mark.after mark⟩, false, rfl, Nat.le_refl _, ?_⟩
    rw [continued, List.flatMap_nil, List.append_nil]
    exact plainScalar_end 1 chars mark
  | cons line lines =>
    have word := line.chars _ List.mem_cons_self
    refine ⟨⟨line.written ++ continued lines, (text ++ ['\n']).foldl Mark.after mark⟩, true,
      ⟨(text ++ ['\n']).foldl Mark.after mark, ?_, toVisible_word false true _ word _⟩, Nat.le_succ _, ?_⟩
    · rw [List.foldl_append]
      rfl
    · exact plainScalar_line 1 chars Int.one_pos mark (isVisible_of_isWordChar word) _

/-- A word after a key is one token, also if it starts with a hyphen. -/
theorem run_word {initial : Char} {more : List Char} (chars : ∀ char ∈ initial :: more, isWordChar char = true)
    (solid : initial :: more ≠ ['-']) :
    ∃ last place keyAllowed, EndsLine last keyAllowed lines ∧
      (between none released ⟨' ' :: (initial :: more) ++ continued lines, mark⟩ tokens [0] false).run =
        (between none tokens.length last (⟨.scalar .plain (initial :: more), place⟩ :: tokens) [0] keyAllowed).run := by
  obtain ⟨first, others⟩ := List.forall_mem_cons.mp chars
  obtain ⟨last, keyAllowed, ends, near, read⟩ := readPlain_word tokens.length tokens lines (mark.after ' ') chars
  have token : (between none tokens.length ⟨initial :: more ++ continued lines, mark.after ' '⟩ tokens [0]
      false).takeToken initial (more ++ continued lines) =
      .ok (between none tokens.length last (⟨.scalar .plain (initial :: more), mark.after ' '⟩ :: tokens) [0]
        keyAllowed) := by
    rw [takeToken_word rfl first]
    · exact takeScalar_between .plain read
    · rintro rfl
      cases more with
      | nil => exact absurd rfl solid
      | cons next _ => exact ⟨Nat.succ_pos _, isVisible_of_isWordChar (others next List.mem_cons_self)⟩
  refine ⟨last, mark.after ' ', keyAllowed, ends, run_of_takeToken (by simp) ?_ (by simp) token rfl rfl ?_⟩
  · exact (toVisible_space false false mark _).trans (toVisible_word false false _ first _)
  · exact Nat.le_trans near (by simp)

/-- So is a quoted text, after which the lexer is at the end of the line. -/
theorem run_quoted {text : List Char} (printed : ∀ char ∈ text, isPrinted char = true) :
    ∃ last place, (between none released ⟨' ' :: '\'' :: (doubled text ++ '\'' :: continued lines), mark⟩ tokens [0]
        false).run =
      (between none tokens.length ⟨continued lines, last⟩ (⟨.scalar .singleQuoted text, place⟩ :: tokens) [0]
        false).run := by
  have opened : (continued lines).head? ≠ some '\'' := by
    cases lines <;> simp [continued]
  have inLine (char : Char) (member : char ∈ text) := isBreak_of_isPrinted (printed char member)
  obtain ⟨last, read⟩ : ∃ last, readSingleQuoted (between none tokens.length
      ⟨'\'' :: (doubled text ++ '\'' :: continued lines), mark.after ' '⟩ tokens [0] false) =
        .ok ⟨text, ⟨continued lines, last⟩, false⟩ :=
    ⟨_, singleQuoted_doubled inLine [] rfl (Nat.succ_pos _) opened⟩
  have token := (takeToken_quote _ (doubled text ++ '\'' :: continued lines)).trans (takeScalar_between .singleQuoted read)
  refine ⟨last, mark.after ' ', run_of_takeToken (by simp) ?_ (by simp) token rfl rfl ?_⟩
  · exact (toVisible_space false false mark _).trans
      (toVisible_visible false false _ (by decide) (by decide) (by decide) _)
  · rw [List.length_append, List.length_cons]
    exact Nat.le_trans (Nat.le_succ _) (Nat.le_add_left _ _)

private theorem run_leaf (leaf : Leaf) :
    ∃ last place keyAllowed, EndsLine last keyAllowed lines ∧
      (between none released ⟨' ' :: leaf.written ++ continued lines, mark⟩ tokens [0] false).run =
        (between none tokens.length last (⟨.scalar leaf.style leaf.text, place⟩ :: tokens) [0] keyAllowed).run := by
  cases leaf with
  | word text chars filled solid =>
    obtain ⟨initial, more, rfl⟩ := List.exists_cons_of_ne_nil filled
    exact run_word released tokens lines mark chars solid
  | quoted text printed =>
    obtain ⟨last, place, run⟩ := run_quoted released tokens lines mark printed
    refine ⟨⟨continued lines, last⟩, place, false, endsLine_feed last lines, ?_⟩
    simpa [Leaf.written, Leaf.style, Leaf.text] using run

variable {lines}

/-- The tokens of a line, the first of which opens the mapping. -/
theorem run_line {line : Line} (short : line.key.length ≤ longestKey) (top : columns = [] ∨ columns = [0])
    (ends : EndsLine cursor keyAllowed (line :: lines)) :
    ∃ released' last later keyAllowed', EndsLine last keyAllowed' lines ∧
      later.reverse.map (·.kind) =
        tokens.reverse.map (·.kind) ++ (if columns.isEmpty then [.blockMapping] else []) ++ line.kinds ∧
      (between none released cursor tokens columns keyAllowed).run =
        (between none released' last later [0] keyAllowed').run := by
  obtain ⟨mark, first, sought⟩ := ends
  rw [Line.written, List.append_assoc] at sought
  obtain ⟨last, place, keyAllowed', endsLater, run⟩ :=
    run_leaf _ _ lines ((line.key.foldl Mark.after mark).after ':') line.value
  refine ⟨_, last, _, keyAllowed', endsLater, ?_, (run_key line.chars line.letter top first sought short).trans run⟩
  rcases top with rfl | rfl <;> simp [keyTokens, Line.kinds, Line.key]

/-- A run tells the tokens of some lines after others, if no key among the lines is too long. -/
structure Tells (run : Tokens) (before : List Token.Kind) (lines : List Line) : Prop where
  complete : run.complete = lines.all Line.isShort
  kinds : lines.all Line.isShort = true →
    run.list.map (·.kind) = before ++ lines.flatMap Line.kinds ++ [.blockEnd, .streamEnd]

theorem tells_cons {line : Line} (top : columns = [] ∨ columns = [0])
    (ends : EndsLine cursor keyAllowed (line :: lines))
    (others : ∀ released last tokens keyAllowed, EndsLine last keyAllowed lines →
      Tells (between none released last tokens [0] keyAllowed).run (tokens.reverse.map (·.kind)) lines) :
    Tells (between none released cursor tokens columns keyAllowed).run
      (tokens.reverse.map (·.kind) ++ if columns.isEmpty then [.blockMapping] else []) (line :: lines) := by
  by_cases short : line.key.length ≤ longestKey
  · obtain ⟨released', last, later, keyAllowed', endsLater, told, run⟩ :=
      run_line released tokens short top ends
    obtain ⟨complete, kinds⟩ := others released' last later keyAllowed' endsLater
    have shorter : line.isShort = true := decide_eq_true short
    rw [run]
    refine ⟨by simp [complete, shorter], fun all => ?_⟩
    rw [List.all_cons, shorter, Bool.true_and] at all
    simp [kinds all, told]
  · obtain ⟨mark, first, sought⟩ := ends
    have longer : line.isShort = false := decide_eq_false short
    rw [Line.written, List.append_assoc] at sought
    have broken : (between none released cursor tokens columns keyAllowed).run.complete = false :=
      run_key_long line.chars line.letter top first sought (Nat.lt_of_not_le short)
    exact ⟨by simp [broken, longer], fun all => by simp [longer] at all⟩

/-- The lines after the first: each starts where the one before it ends. -/
theorem tells_lines (lines : List Line) (released : Nat) (cursor : Cursor) (tokens : List Token) (keyAllowed : Bool)
    (ends : EndsLine cursor keyAllowed lines) :
    Tells (between none released cursor tokens [0] keyAllowed).run (tokens.reverse.map (·.kind)) lines := by
  induction lines generalizing released cursor tokens keyAllowed with
  | nil =>
    obtain ⟨rest, mark⟩ := cursor
    obtain rfl : rest = [] := ends
    have done := run_end released mark tokens keyAllowed
    exact ⟨by simp [done.1], fun _ => by simp [done.2]⟩
  | cons line lines ih => simpa using tells_cons released tokens (.inr rfl) ends ih

end Runs

section Texts

private theorem legible_of_printable {text : List Char} (printable : ∀ char ∈ text, isPrintable char = true)
    (room : Nat)
    (earlier portion : List Char) : legible room earlier portion text = ((portion ++ earlier).reverse ++ text, false) := by
  induction text generalizing room earlier portion with
  | nil => simp [legible]
  | cons char text ih =>
    obtain ⟨first, others⟩ := List.forall_mem_cons.mp printable
    rw [legible, if_pos first, ih others]
    split_ifs <;> simp

private theorem plainBreaks_of_plain {text : List Char} (plain : ∀ char ∈ text, char ≠ '\r' ∧ char ≠ '\u0085')
    (done : List Char) : plainBreaks done text = done.reverse ++ text := by
  induction text generalizing done with
  | nil => simp [plainBreaks]
  | cons char text ih =>
    obtain ⟨⟨noReturn, noNext⟩, others⟩ := List.forall_mem_cons.mp plain
    rw [plainBreaks, ih others]
    · simp
    · rintro _ rfl _
      exact noReturn rfl
    · exact noReturn
    · exact noNext

private theorem isPrintable_of_isPrinted {char : Char} (printed : isPrinted char = true) :
    isPrintable char = true := by
  obtain ⟨low, high⟩ := isPrinted_iff.mp printed
  simp [isPrintable, low, high]

private theorem Line.isPrinted_of_mem {line : Line} {char : Char} (member : char ∈ line.written) :
    isPrinted char = true := by
  have word {text : List Char} (chars : ∀ char ∈ text, isWordChar char = true) (member : char ∈ text) :=
    isPrinted_of_isWordChar (chars char member)
  simp only [Line.written, List.mem_append, List.mem_cons] at member
  rcases member with key | rfl | rfl | value
  · exact word line.chars key
  · decide
  · decide
  · cases found : line.value with
    | word text chars filled solid => exact word chars (by simpa [found, Leaf.written] using value)
    | quoted text printed =>
      simp only [found, Leaf.written, List.mem_cons, List.mem_append, List.not_mem_nil, or_false] at value
      rcases value with rfl | quoted | rfl
      · decide
      · exact isPrinted_of_mem_doubled printed quoted
      · decide

/-- The tokens of a flat mapping are those of its lines, unless a key is too long. -/
theorem tells_written (line : Line) (lines : List Line) :
    Tells (Yaml.tokens (line.written ++ continued lines)) [.blockMapping] (line :: lines) := by
  have chars {char : Char} (member : char ∈ line.written ++ continued lines) :
      char = '\n' ∨ isPrinted char = true := by
    simp only [continued, List.mem_append, List.mem_flatMap, List.mem_cons] at member
    rcases member with first | ⟨_, _, rfl | later⟩
    · exact .inr (Line.isPrinted_of_mem first)
    · exact .inl rfl
    · exact .inr (Line.isPrinted_of_mem later)
  have printable : ∀ char ∈ line.written ++ continued lines, isPrintable char = true := by
    intro char member
    rcases chars member with rfl | printed
    · decide
    · exact isPrintable_of_isPrinted printed
  have plain : ∀ char ∈ line.written ++ continued lines, char ≠ '\r' ∧ char ≠ '\u0085' := by
    intro char member
    rcases chars member with rfl | printed
    · decide
    · exact ⟨ne_of_isPrinted printed _ (by decide), ne_of_isPrinted printed _ (by decide)⟩
  have word := line.chars _ List.mem_cons_self
  rw [Yaml.tokens, legible_of_printable printable]
  dsimp only
  rw [List.append_nil, List.reverse_nil, List.nil_append, plainBreaks_of_plain plain, List.reverse_nil, List.nil_append]
  exact tells_cons 0 [] (.inl rfl) ⟨.start, rfl, toVisible_word false true .start word _⟩ (tells_lines lines)

end Texts

section Members

theorem ofNeeds_of_step {handles : Handles} {need : Need} {step : Yaml.Step} {tokens : List Token}
    (met : List Event) (later : List Need) (taken : Yaml.Step.ofNeed handles need tokens = some step) :
    Listing.ofNeeds handles met (need :: later) tokens =
      Listing.ofNeeds handles (step.events.reverse ++ met) (step.needs ++ later) step.rest := by
  rw [Listing.ofNeeds]
  split
  next none => cases none.symm.trans taken
  next found =>
    cases found.symm.trans taken
    rfl

/-- The keys and values of lines in turn, each with its place. -/
inductive Members : List Line → List Member → Prop where
  | nil : Members [] []
  | cons (line : Line) (key value : Mark) {lines : List Line} {members : List Member} (others : Members lines members) :
    Members (line :: lines) (⟨false, .scalar ⟨line.key, .plain, none, key⟩⟩ ::
      ⟨false, .scalar (line.value.scalar value)⟩ :: members)

/-- A pair of a key and a value without properties is met as two scalars. -/
theorem ofNeeds_pair (met : List Event) (line : Line) (first key second value : Mark) (rest : List Token) :
    Listing.ofNeeds standardHandles met [.blockKey]
        (⟨.key, first⟩ :: ⟨.scalar .plain line.key, key⟩ :: ⟨.value, second⟩ ::
          ⟨.scalar line.value.style line.value.text, value⟩ :: rest) =
      Listing.ofNeeds standardHandles
        (.node none (.scalar (line.value.scalar value)) ::
          .node none (.scalar ⟨line.key, .plain, none, key⟩) :: met) [.blockKey] rest := by
  rw [ofNeeds_of_step _ _ rfl]
  change Listing.ofNeeds _ met [.node .underKey, .blockValue, .blockKey] _ = _
  rw [ofNeeds_of_step _ _ rfl]
  change Listing.ofNeeds _ _ [.blockValue, .blockKey] (⟨.value, second⟩ :: _) = _
  rw [ofNeeds_of_step _ _ rfl]
  change Listing.ofNeeds _ _ [.node .underKey, .blockKey] _ = _
  rw [ofNeeds_of_step _ _ rfl]
  rfl

theorem eq_cons_of_map_kind {tokens : List Token} {kind : Token.Kind} {kinds : List Token.Kind}
    (told : tokens.map (·.kind) = kind :: kinds) :
    ∃ mark later, tokens = ⟨kind, mark⟩ :: later ∧ later.map (·.kind) = kinds := by
  obtain ⟨⟨_, mark⟩, later, rfl, rfl, others⟩ := List.map_eq_cons_iff.mp told
  exact ⟨mark, later, rfl, others⟩

private theorem ofNeeds_lines (met : List Event) (lines : List Line) {tokens : List Token}
    (told : tokens.map (·.kind) = lines.flatMap Line.kinds ++ [.blockEnd, .streamEnd]) :
    ∃ members rest, Members lines members ∧ isTextEnd rest = true ∧
      Listing.ofNeeds standardHandles met [.blockKey] tokens =
        ⟨met.reverse ++ (members.map fun member => .node none member.node) ++ [.close], some rest⟩ := by
  induction lines generalizing met tokens with
  | nil =>
    obtain ⟨mark, later, rfl, last⟩ := eq_cons_of_map_kind told
    obtain ⟨place, none, rfl, nothing⟩ := eq_cons_of_map_kind last
    obtain rfl := List.map_eq_nil_iff.mp nothing
    refine ⟨[], [⟨.streamEnd, place⟩], .nil, rfl, ?_⟩
    rw [ofNeeds_of_step _ _ rfl]
    change Listing.ofNeeds _ (.close :: met) [] [⟨.streamEnd, place⟩] = _
    rw [Listing.ofNeeds]
    simp
  | cons line lines ih =>
    obtain ⟨first, later, rfl, afterFirst⟩ := eq_cons_of_map_kind told
    obtain ⟨key, later, rfl, afterKey⟩ := eq_cons_of_map_kind afterFirst
    obtain ⟨second, later, rfl, afterSecond⟩ := eq_cons_of_map_kind afterKey
    obtain ⟨value, later, rfl, others⟩ := eq_cons_of_map_kind afterSecond
    obtain ⟨members, rest, given, ended, listed⟩ := ih _ others
    refine ⟨_, rest, .cons line key value given, ended, ?_⟩
    rw [ofNeeds_pair, listed]
    simp

/-- Scalars right inside the root are met one by one. -/
theorem ofEvents_members {lines : List Line} {members : List Member} (given : Members lines members)
    (met : List Reference) :
    Outline.ofEvents 1 ⟨[], []⟩ met ((members.map fun member => .node none member.node) ++ [.close]) =
      ⟨⟨[], []⟩, met.reverse ++ members.map fun member => .here member.node, true⟩ := by
  induction given generalizing met with
  | nil => simp [Outline.ofEvents]
  | cons line key value others ih => simp [Outline.ofEvents, Node.isCollection, ih]

private theorem filterMap_resolve? {lines : List Line} {members : List Member} (given : Members lines members) :
    (members.map fun member => Reference.here member.node).filterMap (·.resolve? ⟨[], []⟩) = members := by
  induction given with
  | nil => rfl
  | cons line key value others ih => exact congrArg (fun later => _ :: _ :: later) ih

/-- The document of a flat mapping, which is known in full unless a key is too long. -/
theorem document_written (line : Line) (lines : List Line) :
    (document (line.written ++ continued lines)).complete = (line :: lines).all Line.isShort ∧
    ((line :: lines).all Line.isShort = true → ∃ mark members, Members (line :: lines) members ∧
      (document (line.written ++ continued lines)).members = ⟨false, .mapping mark⟩ :: members) := by
  obtain ⟨complete, kinds⟩ := tells_written line lines
  cases short : (line :: lines).all Line.isShort with
  | true =>
    have told := kinds short
    rw [List.append_assoc, List.singleton_append] at told
    obtain ⟨mark, later, found, others⟩ := eq_cons_of_map_kind told
    obtain ⟨members, rest, given, ended, listed⟩ := ofNeeds_lines [.node none (.mapping mark)] (line :: lines) others
    have listing : Listing.ofDocument (Yaml.tokens (line.written ++ continued lines)).list =
        ⟨.node none (.mapping mark) :: (members.map fun member => .node none member.node) ++ [.close], some rest⟩ := by
      rw [found]
      change Listing.ofNeeds standardHandles [] [.node .block] (⟨.blockMapping, mark⟩ :: later) = _
      rw [ofNeeds_of_step _ _ rfl]
      exact listed
    have outline : Outline.ofEvents 0 ⟨[], []⟩ []
        (.node none (.mapping mark) :: (members.map fun member => .node none member.node) ++ [.close]) =
        ⟨⟨[], []⟩, .here (.mapping mark) :: members.map fun member => .here member.node, true⟩ :=
      ofEvents_members given [.here (.mapping mark)]
    have resolved : (Reference.here (.mapping mark) :: members.map fun member => Reference.here member.node).filterMap
        (·.resolve? ⟨[], []⟩) = ⟨false, .mapping mark⟩ :: members :=
      congrArg (_ :: ·) (filterMap_resolve? given)
    simp only [document, listing, outline, resolved, complete, short, Option.any_some, ended, Bool.true_and, true_and]
    exact fun _ => ⟨mark, members, given, rfl⟩
  | false =>
    refine ⟨?_, fun all => absurd all Bool.false_ne_true⟩
    simp only [document, complete, short, Bool.and_false, Bool.false_and]

end Members

end StepGrid.Proofs.YamlLines
