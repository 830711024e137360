import StepGrid.Json.Reader
import StepGrid.Proofs.JsonLexemes
import StepGrid.Proofs.TextLines

/-! A JSON text read line by line. A text that can be read is worth the lexemes of its
lines: it may be cut between lines, get blank lines or lose them, and carriage returns at
the ends of lines make no difference. -/

namespace StepGrid.Proofs.JsonLines
open Json Lexeme JsonLexemes Text TextLines

def kinds (text : List Char) : List Lexeme.Kind := (lexemes text).map (·.kind)

def Whole (kinds : List Lexeme.Kind) : Prop := ∀ kind ∈ kinds, isBroken kind = false

theorem whole_append {first second : List Lexeme.Kind} : Whole (first ++ second) ↔ Whole first ∧ Whole second :=
  List.forall_mem_append

theorem scan_eq (found : List Lexeme) (text : List Char) : scan found text = found.reverse ++ lexemes text := by
  have moved (before : List Lexeme) : scan (before ++ found) text = found.reverse ++ scan before text := by
    fun_induction scan before text with
    | case1 before => rw [scan, List.reverse_append]
    | case2 before char rest blank ih => rw [scan, if_pos blank, ih]
    | case3 before char rest solid ih => rw [scan, if_neg solid, ← ih, List.cons_append]
  exact moved []

/-- Induction on a text lexeme by lexeme. -/
theorem induct_lexemes {motive : List Char → Prop} (nil : motive [])
    (space : ∀ char rest, isSpace char = true → motive rest → motive (char :: rest))
    (lexeme : ∀ char rest, ¬ isSpace char = true → motive (cut char rest).2 → motive (char :: rest))
    (text : List Char) : motive text :=
  scan.induct (fun _ => motive) (fun _ => nil) (fun _ => space) (fun _ => lexeme) [] text

theorem lexemes_nil : lexemes [] = [] := by
  rw [lexemes, scan]
  rfl

theorem lexemes_space {char : Char} (blank : isSpace char = true) (rest : List Char) :
    lexemes (char :: rest) = lexemes rest := by
  rw [lexemes, scan, if_pos blank]
  rfl

theorem lexemes_lexeme {char : Char} (solid : ¬ isSpace char = true) (rest : List Char) :
    lexemes (char :: rest) = ⟨(cut char rest).1, char :: rest⟩ :: lexemes (cut char rest).2 := by
  rw [lexemes, scan, if_neg solid, scan_eq]
  rfl

theorem kinds_nil : kinds [] = [] := by
  rw [kinds, lexemes_nil, List.map_nil]

theorem kinds_space {char : Char} (blank : isSpace char = true) (rest : List Char) :
    kinds (char :: rest) = kinds rest := by
  rw [kinds, lexemes_space blank, kinds]

theorem kinds_lexeme {char : Char} (solid : ¬ isSpace char = true) (rest : List Char) :
    kinds (char :: rest) = (cut char rest).1 :: kinds (cut char rest).2 := by
  rw [kinds, lexemes_lexeme solid, List.map_cons, kinds]

private theorem isSpace_of_isBreak {stop : Char} (breaks : isBreak stop = true) : isSpace stop = true := by
  obtain rfl | rfl := eq_or_eq breaks <;> rfl

/-- The lexemes on both sides of a line break are those of both sides. -/
theorem kinds_append {stop : Char} (breaks : isBreak stop = true) {text : List Char} (whole : Whole (kinds text))
    (more : List Char) : kinds (text ++ stop :: more) = kinds text ++ kinds more := by
  induction text using induct_lexemes with
  | nil => rw [List.nil_append, kinds_space (isSpace_of_isBreak breaks), kinds_nil, List.nil_append]
  | space char rest blank ih =>
    rw [kinds_space blank] at whole ⊢
    rw [List.cons_append, kinds_space blank, ih whole]
  | lexeme char rest solid ih =>
    rw [kinds_lexeme solid] at whole ⊢
    obtain ⟨first, others⟩ := List.forall_mem_cons.mp whole
    rw [List.cons_append, kinds_lexeme solid, (cut_append breaks more char rest).whole first, ih others]
    rfl

theorem whole_of_append {stop : Char} (breaks : isBreak stop = true) {text more : List Char}
    (whole : Whole (kinds (text ++ stop :: more))) : Whole (kinds text) := by
  induction text using induct_lexemes with
  | nil =>
    rw [kinds_nil]
    exact nofun
  | space char rest blank ih =>
    rw [List.cons_append, kinds_space blank] at whole
    rw [kinds_space blank]
    exact ih whole
  | lexeme char rest solid ih =>
    have cutTwice := cut_append breaks more char rest
    rw [List.cons_append, kinds_lexeme solid] at whole
    obtain ⟨first, others⟩ := List.forall_mem_cons.mp whole
    have firstToo : isBroken (cut char rest).1 = false := by
      rw [← Bool.not_eq_true]
      intro broken
      rw [cutTwice.broken broken] at first
      cases first
    rw [cutTwice.whole firstToo] at others
    rw [kinds_lexeme solid]
    exact List.forall_mem_cons.mpr ⟨firstToo, ih others⟩

section Source
variable {next : Progress} {kind : Lexeme.Kind} {source : List Char} (other : List Char)

private theorem descend_of_source {slot : Slot} {outer : List Slot} {need : Need}
    (descended : Progress.descend slot outer need source = .ok next) :
    Progress.descend slot outer need other = .ok next := by
  unfold Progress.descend at descended ⊢
  split at descended
  next shallow => rwa [if_pos shallow]
  next => cases descended

private theorem takeValue_of_source {slot : Slot} {outer : List Slot}
    (taken : Progress.takeValue slot outer ⟨kind, source⟩ = .ok next) :
    Progress.takeValue slot outer ⟨kind, other⟩ = .ok next ∧ isBroken kind = false := by
  cases kind with
  | literal value => exact ⟨taken, rfl⟩
  | text value => exact ⟨taken, rfl⟩
  | openList => exact ⟨descend_of_source other taken, rfl⟩
  | openObject => exact ⟨descend_of_source other taken, rfl⟩
  | closeList =>
    cases slot with
    | whole | member _ _ => cases taken
    | item items =>
      cases items with
      | nil => exact ⟨taken, rfl⟩
      | cons _ _ => cases taken
  | closeObject | comma | colon | brokenText _ | brokenValue _ => cases taken

private theorem takeKey_of_source {members : List (String × Json)} {outer : List Slot}
    (taken : Progress.takeKey members outer ⟨kind, source⟩ = .ok next) :
    Progress.takeKey members outer ⟨kind, other⟩ = .ok next ∧ isBroken kind = false := by
  cases kind with
  | text key => exact ⟨taken, rfl⟩
  | closeObject =>
    cases members with
    | nil => exact ⟨taken, rfl⟩
    | cons _ _ => cases taken
  | openList | closeList | openObject | comma | colon | literal _ | brokenText _ | brokenValue _ => cases taken

/-- A step that succeeds looks at the kind of its lexeme only, and at no broken one. -/
theorem step_of_source {progress : Progress} (stepped : progress.step ⟨kind, source⟩ = .ok next) :
    progress.step ⟨kind, other⟩ = .ok next ∧ isBroken kind = false := by
  obtain ⟨need, outer⟩ := progress
  cases need with
  | value slot => exact takeValue_of_source other stepped
  | key members => exact takeKey_of_source other stepped
  | afterItem items =>
    cases kind with
    | comma | closeList => exact ⟨stepped, rfl⟩
    | openList | openObject | closeObject | colon | literal _ | text _ | brokenText _ | brokenValue _ => cases stepped
  | colon members key =>
    cases kind with
    | colon => exact ⟨stepped, rfl⟩
    | openList | closeList | openObject | closeObject | comma | literal _ | text _ | brokenText _ | brokenValue _ =>
      cases stepped
  | afterMember members =>
    cases kind with
    | comma | closeObject => exact ⟨stepped, rfl⟩
    | openList | closeList | openObject | colon | literal _ | text _ | brokenText _ | brokenValue _ => cases stepped
  | nothing value => cases stepped

end Source

private theorem run_of_kinds {progress : Progress} {value : Json} {first second : List Lexeme}
    (ran : progress.run first = .ok value) (same : first.map (·.kind) = second.map (·.kind)) :
    progress.run second = .ok value ∧ Whole (first.map (·.kind)) := by
  induction first generalizing progress second with
  | nil =>
    rw [List.map_nil, eq_comm, List.map_eq_nil_iff] at same
    rw [same]
    exact ⟨ran, nofun⟩
  | cons lexeme rest ih =>
    cases second with
    | nil => cases same
    | cons other others =>
      obtain ⟨sameKind, sameRest⟩ := List.cons.inj same
      rw [Progress.run] at ran
      split at ran
      next next stepped =>
        obtain ⟨steppedToo, whole⟩ := step_of_source other.source stepped
        obtain ⟨ranToo, wholeRest⟩ := ih ran sameRest
        have steppedOther : progress.step other = .ok next := by
          rw [← steppedToo, show lexeme.kind = other.kind from sameKind]
        rw [Progress.run, steppedOther]
        exact ⟨ranToo, List.forall_mem_cons.mpr ⟨whole, wholeRest⟩⟩
      next => cases ran

theorem read_of_kinds {first second : List Char} {value : Json} (read : Json.read first = .ok value)
    (same : kinds first = kinds second) : Json.read second = .ok value :=
  (run_of_kinds read same).1

theorem whole_of_read {text : List Char} {value : Json} (read : Json.read text = .ok value) : Whole (kinds text) :=
  (run_of_kinds read rfl).2

theorem kinds_joinLines {lines : List (List Char)} (whole : Whole (lines.flatMap kinds)) :
    kinds (joinLines lines) = lines.flatMap kinds := by
  induction lines with
  | nil => exact kinds_nil
  | cons line rest ih =>
    obtain ⟨wholeLine, wholeRest⟩ := whole_append.mp whole
    cases rest with
    | nil => simp [joinLines]
    | cons next others =>
      rw [joinLines_cons_cons, kinds_append rfl wholeLine, ih wholeRest]
      rfl

/-- A text without broken lexemes has the lexemes of its lines. -/
theorem kinds_eq_of_whole {lines : List (List Char)} (whole : Whole (kinds (joinLines lines))) :
    kinds (joinLines lines) = lines.flatMap kinds := by
  apply kinds_joinLines
  induction lines with
  | nil => exact nofun
  | cons line rest ih =>
    cases rest with
    | nil => simpa [joinLines] using whole
    | cons next others =>
      rw [joinLines_cons_cons] at whole
      have wholeLine := whole_of_append rfl whole
      rw [kinds_append rfl wholeLine] at whole
      exact whole_append.mpr ⟨wholeLine, ih (whole_append.mp whole).2⟩

theorem kinds_withoutReturn {line : List Char} (whole : Whole (kinds line)) :
    kinds (withoutReturn line) = kinds line := by
  unfold withoutReturn
  split
  next returned =>
    obtain ⟨before, rfl⟩ := List.getLast?_eq_some_iff.mp returned
    have wholeBefore : Whole (kinds before) := whole_of_append rfl whole
    rw [List.dropLast_concat, kinds_append rfl wholeBefore, kinds_nil, List.append_nil]
  next => rfl

theorem kinds_map_withoutReturn {lines : List (List Char)} (whole : Whole (lines.flatMap kinds)) :
    (lines.map withoutReturn).flatMap kinds = lines.flatMap kinds := by
  rw [List.flatMap_map]
  apply List.flatMap_congr
  intro line member
  exact kinds_withoutReturn fun kind present => whole kind (List.mem_flatMap.mpr ⟨line, member, present⟩)

theorem kinds_linesOf {pieces : List (List Char)} (whole : Whole (pieces.flatMap kinds)) :
    (linesOf pieces).flatMap kinds = pieces.flatMap kinds := by
  rcases pieces.eq_nil_or_concat' with rfl | ⟨before, last, rfl⟩
  · rfl
  · have final : (linesOf [last]).flatMap kinds = [last].flatMap kinds := by
      cases last with
      | nil => rw [List.flatMap_singleton, kinds_nil]; rfl
      | cons char rest => rfl
    rw [List.flatMap_append] at whole ⊢
    rw [linesOf_append before (List.cons_ne_nil _ _), List.flatMap_append, final,
      kinds_map_withoutReturn (whole_append.mp whole).1]

/-- A text that can be read is worth its lines. -/
theorem kinds_lines {text : List Char} (whole : Whole (kinds text)) : (lines text).flatMap kinds = kinds text := by
  have split : kinds text = (pieces text).flatMap kinds := by
    rw [← joinLines_pieces text] at whole
    conv_lhs => rw [← joinLines_pieces text]
    exact kinds_eq_of_whole whole
  rw [split] at whole ⊢
  exact kinds_linesOf whole

end StepGrid.Proofs.JsonLines
