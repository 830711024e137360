import StepGrid.Proofs.JsonLines
import StepGrid.Proofs.TextPlaces

/-! A fault lies in the text that it is found in: no more bytes are left after it than the
text has. Blank lines before a text are no lexemes, and leave its faults what they are. -/

namespace StepGrid.Proofs.JsonPlaces
open Json Lexeme Text TextLines TextPlaces JsonLines

/-- A broken lexeme has its fault among so many last bytes. -/
def Inside (bytes : Nat) : Lexeme.Kind → Prop
  | .brokenText failure => failure.left ≤ bytes
  | .brokenValue failure => failure.left ≤ bytes
  | _ => True

theorem Inside.mono {bytes more : Nat} {kind : Lexeme.Kind} (inside : Inside bytes kind) (le : bytes ≤ more) :
    Inside more kind := by
  cases kind with
  | brokenText failure => exact Nat.le_trans inside le
  | brokenValue failure => exact Nat.le_trans inside le
  | openList | closeList | openObject | closeObject | comma | colon | literal _ | text _ => trivial

theorem Inside.of_suffix {short long : List Char} {kind : Lexeme.Kind} (inside : Inside (byteLength short) kind)
    (ends : short <:+ long) : Inside (byteLength long) kind := inside.mono (byteLength_le_of_suffix ends)

theorem left_at_le (fault : Fault) {rest : List Char} {bytes : Nat} (near : byteLength rest ≤ bytes) :
    (Failure.at fault rest).left ≤ bytes := Nat.le_trans (Nat.sub_le _ _) near

private theorem inside_brokenUnit (rest : List Char) : Inside (byteLength rest) (brokenUnit rest).1 := by
  unfold brokenUnit
  split
  · exact Nat.zero_le _
  · exact Nat.sub_le _ _

private theorem inside_cutText (lead : Option Nat) (taken text : List Char) :
    Inside (byteLength text) (cutText lead taken text).1 := by
  fun_induction cutText lead taken text with
  | case1 | case2 => exact Nat.zero_le _
  | case3 => exact (inside_brokenUnit _).of_suffix ⟨['\\', 'u'], rfl⟩
  | case4 _ a b c d tail => exact byteLength_le_of_suffix ⟨['\\', 'u', a, b, c, d], rfl⟩
  | case5 _ a b c d _ _ _ _ _ ih => exact ih.of_suffix ⟨['\\', 'u', a, b, c, d], rfl⟩
  | case6 _ a b c d _ _ _ _ _ ih => exact ih.of_suffix ⟨['\\', 'u', a, b, c, d], rfl⟩
  | case7 _ a b c d _ _ _ _ _ ih => exact ih.of_suffix ⟨['\\', 'u', a, b, c, d], rfl⟩
  | case8 _ a b c d tail => exact byteLength_le_of_suffix ⟨['\\', 'u', a, b, c, d], rfl⟩
  | case9 => exact (inside_brokenUnit _).of_suffix ⟨['\\', 'u'], rfl⟩
  | case10 | case12 => exact left_at_le _ (byteLength_le_of_suffix (List.suffix_cons _ _))
  | case11 _ _ escaped _ _ _ _ _ ih => exact ih.of_suffix ⟨['\\', escaped], rfl⟩
  | case13 | case15 => exact left_at_le _ (Nat.le_refl _)
  | case14 => trivial
  | case16 _ _ _ _ _ _ _ _ ih => exact ih.of_suffix (List.suffix_cons _ _)

section Numeral

private theorem excess_le {value left : Nat} {digits : List Char} (found : Numeral.excess value digits = some left) :
    left ≤ digits.length := by
  induction digits generalizing value with
  | nil => cases found
  | cons digit rest ih =>
    rw [Numeral.excess] at found
    split at found
    next =>
      cases found
      exact Nat.le_succ _
    next => exact Nat.le_succ_of_le (ih found)

def exponentDigits (numeral : Numeral) : Nat := numeral.exponent.elim 0 (·.digits.length)

/-- Only digits of an exponent can be more than are needed to refuse a numeral. -/
theorem unneeded_le {numeral : Numeral} {unneeded : Nat} (refused : numeral.value = .error unneeded) :
    unneeded ≤ exponentDigits numeral := by
  unfold Numeral.value at refused
  dsimp only at refused
  split at refused
  next => cases refused
  next =>
    split at refused
    next =>
      split at refused
      next => cases refused
      next =>
        cases refused
        exact Nat.zero_le _
    next negative digits scaled =>
      rw [exponentDigits, scaled]
      split at refused
      next found =>
        split at refused
        next =>
          cases refused
          exact excess_le found
        next => cases refused
      next =>
        split at refused
        next => cases refused
        next =>
          cases refused
          exact Nat.zero_le _

private theorem inside_evaluate (numeral : Numeral) (rest : List Char) :
    Inside (exponentDigits numeral + byteLength rest) (evaluate numeral rest).1 := by
  unfold evaluate
  cases value : numeral.value with
  | ok _ => trivial
  | error unneeded =>
    have few := unneeded_le value
    change byteLength rest + unneeded ≤ _
    omega

theorem inside_brokenDigits (rest : List Char) : Inside (byteLength rest) (brokenDigits rest).1 := left_at_le _
    (Nat.le_refl _)

private theorem inside_cutScale (numeral : Numeral) (negative : Bool) (text : List Char) :
    Inside (byteLength text) (cutScale numeral negative text).1 := by
  fun_cases cutScale numeral negative text with
  | case1 => exact inside_brokenDigits _
  | case2 =>
    apply (inside_evaluate _ _).mono
    have split : byteLength text = byteLength (text.takeWhile Digits.isDigit) + byteLength (text.dropWhile Digits.isDigit) := by
      rw [← byteLength_append, List.takeWhile_append_dropWhile]
    have digits := length_le_byteLength (text.takeWhile Digits.isDigit)
    simp only [exponentDigits, Option.elim_some]
    omega

variable {numeral : Numeral} (bare : numeral.exponent = none)
include bare

private theorem inside_evaluate_bare (rest : List Char) : Inside (byteLength rest) (evaluate numeral rest).1 := by
  have inside := inside_evaluate numeral rest
  rwa [exponentDigits, bare, Option.elim_none, Nat.zero_add] at inside

private theorem inside_cutExponent (text : List Char) : Inside (byteLength text) (cutExponent numeral text).1 := by
  fun_cases cutExponent numeral text with
  | case1 => exact inside_evaluate_bare bare _
  | case2 mark rest =>
    exact (inside_cutScale _ _ _).of_suffix ((cutSign_suffix rest).trans (List.suffix_cons _ _))
  | case3 => exact inside_evaluate_bare bare _

private theorem inside_cutFraction (text : List Char) : Inside (byteLength text) (cutFraction numeral text).1 := by
  fun_cases cutFraction numeral text with
  | case1 rest => exact (inside_brokenDigits _).of_suffix (List.suffix_cons _ _)
  | case2 rest =>
    exact (inside_cutExponent (by exact bare) _).of_suffix ((List.dropWhile_suffix _).trans (List.suffix_cons _ _))
  | case3 => exact inside_cutExponent bare _

end Numeral

private theorem inside_cutNumeral (negative : Bool) (text : List Char) :
    Inside (byteLength text) (cutNumeral negative text).1 := by
  fun_cases cutNumeral negative text with
  | case1 => exact inside_brokenDigits _
  | case2 => exact left_at_le _ (byteLength_le_of_suffix (List.drop_suffix _ _))
  | case3 => exact (inside_cutFraction rfl _).of_suffix (List.dropWhile_suffix _)

private theorem inside_cutWord (value : Json) (word text : List Char) :
    Inside (byteLength text) (cutWord value word text).1 := by
  fun_induction cutWord value word text with
  | case1 => trivial
  | case2 => exact left_at_le _ (Nat.le_refl _)
  | case3 _ _ _ ih => exact ih.of_suffix (List.suffix_cons _ _)
  | case4 => exact left_at_le _ (Nat.le_refl _)

private theorem inside_cut (char : Char) (rest : List Char) : Inside (byteLength (char :: rest))
    (cut char rest).1 := by
  fun_cases cut char rest with
  | case7 => exact (inside_cutText _ _ _).of_suffix (List.suffix_cons _ _)
  | case8 | case9 | case10 => exact (inside_cutWord _ _ _).of_suffix (List.suffix_cons _ _)
  | case11 => exact (inside_cutNumeral _ _).of_suffix (List.suffix_cons _ _)
  | case12 _ digit =>
    rw [if_pos digit]
    exact inside_cutNumeral _ _
  | case13 _ other =>
    rw [if_neg other]
    exact left_at_le _ (Nat.le_refl _)
  | case1 | case2 | case3 | case4 | case5 | case6 => trivial

/-- All lexemes of a text, and what is wrong with them, lie in it. -/
theorem lexemes_inside (text : List Char) :
    ∀ lexeme ∈ lexemes text, byteLength lexeme.source ≤ byteLength text ∧ Inside (byteLength text) lexeme.kind := by
  induction text using induct_lexemes with
  | nil =>
    rw [lexemes_nil]
    exact nofun
  | space char rest blank ih =>
    have ends := byteLength_le_of_suffix (List.suffix_cons char rest)
    rw [lexemes_space blank]
    exact fun lexeme member => ⟨Nat.le_trans (ih lexeme member).1 ends, (ih lexeme member).2.mono ends⟩
  | lexeme char rest solid ih =>
    have ends := byteLength_le_of_suffix ((cut_suffix char rest).trans (List.suffix_cons char rest))
    rw [lexemes_lexeme solid, List.forall_mem_cons]
    exact ⟨⟨Nat.le_refl _, inside_cut char rest⟩,
      fun lexeme member => ⟨Nat.le_trans (ih lexeme member).1 ends, (ih lexeme member).2.mono ends⟩⟩

section Step
variable {bytes : Nat} {kind : Lexeme.Kind} {source : List Char} {failure : Failure}
  (near : byteLength source ≤ bytes)
include near

theorem left_le_of_at {fault : Fault} (failed : (.error (.at fault source) : Except Failure α) = .error failure) :
    failure.left ≤ bytes := by
  cases failed
  exact left_at_le fault near

private theorem left_le_of_descend {slot : Slot} {outer : List Slot} {need : Need}
    (failed : Progress.descend slot outer need source = .error failure) : failure.left ≤ bytes := by
  unfold Progress.descend at failed
  split at failed
  next => cases failed
  next => exact left_le_of_at near failed

variable (inside : Inside bytes kind)
include inside

private theorem left_le_of_takeValue {slot : Slot} {outer : List Slot}
    (failed : Progress.takeValue slot outer ⟨kind, source⟩ = .error failure) : failure.left ≤ bytes := by
  cases kind with
  | literal value | text value => cases failed
  | openList | openObject => exact left_le_of_descend near failed
  | brokenText found | brokenValue found =>
    cases failed
    exact inside
  | closeList =>
    cases slot with
    | whole | member _ _ => exact left_le_of_at near failed
    | item items =>
      cases items with
      | nil => cases failed
      | cons _ _ => exact left_le_of_at near failed
  | closeObject | comma | colon => exact left_le_of_at near failed

private theorem left_le_of_takeKey {members : List (String × Json)} {outer : List Slot}
    (failed : Progress.takeKey members outer ⟨kind, source⟩ = .error failure) : failure.left ≤ bytes := by
  cases kind with
  | text key => cases failed
  | brokenText found =>
    cases failed
    exact inside
  | closeObject =>
    cases members with
    | nil => cases failed
    | cons _ _ => exact left_le_of_at near failed
  | openList | closeList | openObject | comma | colon | literal _ | brokenValue _ => exact left_le_of_at near failed

/-- A step fails at its lexeme, or with what is wrong in it. -/
theorem left_le_of_step {progress : Progress} (failed : progress.step ⟨kind, source⟩ = .error failure) :
    failure.left ≤ bytes := by
  obtain ⟨need, outer⟩ := progress
  cases need with
  | value slot => exact left_le_of_takeValue near inside failed
  | key members => exact left_le_of_takeKey near inside failed
  | afterItem items =>
    cases kind with
    | comma | closeList => cases failed
    | openList | openObject | closeObject | colon | literal _ | text _ | brokenText _ | brokenValue _ =>
      exact left_le_of_at near failed
  | colon members key =>
    cases kind with
    | colon => cases failed
    | openList | closeList | openObject | closeObject | comma | literal _ | text _ | brokenText _ | brokenValue _ =>
      exact left_le_of_at near failed
  | afterMember members =>
    cases kind with
    | comma | closeObject => cases failed
    | openList | closeList | openObject | colon | literal _ | text _ | brokenText _ | brokenValue _ =>
      exact left_le_of_at near failed
  | nothing value => exact left_le_of_at near failed

end Step

private theorem left_of_finish {progress : Progress} {failure : Failure} (failed : progress.finish = .error failure) :
    failure.left = 0 := by
  unfold Progress.finish at failed
  split at failed <;> cases failed <;> rfl

private theorem left_le_of_run {bytes : Nat} {progress : Progress} {found : List Lexeme} {failure : Failure}
    (failed : progress.run found = .error failure)
    (all : ∀ lexeme ∈ found, byteLength lexeme.source ≤ bytes ∧ Inside bytes lexeme.kind) : failure.left ≤ bytes := by
  induction found generalizing progress with
  | nil =>
    rw [left_of_finish failed]
    exact Nat.zero_le _
  | cons lexeme rest ih =>
    obtain ⟨first, others⟩ := List.forall_mem_cons.mp all
    rw [Progress.run] at failed
    split at failed
    next => exact ih failed others
    next stepped =>
      cases failed
      exact left_le_of_step first.1 first.2 stepped

theorem left_le_of_read {text : List Char} {failure : Failure} (failed : Json.read text = .error failure) :
    failure.left ≤ byteLength text := left_le_of_run failed (lexemes_inside text)

private theorem lexemes_below_blanks (count : Nat) (text : List Char) :
    lexemes (terminated (List.replicate count []) ++ text) = lexemes text := by
  induction count with
  | zero => rfl
  | succ count ih => rw [List.replicate_succ, terminated_cons, List.nil_append, List.cons_append, lexemes_space rfl, ih]

/-- Blank lines before a text make no difference to its value, or to its fault and to what
is left after that. -/
theorem read_below_blanks (count : Nat) (text : List Char) :
    Json.read (terminated (List.replicate count []) ++ text) = Json.read text := by
  rw [Json.read, lexemes_below_blanks, Json.read]

end StepGrid.Proofs.JsonPlaces
