import StepGrid.Json.Lexeme
import Mathlib.Data.List.Basic

/-! No lexeme goes on over a line break. A lexeme that is whole before a line break ends
before it, whatever follows, and one that is broken there stays broken. -/

namespace StepGrid.Proofs.JsonLexemes
open Json Lexeme

def isBroken : Lexeme.Kind → Bool
  | .brokenText _ => true
  | .brokenValue _ => true
  | _ => false

def isBreak (char : Char) : Bool := char == '\n' || char == '\r'

/-- A lexeme cut without and with what follows it. -/
structure Continues (short long : Cut) (more : List Char) : Prop where
  whole : isBroken short.1 = false → long = (short.1, short.2 ++ more)
  broken : isBroken short.1 = true → isBroken long.1 = true

theorem Continues.of_broken {short long : Cut} {more : List Char} (broken : isBroken short.1 = true)
    (brokenToo : isBroken long.1 = true) : Continues short long more :=
  ⟨fun whole => absurd (whole.symm.trans broken) nofun, fun _ => brokenToo⟩

theorem Continues.of_eq (kind : Lexeme.Kind) (rest more : List Char) :
    Continues (kind, rest) (kind, rest ++ more) more :=
  ⟨fun _ => rfl, id⟩

theorem cutWord_append {stop : Char} (more : List Char) (value : Json) {word : List Char} (text : List Char)
    (letters : stop ∉ word) :
    Continues (cutWord value word text) (cutWord value word (text ++ stop :: more)) (stop :: more) := by
  fun_induction cutWord value word text with
  | case1 text =>
    rw [cutWord]
    exact .of_eq _ _ _
  | case2 word unfinished =>
    apply Continues.of_broken rfl
    cases word with
    | nil => exact (unfinished rfl).elim
    | cons expected others =>
      have different : stop ≠ expected := fun same => letters (same ▸ List.mem_cons_self)
      rw [List.nil_append, cutWord, if_neg different]
      rfl
  | case3 expected others rest ih =>
    rw [List.cons_append, cutWord, if_pos rfl]
    exact ih fun member => letters (List.mem_cons_of_mem _ member)
  | case4 expected others char rest different =>
    apply Continues.of_broken rfl
    rw [List.cons_append, cutWord, if_neg different]
    rfl

theorem evaluate_append (numeral : Numeral) (rest more : List Char) :
    Continues (evaluate numeral rest) (evaluate numeral (rest ++ more)) more := by
  unfold evaluate
  cases numeral.value with
  | ok value => exact .of_eq _ _ _
  | error unneeded => exact .of_broken rfl rfl

private theorem length_lt_four {short : List Char} (few : ∀ a b c d tail, short = a :: b :: c :: d :: tail → False) :
    short.length < 4 := by
  match short, few with
  | [], _ | [_], _ | [_, _], _ | [_, _, _], _ => simp
  | a :: b :: c :: d :: tail, few => exact (few a b c d tail rfl).elim

section Break
variable {stop : Char} (breaks : isBreak stop = true)
include breaks

theorem eq_or_eq : stop = '\n' ∨ stop = '\r' := by simpa [isBreak] using breaks

private theorem cutText_stop (lead : Option Nat) (taken more : List Char) :
    isBroken (cutText lead taken (stop :: more)).1 = true := by
  rw [cutText.eq_def]
  obtain rfl | rfl := eq_or_eq breaks
  all_goals cases lead <;> rfl

private theorem cutText_escaped_stop (lead : Option Nat) (taken more : List Char) :
    isBroken (cutText lead taken ('\\' :: stop :: more)).1 = true := by
  rw [cutText.eq_def]
  obtain rfl | rfl := eq_or_eq breaks
  all_goals cases lead <;> rfl

theorem unit?_eq_none {a b c d : Char} (member : stop ∈ [a, b, c, d]) : unit? a b c d = none := by
  have noDigit : hexValue? stop = none := by
    obtain rfl | rfl := eq_or_eq breaks <;> decide
  simp only [List.mem_cons, List.not_mem_nil, or_false] at member
  rcases member with rfl | rfl | rfl | rfl <;> simp [unit?, noDigit]

private theorem cutText_unit_stop (lead : Option Nat) (taken more : List Char) {short : List Char}
    (few : short.length < 4) :
    isBroken (cutText lead taken ('\\' :: 'u' :: (short ++ stop :: more))).1 = true := by
  have near : stop ∈ (short ++ stop :: more).take 4 := by
    obtain ⟨beyond, enough⟩ := Nat.exists_eq_add_of_lt few
    rw [enough, Nat.add_assoc, List.take_length_add_append, List.take_succ_cons]
    exact List.mem_append_right _ List.mem_cons_self
  rw [cutText.eq_def]
  simp only [↓reduceIte]
  rcases digits : short ++ stop :: more with _ | ⟨a, _ | ⟨b, _ | ⟨c, _ | ⟨d, tail⟩⟩⟩⟩
  case cons.cons.cons.cons =>
    rw [digits] at near
    simp only [unit?_eq_none breaks near]
    rfl
  all_goals rfl

theorem cutText_append (more : List Char) (lead : Option Nat) (taken text : List Char) :
    Continues (cutText lead taken text) (cutText lead taken (text ++ stop :: more)) (stop :: more) := by
  fun_induction cutText lead taken text with
  | case1 lead taken => exact .of_broken rfl (cutText_stop breaks lead taken more)
  | case2 lead taken => exact .of_broken rfl (cutText_escaped_stop breaks lead taken more)
  | case3 lead taken a b c d tail noUnit =>
    apply Continues.of_broken rfl
    rw [cutText.eq_def]
    simp only [List.cons_append, ↓reduceIte, noUnit]
    rfl
  | case4 taken a b c d tail unit found trailing =>
    apply Continues.of_broken rfl
    rw [cutText.eq_def]
    simp only [List.cons_append, ↓reduceIte, found, if_pos trailing]
    rfl
  | case5 taken a b c d tail unit found notTrailing leading ih =>
    rw [cutText.eq_def none taken ('\\' :: 'u' :: a :: b :: c :: d :: tail ++ stop :: more)]
    simp only [List.cons_append, ↓reduceIte, found, if_neg notTrailing, if_pos leading]
    exact ih
  | case6 taken a b c d tail unit found notTrailing notLeading ih =>
    rw [cutText.eq_def none taken ('\\' :: 'u' :: a :: b :: c :: d :: tail ++ stop :: more)]
    simp only [List.cons_append, ↓reduceIte, found, if_neg notTrailing, if_neg notLeading]
    exact ih
  | case7 taken a b c d tail unit first found trailing ih =>
    rw [cutText.eq_def (some first) taken ('\\' :: 'u' :: a :: b :: c :: d :: tail ++ stop :: more)]
    simp only [List.cons_append, ↓reduceIte, found, if_pos trailing]
    exact ih
  | case8 taken a b c d tail unit first found notTrailing =>
    apply Continues.of_broken rfl
    rw [cutText.eq_def]
    simp only [List.cons_append, ↓reduceIte, found, if_neg notTrailing]
    rfl
  | case9 lead taken short few =>
    exact .of_broken (by unfold brokenUnit; rfl) (cutText_unit_stop breaks lead taken more (length_lt_four few))
  | case10 lead taken escaped tail notUnit half =>
    apply Continues.of_broken rfl
    rw [cutText.eq_def]
    simp only [List.cons_append, ↓reduceIte, half]
    rfl
  | case11 lead taken escaped tail notUnit whole value found ih =>
    rw [cutText.eq_def lead taken ('\\' :: escaped :: tail ++ stop :: more)]
    simp only [List.cons_append, ↓reduceIte, if_neg whole, found]
    exact ih
  | case12 lead taken escaped tail notUnit whole unknown =>
    apply Continues.of_broken rfl
    rw [cutText.eq_def]
    simp only [List.cons_append, ↓reduceIte, if_neg whole, unknown]
    rfl
  | case13 lead taken char rest notEscape half =>
    apply Continues.of_broken rfl
    rw [List.cons_append, cutText.eq_def]
    simp only [if_neg notEscape, if_pos half]
    rfl
  | case14 lead taken rest whole _ =>
    rw [List.cons_append, cutText.eq_def]
    simp only [if_neg whole, ↓reduceIte]
    exact .of_eq _ _ _
  | case15 lead taken char rest notEscape whole notQuote control =>
    apply Continues.of_broken rfl
    rw [List.cons_append, cutText.eq_def]
    simp only [if_neg notEscape, if_neg whole, if_neg notQuote, if_pos control]
    rfl
  | case16 lead taken char rest notEscape whole notQuote plain ih =>
    rw [List.cons_append, cutText.eq_def lead taken (char :: (rest ++ stop :: more))]
    simp only [if_neg notEscape, if_neg whole, if_neg notQuote, if_neg plain]
    exact ih

theorem takeWhile_append_break (text more : List Char) :
    (text ++ stop :: more).takeWhile Digits.isDigit = text.takeWhile Digits.isDigit := by
  induction text with
  | nil => obtain rfl | rfl := eq_or_eq breaks <;> rfl
  | cons char rest ih => rw [List.cons_append, List.takeWhile_cons, List.takeWhile_cons, ih]

theorem dropWhile_append_break (text more : List Char) :
    (text ++ stop :: more).dropWhile Digits.isDigit = text.dropWhile Digits.isDigit ++ stop :: more := by
  induction text with
  | nil => obtain rfl | rfl := eq_or_eq breaks <;> rfl
  | cons char rest ih =>
    rw [List.cons_append, List.dropWhile_cons, List.dropWhile_cons, ih]
    split
    next => rfl
    next => rfl

theorem cutScale_append (more : List Char) (numeral : Numeral) (negative : Bool) (text : List Char) :
    Continues (cutScale numeral negative text) (cutScale numeral negative (text ++ stop :: more)) (stop :: more) := by
  unfold cutScale
  rw [takeWhile_append_break breaks, dropWhile_append_break breaks]
  cases text.takeWhile Digits.isDigit with
  | nil => exact .of_broken rfl rfl
  | cons digit digits => exact evaluate_append _ _ _

theorem cutSign_append (text more : List Char) :
    cutSign (text ++ stop :: more) = ((cutSign text).1, (cutSign text).2 ++ stop :: more) := by
  fun_cases cutSign text with
  | case1 rest => rfl
  | case2 rest => rfl
  | case3 notMinus notPlus =>
    cases text with
    | nil => obtain rfl | rfl := eq_or_eq breaks <;> rfl
    | cons char rest => simp_all [cutSign]

theorem cutExponent_append (more : List Char) (numeral : Numeral) (text : List Char) :
    Continues (cutExponent numeral text) (cutExponent numeral (text ++ stop :: more)) (stop :: more) := by
  cases text with
  | nil =>
    have plain : cutExponent numeral (stop :: more) = evaluate numeral (stop :: more) := by
      obtain rfl | rfl := eq_or_eq breaks <;> rfl
    rw [List.nil_append, plain]
    exact evaluate_append numeral [] _
  | cons mark rest =>
    rw [List.cons_append, cutExponent, cutExponent]
    split
    next =>
      rw [cutSign_append breaks]
      exact cutScale_append breaks more numeral _ _
    next => exact evaluate_append numeral (mark :: rest) _

theorem cutFraction_append (more : List Char) (numeral : Numeral) (text : List Char) :
    Continues (cutFraction numeral text) (cutFraction numeral (text ++ stop :: more)) (stop :: more) := by
  fun_cases cutFraction numeral text with
  | case1 rest missing =>
    apply Continues.of_broken rfl
    rw [List.cons_append, cutFraction, takeWhile_append_break breaks, missing]
    rfl
  | case2 rest found =>
    rw [List.cons_append, cutFraction, takeWhile_append_break breaks, dropWhile_append_break breaks]
    split
    next missing => exact (found missing).elim
    next => exact cutExponent_append breaks more _ _
  | case3 _ noPoint =>
    have plain : cutFraction numeral (text ++ stop :: more) = cutExponent numeral (text ++ stop :: more) := by
      cases text with
      | nil => obtain rfl | rfl := eq_or_eq breaks <;> rfl
      | cons char rest =>
        rw [List.cons_append, cutFraction]
        rintro tail ⟨⟩
        exact noPoint rest rfl
    rw [plain]
    exact cutExponent_append breaks more numeral text

theorem cutNumeral_append (more : List Char) (negative : Bool) (text : List Char) :
    Continues (cutNumeral negative text) (cutNumeral negative (text ++ stop :: more)) (stop :: more) := by
  unfold cutNumeral
  rw [takeWhile_append_break breaks, dropWhile_append_break breaks]
  split
  next => exact .of_broken rfl rfl
  next => exact .of_broken rfl rfl
  next => exact cutFraction_append breaks more _ _

theorem cut_append (more : List Char) (char : Char) (rest : List Char) :
    Continues (cut char rest) (cut char (rest ++ stop :: more)) (stop :: more) := by
  fun_cases cut char rest with
  | case7 => exact cutText_append breaks more none [] rest
  | case8 | case9 | case10 =>
    apply cutWord_append
    obtain rfl | rfl := eq_or_eq breaks <;> decide
  | case11 => exact cutNumeral_append breaks more true rest
  -- Any other character: that it is none of those above is asked for once more.
  | case12 _ digit =>
    rw [if_pos digit, cut, if_pos digit]
    · exact cutNumeral_append breaks more false (char :: rest)
    all_goals assumption
  | case13 _ other =>
    rw [if_neg other, cut, if_neg other]
    · exact .of_broken rfl rfl
    all_goals assumption
  | case1 | case2 | case3 | case4 | case5 | case6 => exact .of_eq _ _ _

end Break

end StepGrid.Proofs.JsonLexemes
