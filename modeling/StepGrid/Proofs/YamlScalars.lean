import StepGrid.Yaml.Scalar
import Mathlib.Data.List.Basic

/-! Scalars on one line. A word of letters, digits and hyphens is read up to the colon or the line
feed after it. A quoted text is read up to its closing quote, whatever stands in it, and is
the text it was written for. -/

namespace StepGrid.Proofs.YamlScalars
open Yaml

section Words

theorem ne_of_isWordChar {char : Char} (word : isWordChar char = true) (other : Char)
    (special : isWordChar other = false) :
    char ≠ other := by
  rintro rfl
  cases word.symm.trans special

def isVisible (char : Char) : Bool := !isBlank char && !isBreak char

theorem isVisible_of_isWordChar {char : Char} (word : isWordChar char = true) : isVisible char = true := by
  have other := ne_of_isWordChar word
  simp [isVisible, isBlank, isBreak, other ' ' (by decide), other '\t' (by decide), other '\n' (by decide),
    other '\u2028' (by decide), other '\u2029' (by decide)]

theorem isBlank_of_isVisible {char : Char} (visible : isVisible char = true) : isBlank char = false := by
  simp_all [isVisible]

theorem isBreak_of_isVisible {char : Char} (visible : isVisible char = true) : isBreak char = false := by
  simp_all [isVisible]

/-- The place after some characters in a line of ASCII. -/
theorem foldl_after {text : List Char} (ascii : ∀ char ∈ text, char.utf8Size = 1 ∧ isBreak char = false)
    (mark : Mark) :
    text.foldl Mark.after mark = ⟨mark.line, mark.column + text.length, mark.index + text.length⟩ := by
  induction text generalizing mark with
  | nil => rfl
  | cons char rest ih =>
    obtain ⟨⟨single, inLine⟩, others⟩ := List.forall_mem_cons.mp ascii
    rw [List.foldl_cons, ih others, Mark.after, if_neg (by simp [inLine]), single, List.length_cons]
    simp only [Mark.mk.injEq, true_and]
    omega

def isPrinted (char : Char) : Bool := ' ' ≤ char && char ≤ '~'

theorem isPrinted_iff {char : Char} : isPrinted char = true ↔ 32 ≤ char.toNat ∧ char.toNat ≤ 126 := by
  rw [isPrinted, Bool.and_eq_true, decide_eq_true_iff, decide_eq_true_iff]
  exact Iff.rfl

theorem ne_of_isPrinted {char : Char} (printed : isPrinted char = true) (other : Char)
    (special : isPrinted other = false) :
    char ≠ other := by
  rintro rfl
  cases printed.symm.trans special

theorem isBreak_of_isPrinted {char : Char} (printed : isPrinted char = true) : isBreak char = false := by
  have other := ne_of_isPrinted printed
  simp [isBreak, other '\n' (by decide), other '\u2028' (by decide), other '\u2029' (by decide)]

theorem isPrinted_of_isWordChar {char : Char} (word : isWordChar char = true) : isPrinted char = true := by
  have within {low high : Char} (ends : ' ' ≤ low ∧ high ≤ '~') (inside : low ≤ char ∧ char ≤ high) :
      isPrinted char = true := by
    rw [isPrinted, Bool.and_eq_true, decide_eq_true_iff, decide_eq_true_iff]
    exact ⟨Std.le_trans ends.1 inside.1, Std.le_trans inside.2 ends.2⟩
  have both {first second : Prop} [Decidable first] [Decidable second] (all : (decide first && decide second) = true) :
      first ∧ second := by simpa using all
  have classes : ((char.isUpper = true ∨ char.isLower = true) ∨ char.isDigit = true) ∨ char = '-' ∨ char = '_' := by
    change ((((char.isUpper || char.isLower) || char.isDigit) || decide (char = '-')) || decide (char = '_')) = true at word
    simpa only [Bool.or_eq_true, decide_eq_true_eq, or_assoc] using word
  rcases classes with ((upper | lower) | digit) | rfl | rfl
  · have range : 'A' ≤ char ∧ char ≤ 'Z' := of_decide_eq_true upper
    exact within (by decide) range
  · have range : 'a' ≤ char ∧ char ≤ 'z' := both lower
    exact within (by decide) range
  · have range : '0' ≤ char ∧ char ≤ '9' := both digit
    exact within (by decide) range
  · decide
  · decide

private theorem utf8Size_of_isPrinted {char : Char} (printed : isPrinted char = true) : char.utf8Size = 1 := by
  rw [Char.utf8Size_eq_one_iff, UInt32.le_iff_toNat_le]
  exact Nat.le_trans (isPrinted_iff.mp printed).2 (by decide)

theorem utf8Size_of_isWordChar {char : Char} (word : isWordChar char = true) : char.utf8Size = 1 :=
  utf8Size_of_isPrinted (isPrinted_of_isWordChar word)

variable (indent : Int)

/-- The characters of a word are taken one by one. -/
theorem plainScalar_append {word : List Char} (chars : ∀ char ∈ word, isWordChar char = true) (taken : List Char)
    (mark : Mark) (rest : List Char) :
    plainScalar false indent taken .none mark (word ++ rest) =
      plainScalar false indent (word.reverse ++ taken) .none (word.foldl Mark.after mark) rest := by
  induction word generalizing taken mark with
  | nil => rfl
  | cons char word ih =>
    obtain ⟨first, others⟩ := List.forall_mem_cons.mp chars
    have visible := isVisible_of_isWordChar first
    have noColon := ne_of_isWordChar first ':' (by decide)
    rw [List.cons_append, plainScalar]
    simp only [isBlank_of_isVisible visible, isBreak_of_isVisible visible, isMisplacedColon, endsPlain, noColon, Gap.isNone,
      Gap.join, Bool.false_eq_true, if_false, Bool.not_true, Bool.false_and, decide_false, Bool.or_self]
    rw [ih others]
    simp

/-- A word ends before a colon with a blank after it. -/
theorem plainScalar_colon {word : List Char} (chars : ∀ char ∈ word, isWordChar char = true) (mark : Mark)
    (rest : List Char) :
    plainScalar false indent [] .none mark (word ++ ':' :: ' ' :: rest) =
      .ok ⟨word, ⟨':' :: ' ' :: rest, word.foldl Mark.after mark⟩, false⟩ := by
  rw [plainScalar_append indent chars, plainScalar, if_neg (by decide), if_neg (by decide), if_neg (by simp [Gap.isNone]),
    if_neg (by simp [isMisplacedColon]), if_pos (by simp [endsPlain, endsWord, isBlank])]
  simp [Gap.crossesLine]

/-- A word may end with the text. -/
theorem plainScalar_end {word : List Char} (chars : ∀ char ∈ word, isWordChar char = true) (mark : Mark) :
    plainScalar false indent [] .none mark word = .ok ⟨word, ⟨[], word.foldl Mark.after mark⟩, false⟩ := by
  have read := plainScalar_append indent chars [] mark []
  rw [List.append_nil] at read
  rw [read, plainScalar]
  simp [Gap.crossesLine]

/-- A word in a block ends with its line, if the next line is not indented. -/
theorem plainScalar_line {word : List Char} (chars : ∀ char ∈ word, isWordChar char = true) (deeper : 0 < indent)
    (mark : Mark) {next : Char} (visible : isVisible next = true) (rest : List Char) :
    plainScalar false indent [] .none mark (word ++ '\n' :: next :: rest) =
      .ok ⟨word, ⟨next :: rest, (word ++ ['\n']).foldl Mark.after mark⟩, true⟩ := by
  rw [plainScalar_append indent chars, plainScalar, if_neg (by decide), if_pos (by decide), plainScalar,
    if_neg (by simp [isBlank_of_isVisible visible]), if_neg (by simp [isBreak_of_isVisible visible]), if_pos]
  · simp [Gap.lineBreak, Gap.crossesLine]
  · have column : (Mark.after (word.foldl Mark.after mark) '\n').column = 0 := rfl
    simp [endsPlainAfterGap, Gap.lineBreak, Gap.isNone, column, deeper]

end Words

section Quotes

/-- A text as it is written between single quotes, with each of its quotes twice. -/
def doubled (text : List Char) : List Char := text.flatMap fun char => if char = '\'' then ['\'', '\''] else [char]

theorem doubled_cons (char : Char) (text : List Char) :
    doubled (char :: text) = (if char = '\'' then ['\'', '\''] else [char]) ++ doubled text := List.flatMap_cons

theorem isPrinted_of_mem_doubled {text : List Char} (printed : ∀ char ∈ text, isPrinted char = true) {char : Char}
    (member : char ∈ doubled text) : isPrinted char = true := by
  obtain ⟨source, given, stands⟩ := List.mem_flatMap.mp member
  split_ifs at stands with quote
  · obtain rfl : char = '\'' := by simpa using stands
    decide
  · obtain rfl : char = source := by simpa using stands
    exact printed char given

private theorem column_after {char : Char} (inLine : isBreak char = false) (mark : Mark) :
    (mark.after char).column = mark.column + 1 := by
  rw [Mark.after, if_neg (by simp [inLine])]

/-- The gap before a character of a quoted text goes with it once the character is no blank. -/
theorem singleQuoted_cons {char : Char} (visible : isVisible char = true) (noQuote : char ≠ '\'') (taken : List Char)
    (gap : Gap) {mark : Mark} (inside : 0 < mark.column) (rest : List Char) :
    singleQuoted taken gap mark (char :: rest) =
      singleQuoted (char :: (gap.join.reverse ++ taken)) .none (mark.after char) rest := by
  rw [singleQuoted.eq_def]
  dsimp only
  rw [if_neg (by simp [isBlank_of_isVisible visible]), if_neg (by simp [isBreak_of_isVisible visible]),
    if_neg (by simp [Nat.ne_of_gt inside]), if_neg noQuote]

private theorem singleQuoted_blank {char : Char} (blank : isBlank char = true) (taken : List Char) (gap : Gap)
    (mark : Mark) (rest : List Char) :
    singleQuoted taken gap mark (char :: rest) = singleQuoted taken (gap.blank char) (mark.after char) rest := by
  rw [singleQuoted.eq_def]
  dsimp only
  rw [if_pos blank]

private theorem singleQuoted_quote (taken : List Char) (gap : Gap) {mark : Mark} (inside : 0 < mark.column)
    (rest : List Char) :
    singleQuoted taken gap mark ('\'' :: '\'' :: rest) =
      singleQuoted ('\'' :: (gap.join.reverse ++ taken)) .none ((mark.after '\'').after '\'') rest := by
  rw [singleQuoted, if_neg (by decide), if_neg (by decide), if_neg (by simp [Nat.ne_of_gt inside]), if_pos rfl]

private theorem singleQuoted_closed (taken : List Char) (gap : Gap) {mark : Mark} (inside : 0 < mark.column)
    {rest : List Char} (closed : rest.head? ≠ some '\'') :
    singleQuoted taken gap mark ('\'' :: rest) =
      .ok ⟨(gap.join.reverse ++ taken).reverse, ⟨rest, mark.after '\''⟩, false⟩ := by
  rw [singleQuoted.eq_def]
  dsimp only
  rw [if_neg (by decide), if_neg (by decide), if_neg (by simp [Nat.ne_of_gt inside]), if_pos rfl]
  split
  next => exact absurd rfl closed
  next => rfl

/-- The characters of a quoted text, and its closing quote. The blanks before a character are
kept in a gap, which is joined to the text as it is, since it crosses no line. -/
theorem singleQuoted_doubled {text : List Char} (inLine : ∀ char ∈ text, isBreak char = false) (taken : List Char)
    {gap : Gap} (sameLine : gap.crossesLine = false) {mark : Mark} (inside : 0 < mark.column) {rest : List Char}
    (closed : rest.head? ≠ some '\'') :
    singleQuoted taken gap mark (doubled text ++ '\'' :: rest) =
      .ok ⟨taken.reverse ++ gap.join ++ text, ⟨rest, (doubled text ++ ['\'']).foldl Mark.after mark⟩, false⟩ := by
  induction text generalizing taken gap mark with
  | nil =>
    rw [doubled, List.flatMap_nil, List.nil_append, singleQuoted_closed taken gap inside closed]
    simp
  | cons char text ih =>
    obtain ⟨first, others⟩ := List.forall_mem_cons.mp inLine
    have next (more : Char) (plain : isBreak more = false) {mark : Mark} : 0 < (mark.after more).column := by
      rw [column_after plain]
      exact Nat.succ_pos _
    rw [doubled_cons]
    by_cases quote : char = '\''
    · subst quote
      rw [if_pos rfl, List.append_assoc, List.cons_append, List.cons_append, List.nil_append,
        singleQuoted_quote taken gap inside, ih others _ rfl (next _ rfl)]
      simp [Gap.join]
    · rw [if_neg quote, List.append_assoc, List.singleton_append]
      by_cases blank : isBlank char = true
      · have joined : (gap.blank char).join = gap.join ++ [char] ∧ (gap.blank char).crossesLine = false := by
          cases gap with
          | none => exact ⟨rfl, rfl⟩
          | blanks text => exact ⟨by simp [Gap.blank, Gap.join], rfl⟩
          | breaks _ _ => cases sameLine
        rw [List.cons_append, singleQuoted_blank blank, ih others _ joined.2 (next _ first), joined.1]
        simp
      · rw [singleQuoted_cons (by simp [isVisible, blank, first]) quote taken gap inside, ih others _ rfl (next _ first)]
        simp [Gap.join]

end Quotes

end StepGrid.Proofs.YamlScalars
