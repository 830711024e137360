import Mathlib
import StepGrid.Proofs.FallibleMap
import StepGrid.Proofs.JsonLines
import StepGrid.Source

/-! Settings put into a matrix. A block of settings between two lines `---` may stand before
the matrix, after it or between any two of its lines: a line that could end the block is no
line of a readable matrix, and what is left is the matrix with blank lines in it. -/

namespace StepGrid.Proofs.SourceBlock
open Json Lexeme Text Source TextLines JsonLexemes JsonLines

def rule : List Char := ['-', '-', '-']

def withBlock (lines : List (List Char)) (count : Nat) (inside : List (List Char)) : List (List Char) :=
  lines.take count ++ rule :: (inside ++ rule :: lines.drop count)

private theorem not_isDigit_of_isBlank {char : Char} (blank : isBlank char = true) :
    ¬ Digits.isDigit char = true := by
  intro digit
  have range : 48 ≤ char.toNat ∧ char.toNat ≤ 57 := by
    simpa [Digits.isDigit, Char.le_def, UInt32.le_iff_toNat_le] using digit
  simp [isBlank] at blank
  omega

/-- White space of Unicode that is none of JSON begins a broken lexeme. -/
theorem broken_of_isBlank {char : Char} (blank : isBlank char = true) (rest : List Char) :
    isBroken (cut char rest).1 = true := by
  fun_cases cut char rest with
  | case12 _ digit => exact absurd digit (not_isDigit_of_isBlank blank)
  | case13 _ other =>
    rw [if_neg other]
    rfl
  | _ => exact absurd blank (by decide)

/-- Dashes after blanks begin no JSON value. -/
theorem not_whole_of_dashes {blanks : List Char} (blank : ∀ char ∈ blanks, isBlank char = true)
    (more : List Char) : ¬ Whole (kinds (blanks ++ '-' :: '-' :: more)) := by
  induction blanks with
  | nil =>
    intro whole
    rw [List.nil_append, kinds_lexeme (by decide)] at whole
    exact absurd (List.forall_mem_cons.mp whole).1 nofun
  | cons char rest ih =>
    obtain ⟨blankChar, blankRest⟩ := List.forall_mem_cons.mp blank
    intro whole
    by_cases space : isSpace char = true
    · rw [List.cons_append, kinds_space space] at whole
      exact ih blankRest whole
    · rw [List.cons_append, kinds_lexeme space] at whole
      have broken := broken_of_isBlank blankChar (rest ++ '-' :: '-' :: more)
      exact absurd (broken.symm.trans (List.forall_mem_cons.mp whole).1) nofun

private theorem dashes_of_isDelimiter {line : List Char} (delimiter : isDelimiter line = true) :
    ∃ more, line = line.takeWhile isBlank ++ '-' :: '-' :: more := by
  have trimmed : ((line.dropWhile isBlank).reverse.dropWhile isBlank).reverse = rule := eq_of_beq delimiter
  refine ⟨'-' :: ((line.dropWhile isBlank).reverse.takeWhile isBlank).reverse, ?_⟩
  have rest : line.dropWhile isBlank = rule ++ ((line.dropWhile isBlank).reverse.takeWhile isBlank).reverse := by
    rw [← trimmed, ← List.reverse_append, List.takeWhile_append_dropWhile, List.reverse_reverse]
  conv_lhs => rw [← List.takeWhile_append_dropWhile (p := isBlank) (l := line), rest]
  rfl

theorem not_isDelimiter_of_whole {line : List Char} (whole : Whole (kinds line)) : isDelimiter line = false := by
  rw [← Bool.not_eq_true]
  intro delimiter
  obtain ⟨more, dashes⟩ := dashes_of_isDelimiter delimiter
  rw [dashes] at whole
  exact not_whole_of_dashes (fun char member => List.mem_takeWhile_imp member) more whole

section Clear
variable {clear : List (List Char)} {line : List Char} (clears : ∀ one ∈ clear, isDelimiter one = false)
  (delimits : isDelimiter line = true) (rest : List (List Char))
include clears delimits

private theorem dropWhile_clear : (clear ++ line :: rest).dropWhile (!isDelimiter ·) = line :: rest := by
  have passes : ∀ one ∈ clear, (!isDelimiter one) = true := by simpa using clears
  rw [List.dropWhile_append_of_pos passes, List.dropWhile_cons_of_neg (by simp [delimits])]

private theorem takeWhile_clear : (clear ++ line :: rest).takeWhile (!isDelimiter ·) = clear := by
  have passes : ∀ one ∈ clear, (!isDelimiter one) = true := by simpa using clears
  rw [List.takeWhile_append_of_pos passes, List.takeWhile_cons_of_neg (by simp [delimits]), List.append_nil]

end Clear

theorem block?_append {before inside after : List (List Char)} {first second : List Char}
    (clearBefore : ∀ line ∈ before, isDelimiter line = false) (begins : isDelimiter first = true)
    (clearInside : ∀ line ∈ inside, isDelimiter line = false) (ends : isDelimiter second = true) :
    block? (before ++ first :: (inside ++ second :: after)) = some ⟨before, inside, after⟩ := by
  rw [block?, dropWhile_clear clearBefore begins, takeWhile_clear clearBefore begins]
  simp only [dropWhile_clear clearInside ends, takeWhile_clear clearInside ends]

/-- A block is made of lines as they are; those before it may lose carriage returns. -/
theorem linesOf_block (before : List (List Char)) {inside : List (List Char)} (after : List (List Char))
    (plain : ∀ line ∈ inside, line.getLast? ≠ some '\r') :
    linesOf (before ++ rule :: (inside ++ rule :: after)) =
      before.map withoutReturn ++ rule :: (inside ++ rule :: linesOf after) := by
  have kept : inside.map withoutReturn = inside :=
    (List.map_congr_left fun line member => if_neg (plain line member)).trans (List.map_id inside)
  have ruled (after : List (List Char)) : linesOf (rule :: after) = rule :: linesOf after :=
    linesOf_cons (List.cons_ne_nil _ _) rfl after
  rw [linesOf_append _ (List.cons_ne_nil _ _), ruled, linesOf_append _ (List.cons_ne_nil _ _), ruled, kept]

theorem read_of_block {text : List Char} {block : Block} {layer : Settings.Layer}
    (found : block? (lines text) = some block) (given : readSettings block.metadata = .ok layer) :
    Source.read text = (readMatrix block.body).map (Source.mk layer) := by
  unfold Source.read
  rw [found]
  simp only [given]
  cases readMatrix block.body <;> rfl

section Block
variable {text : List Char} (count : Nat) (inside : List (List Char))

/-- The lines of a matrix with a block in it are its lines around the block's. At the
cut the lines of the matrix may lose one more carriage return. -/
theorem lines_withBlock (plain : ∀ line ∈ inside, '\n' ∉ line ∧ line.getLast? ≠ some '\r') :
    lines (joinLines (withBlock (lines text) count inside)) =
      ((lines text).take count).map withoutReturn ++
        rule :: (inside ++ rule :: linesOf ((lines text).drop count)) := by
  have joined : pieces (joinLines (withBlock (lines text) count inside)) = withBlock (lines text) count inside := by
    apply pieces_joinLines (by simp [withBlock])
    intro line member
    simp only [withBlock, List.mem_append, List.mem_cons] at member
    rcases member with early | rfl | given | rfl | late
    · exact newline_not_mem_line (List.mem_of_mem_take early)
    · decide
    · exact (plain line given).1
    · decide
    · exact newline_not_mem_line (List.mem_of_mem_drop late)
  rw [lines_eq, joined, withBlock, linesOf_block _ _ fun line member => (plain line member).2]

/-- What is left of a matrix around a block is still worth the matrix. -/
theorem kinds_body (whole : Whole (kinds text)) :
    kinds (Block.body ⟨((lines text).take count).map withoutReturn, inside, linesOf ((lines text).drop count)⟩) =
      kinds text := by
  have wholeLines : Whole ((lines text).flatMap kinds) := (kinds_lines whole).symm ▸ whole
  have blanks : (List.replicate (inside.length + 2) ([] : List Char)).flatMap kinds = [] := by
    rw [List.flatMap_eq_nil_iff]
    intro line blank
    rw [List.eq_of_mem_replicate blank, kinds_nil]
  have parts : (lines text).flatMap kinds =
      ((lines text).take count).flatMap kinds ++ ((lines text).drop count).flatMap kinds := by
    rw [← List.flatMap_append, List.take_append_drop]
  have wholeParts := whole_append.mp (parts ▸ wholeLines)
  have around :
      (((lines text).take count).map withoutReturn ++ List.replicate (inside.length + 2) [] ++
        linesOf ((lines text).drop count)).flatMap kinds = (lines text).flatMap kinds := by
    rw [List.flatMap_append, List.flatMap_append, blanks, List.append_nil, kinds_map_withoutReturn wholeParts.1,
      kinds_linesOf wholeParts.2, ← parts]
  rw [Block.body, kinds_joinLines (around ▸ wholeLines), around, kinds_lines whole]

end Block

theorem whole_line {text line : List Char} (whole : Whole (kinds text)) (member : line ∈ lines text) :
    Whole (kinds line) := by
  intro kind present
  apply whole kind
  rw [← kinds_lines whole]
  exact List.mem_flatMap.mpr ⟨line, member, present⟩

theorem readMatrix_eq_ok {text : List Char} {matrix : Json} :
    readMatrix text = .ok matrix ↔ Json.read text = .ok matrix := by
  unfold readMatrix
  cases Json.read text with
  | ok value => simp [Except.mapError]
  | error failure => exact iff_of_false nofun nofun

/-- Settings between two rules are read as such wherever they stand in a matrix, and the
matrix is read as without them. -/
theorem read_withBlock {text : List Char} {matrix : Json} {inside : List (List Char)} {layer : Settings.Layer}
    (count : Nat) (readable : readMatrix text = .ok matrix)
    (plain : ∀ line ∈ inside, '\n' ∉ line ∧ line.getLast? ≠ some '\r' ∧ isDelimiter line = false)
    (given : readSettings (joinLines inside) = .ok layer) :
    Source.read (joinLines (withBlock (lines text) count inside)) = .ok ⟨layer, matrix⟩ := by
  have read := readMatrix_eq_ok.mp readable
  have whole := whole_of_read read
  have found : block? (lines (joinLines (withBlock (lines text) count inside))) =
      some ⟨((lines text).take count).map withoutReturn, inside, linesOf ((lines text).drop count)⟩ := by
    rw [lines_withBlock count inside fun line member => ⟨(plain line member).1, (plain line member).2.1⟩]
    apply block?_append _ rfl (fun line member => (plain line member).2.2) rfl
    intro line member
    obtain ⟨before, early, rfl⟩ := List.mem_map.mp member
    -- A delimiter among these lines would break the matrix itself.
    have wholeLine := whole_line whole (List.mem_of_mem_take early)
    exact not_isDelimiter_of_whole ((kinds_withoutReturn wholeLine).symm ▸ wholeLine)
  have body := readMatrix_eq_ok.mpr (read_of_kinds read (kinds_body count inside whole).symm)
  unfold Source.read
  rw [found]
  exact bind_eq_ok.mpr ⟨layer, given, bind_eq_ok.mpr ⟨matrix, body, rfl⟩⟩

theorem read_withBlock_between :
    Source.read "[[\"C4\"],\n---\ntempo: 90\n---\n[\"-\"]]".toList =
      .ok ⟨{ tempo := some 90 }, .array [.array [.string "C4"], .array [.string "-"]]⟩ :=
  @read_withBlock "[[\"C4\"],\r\n[\"-\"]]\r\n".toList _ ["tempo: 90".toList] _ 1 (by cbv) (by decide) (by cbv)

end StepGrid.Proofs.SourceBlock
