import StepGrid.Text.Lines
import Mathlib.Data.List.Basic

/-! Lines of a text, and the text of lines. A text of lines without line feeds has these
lines again, but for carriage returns at their ends and an empty line at the end. Lines
may also be put before a text, each with its line feed. -/

namespace StepGrid.Proofs.TextLines
open Text

theorem pieces_ne_nil (text : List Char) : pieces text ≠ [] := by
  cases text with
  | nil => exact nofun
  | cons char rest =>
    unfold pieces
    rw [List.foldr_cons]
    split
    next => exact nofun
    next => split <;> exact nofun

theorem pieces_cons (char : Char) (rest : List Char) :
    pieces (char :: rest) = if char = '\n' then [] :: pieces rest else (pieces rest).modifyHead (char :: ·) := by
  obtain ⟨piece, others, found⟩ := List.exists_cons_of_ne_nil (pieces_ne_nil rest)
  rw [found]
  unfold pieces at found ⊢
  rw [List.foldr_cons, found]
  rfl

theorem pieces_eq_splitOn (text : List Char) : pieces text = text.splitOn '\n' := by
  induction text with
  | nil => rfl
  | cons char rest ih =>
    rw [pieces_cons, ih, List.splitOn_eq_splitOnP, List.splitOn_eq_splitOnP, List.splitOnP_cons_eq_if_modifyHead]
    simp only [beq_iff_eq]

theorem joinLines_cons_cons (line next : List Char) (others : List (List Char)) :
    joinLines (line :: next :: others) = line ++ '\n' :: joinLines (next :: others) := by
  simp [joinLines, List.intercalate_cons_cons]

theorem joinLines_pieces (text : List Char) : joinLines (pieces text) = text := by
  rw [pieces_eq_splitOn]
  exact List.intercalate_splitOn '\n'

theorem pieces_joinLines {lines : List (List Char)} (some : lines ≠ []) (plain : ∀ line ∈ lines, '\n' ∉ line) :
    pieces (joinLines lines) = lines := by
  rw [pieces_eq_splitOn]
  exact List.splitOn_intercalate '\n' plain some

theorem newline_not_mem_piece {text piece : List Char} (member : piece ∈ pieces text) : '\n' ∉ piece := by
  induction text generalizing piece with
  | nil =>
    rw [List.mem_singleton.mp member]
    exact List.not_mem_nil
  | cons char rest ih =>
    rw [pieces_cons] at member
    split at member
    next =>
      rcases List.mem_cons.mp member with rfl | later
      · exact List.not_mem_nil
      · exact ih later
    next other =>
      obtain ⟨first, others, found⟩ := List.exists_cons_of_ne_nil (pieces_ne_nil rest)
      rw [found] at member ih
      rcases List.mem_cons.mp member with rfl | later
      · rw [List.mem_cons, not_or]
        exact ⟨Ne.symm other, ih List.mem_cons_self⟩
      · exact ih (List.mem_cons_of_mem _ later)

def linesOf (pieces : List (List Char)) : List (List Char) :=
  pieces.dropLast.map withoutReturn ++ pieces.getLast?.toList.filter (!·.isEmpty)

theorem lines_eq (text : List Char) : lines text = linesOf (pieces text) := rfl

theorem linesOf_append (before : List (List Char)) {after : List (List Char)} (some : after ≠ []) :
    linesOf (before ++ after) = before.map withoutReturn ++ linesOf after := by
  rw [linesOf, linesOf, List.dropLast_append_of_ne_nil some, List.getLast?_append_of_ne_nil _ some, List.map_append,
    List.append_assoc]

/-- A line without a carriage return at its end is kept, also at the end of a text. -/
theorem linesOf_cons {line : List Char} (filled : line ≠ []) (plain : withoutReturn line = line)
    (after : List (List Char)) : linesOf (line :: after) = line :: linesOf after := by
  cases after with
  | nil => simp [linesOf, filled]
  | cons next rest =>
    rw [← List.singleton_append, linesOf_append _ (List.cons_ne_nil _ _), List.map_singleton, plain]
    rfl

theorem mem_of_mem_withoutReturn {line : List Char} {char : Char} (member : char ∈ withoutReturn line) :
    char ∈ line := by
  unfold withoutReturn at member
  split at member
  next => exact List.dropLast_subset _ member
  next => exact member

theorem newline_not_mem_line {text line : List Char} (member : line ∈ lines text) : '\n' ∉ line := by
  intro inside
  rw [lines_eq, linesOf, List.mem_append, List.mem_map] at member
  rcases member with ⟨piece, present, rfl⟩ | last
  · exact newline_not_mem_piece (List.dropLast_subset _ present) (mem_of_mem_withoutReturn inside)
  · have present := List.mem_of_getLast? (Option.mem_toList.mp (List.mem_filter.mp last).1)
    exact newline_not_mem_piece present inside

def terminated (lines : List (List Char)) : List Char := lines.flatMap (· ++ ['\n'])

theorem terminated_cons (line : List Char) (rest : List (List Char)) :
    terminated (line :: rest) = line ++ '\n' :: terminated rest := by
  simp [terminated]

theorem terminated_append (first second : List (List Char)) :
    terminated (first ++ second) = terminated first ++ terminated second := List.flatMap_append

theorem joinLines_concat (lines : List (List Char)) (last : List Char) :
    joinLines (lines ++ [last]) = terminated lines ++ last := by
  induction lines with
  | nil => simp [joinLines, terminated]
  | cons line rest ih =>
    obtain ⟨next, others, found⟩ := List.exists_cons_of_ne_nil (List.append_ne_nil_of_right_ne_nil rest (List.cons_ne_nil last []))
    rw [found] at ih
    rw [List.cons_append, found, joinLines_cons_cons, ih, terminated_cons, List.append_assoc, List.cons_append]

theorem joinLines_append_pieces (lines : List (List Char)) (text : List Char) :
    joinLines (lines ++ pieces text) = terminated lines ++ text := by
  obtain ⟨before, last, found⟩ := (pieces text).eq_nil_or_concat'.resolve_left (pieces_ne_nil text)
  have whole : terminated before ++ last = text := by rw [← joinLines_concat, ← found, joinLines_pieces]
  rw [found, ← List.append_assoc, joinLines_concat, terminated_append, List.append_assoc, whole]

/-- A text without carriage returns before line feeds and without one at its end has its
pieces for lines. -/
theorem lines_eq_pieces {text : List Char} (filled : text ≠ []) (noReturn : ¬ ['\r', '\n'] <:+: text)
    (unended : text.getLast? ≠ some '\n') : lines text = pieces text := by
  obtain ⟨before, last, found⟩ := (pieces text).eq_nil_or_concat'.resolve_left (pieces_ne_nil text)
  have whole : text = terminated before ++ last := by rw [← joinLines_concat, ← found, joinLines_pieces]
  have kept : before.map withoutReturn = before := by
    refine (List.map_congr_left fun line member => if_neg fun returned => noReturn ?_).trans (List.map_id before)
    obtain ⟨earlier, later, rfl⟩ := List.append_of_mem member
    obtain ⟨body, rfl⟩ := List.getLast?_eq_some_iff.mp returned
    rw [whole]
    exact ⟨terminated earlier ++ body, terminated later ++ last, by simp [terminated]⟩
  have some : last ≠ [] := by
    rintro rfl
    rcases before.eq_nil_or_concat' with rfl | ⟨earlier, line, rfl⟩
    · exact filled whole
    · exact unended (by simp [whole, terminated])
  rw [lines_eq, found, linesOf_append _ (List.cons_ne_nil _ _), kept]
  simp [linesOf, some]

end StepGrid.Proofs.TextLines
