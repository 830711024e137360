import StepGrid.Proofs.JsonPlaces
import StepGrid.Proofs.SourceBlock

/-! Faults of a matrix that stands under its settings. A block leaves as many blank lines as
it had, so a fault is told at its line in the whole source, in the same words as alone. -/

namespace StepGrid.Proofs.SourcePlaces
open Json Text Position Source TextLines TextPlaces JsonPlaces SourceBlock

def underBlock (inside : List (List Char)) (text : List Char) : List Char :=
  rule ++ '\n' :: (inside.flatMap (· ++ ['\n']) ++ rule ++ '\n' :: text)

/-- What is said of a text that is no JSON. Its place is told twice. -/
def report (phrase : String) (line column : Nat) : String :=
  "Invalid sequence format: " ++
    ("could not parse JSON at line " ++ toString line ++ ", column " ++ toString column ++ ": " ++ phrase ++
      " at line " ++ toString line ++ " column " ++ toString column)

private theorem message_unreadable (fault : Fault) (position : Position) :
    (Error.unreadable fault position).message = report fault.phrase position.line position.column := rfl

theorem underBlock_eq (inside : List (List Char)) (text : List Char) :
    underBlock inside text = terminated (rule :: (inside ++ [rule])) ++ text := by
  simp [underBlock, terminated]

section Place
variable {inside : List (List Char)} (plain : ∀ line ∈ inside, '\n' ∉ line)
include plain

private theorem plain_block : ∀ line ∈ rule :: (inside ++ [rule]), '\n' ∉ line := by
  intro line member
  simp only [List.mem_cons, List.mem_append, List.not_mem_nil, or_false] at member
  rcases member with rfl | given | rfl
  · decide
  · exact plain line given
  · decide

private theorem withLeft_underBlock {text : List Char} {left : Nat} (near : left ≤ byteLength text) :
    withLeft (underBlock inside text) left = lower (withLeft text left) (inside.length + 2) := by
  rw [underBlock_eq, withLeft_terminated (plain_block plain) near]
  simp

end Place

section Under
variable {text : List Char} {inside : List (List Char)} (filled : text ≠ [])
  (noReturn : ¬ ['\r', '\n'] <:+: text) (unended : text.getLast? ≠ some '\n')
  (plain : ∀ line ∈ inside, '\n' ∉ line ∧ line.getLast? ≠ some '\r' ∧ isDelimiter line = false)
include filled noReturn unended plain

private theorem lines_underBlock : lines (underBlock inside text) = rule :: (inside ++ rule :: pieces text) := by
  have split : (rule :: (inside ++ [rule])) ++ pieces text = rule :: (inside ++ rule :: pieces text) := by simp
  have parted : pieces (underBlock inside text) = rule :: (inside ++ rule :: pieces text) := by
    rw [underBlock_eq, ← joinLines_append_pieces, split]
    apply pieces_joinLines (List.cons_ne_nil _ _)
    rw [← split, List.forall_mem_append]
    exact ⟨plain_block fun line member => (plain line member).1, fun line member => newline_not_mem_piece member⟩
  -- The block's lines are kept as they are, and those of the text are what they are without it.
  have lined := linesOf_block [] (pieces text) fun line member => (plain line member).2.1
  rw [lines_eq, parted]
  rw [← lines_eq text, lines_eq_pieces filled noReturn unended] at lined
  exact lined

private theorem block?_underBlock : block? (lines (underBlock inside text)) = some ⟨[], inside, pieces text⟩ := by
  rw [lines_underBlock filled noReturn unended plain]
  exact @block?_append [] inside (pieces text) rule rule nofun rfl (fun line member => (plain line member).2.2) rfl

end Under

/-- A matrix under so many blank lines has its value, or its fault so many lines down. -/
theorem readMatrix_below_blanks (count : Nat) (text : List Char) :
    readMatrix (terminated (List.replicate count []) ++ text) =
      (Json.read text).mapError fun failure => .unreadable failure.fault (lower (withLeft text failure.left) count) := by
  rw [readMatrix, read_below_blanks]
  cases read : Json.read text with
  | ok matrix => rfl
  | error failure =>
    have blank : ∀ line ∈ List.replicate count ([] : List Char), '\n' ∉ line := by
      intro line member
      rw [List.eq_of_mem_replicate member]
      exact List.not_mem_nil
    have moved := withLeft_terminated blank (left_le_of_read read)
    rw [List.length_replicate] at moved
    simp only [Except.mapError, moved]

/-- A text read as part of a whole, some lines down. Either both are refused with the same
words, at one place but for these lines, or both have the same value. -/
structure ReadBelow (text whole : List Char) (layer : Settings.Layer) (count : Nat) : Prop where
  refused : (∃ error, Source.read whole = .error error ∧ error.kind = .sequenceFormat) ↔
    ∃ error, readMatrix text = .error error
  told : ∀ error, readMatrix text = .error error → ∃ failure moved,
    Json.read text = .error failure ∧ Source.read whole = .error moved ∧
    error.message = report failure.fault.phrase (withLeft text failure.left).line (withLeft text failure.left).column ∧
    moved.message =
      report failure.fault.phrase ((withLeft text failure.left).line + count) (withLeft text failure.left).column ∧
    withLeft whole failure.left = ⟨(withLeft text failure.left).line + count, (withLeft text failure.left).column⟩
  value : ∀ matrix, readMatrix text = .ok matrix → Source.read whole = .ok ⟨layer, matrix⟩

/-- What is wrong with a matrix is told at its line in the source, under any block of
settings that can be read. -/
theorem read_underBlock {text : List Char} {inside : List (List Char)} {layer : Settings.Layer} (filled : text ≠ [])
    (noReturn : ¬ ['\r', '\n'] <:+: text) (unended : text.getLast? ≠ some '\n')
    (plain : ∀ line ∈ inside, '\n' ∉ line ∧ line.getLast? ≠ some '\r' ∧ isDelimiter line = false)
    (given : readSettings (joinLines inside) = .ok layer) :
    ReadBelow text (underBlock inside text) layer (inside.length + 2) := by
  have found := block?_underBlock filled noReturn unended plain
  have body : Block.body ⟨[], inside, pieces text⟩ = terminated (List.replicate (inside.length + 2) []) ++ text := by
    rw [Block.body, List.nil_append, joinLines_append_pieces]
  have whole := read_of_block found given
  rw [body, readMatrix_below_blanks] at whole
  cases alone : Json.read text with
  | ok matrix =>
    have readable := readMatrix_eq_ok.mpr alone
    rw [alone] at whole
    refine ⟨iff_of_false ?_ ?_, fun error failed => ?_, fun other same => ?_⟩
    · rintro ⟨error, failed, _⟩
      cases whole.symm.trans failed
    · rintro ⟨error, failed⟩
      cases readable.symm.trans failed
    · cases readable.symm.trans failed
    · cases readable.symm.trans same
      exact whole
  | error failure =>
    have refused : readMatrix text = .error (.unreadable failure.fault (withLeft text failure.left)) := by
      rw [readMatrix, alone]
      rfl
    rw [alone] at whole
    refine ⟨iff_of_true ⟨_, whole, rfl⟩ ⟨_, refused⟩, fun error failed => ?_, fun matrix same => ?_⟩
    · cases refused.symm.trans failed
      exact ⟨failure, _, alone, whole, message_unreadable _ _, message_unreadable _ _,
        withLeft_underBlock (fun line member => (plain line member).1) (left_le_of_read alone)⟩
    · cases refused.symm.trans same

/-- A comma too many on the second of three lines, under a block of three. -/
theorem read_underBlock_comma :
    ∃ error, Source.read "---\ntempo: 60\n---\n[\n  [\"C4\",]\n]".toList = .error error ∧ error.message =
      "Invalid sequence format: could not parse JSON at line 5, column 9: trailing comma at line 5 column 9" := by
  have below := @read_underBlock "[\n  [\"C4\",]\n]".toList ["tempo: 60".toList] _ (by decide) (by decide) (by decide)
    (by decide) (by cbv)
  have alone : readMatrix "[\n  [\"C4\",]\n]".toList = .error (.unreadable .trailingComma ⟨2, 9⟩) := by cbv
  obtain ⟨failure, moved, read, whole, _, message, _⟩ := below.told _ alone
  have found : Json.read "[\n  [\"C4\",]\n]".toList = .error ⟨.trailingComma, 2⟩ := by cbv
  cases found.symm.trans read
  exact ⟨moved, whole, message.trans (by decide)⟩

end StepGrid.Proofs.SourcePlaces
