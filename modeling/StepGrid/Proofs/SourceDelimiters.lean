import StepGrid.Proofs.SourceBlock

/-! How many delimiters a readable source has. A line `---` outside of a block belongs to
the matrix, and no line of a readable matrix is one, so that nothing but a block has any. -/

namespace StepGrid.Proofs.SourceDelimiters
open Json Text Source TextLines JsonLines SourceBlock

theorem exists_of_dropWhile_cons {lines rest : List (List Char)} {line : List Char}
    (found : lines.dropWhile (!isDelimiter ·) = line :: rest) :
    isDelimiter line = true ∧ lines = lines.takeWhile (!isDelimiter ·) ++ line :: rest := by
  constructor
  · have head := List.head?_dropWhile_not (!isDelimiter ·) lines
    rw [found] at head
    simpa using head
  · rw [← found, List.takeWhile_append_dropWhile]

private theorem clear_takeWhile (lines : List (List Char)) :
    ∀ line ∈ lines.takeWhile (!isDelimiter ·), isDelimiter line = false := by
  intro line member
  simpa using List.mem_takeWhile_imp member

/-- A block lies between the first two delimiters. -/
theorem eq_of_block? {lines : List (List Char)} {block : Block} (found : block? lines = some block) :
    ∃ first second, lines = block.before ++ first :: (block.inside ++ second :: block.after) ∧
      isDelimiter first = true ∧ isDelimiter second = true ∧
      (∀ line ∈ block.before, isDelimiter line = false) ∧ ∀ line ∈ block.inside, isDelimiter line = false := by
  unfold block? at found
  split at found
  next => cases found
  next first rest begun =>
    split at found
    next => cases found
    next second after ended =>
      cases found
      obtain ⟨begins, split⟩ := exists_of_dropWhile_cons begun
      obtain ⟨ends, splitRest⟩ := exists_of_dropWhile_cons ended
      refine ⟨first, second, ?_, begins, ends, clear_takeWhile lines, clear_takeWhile rest⟩
      rw [← splitRest]
      exact split

private theorem block?_of_clear {lines : List (List Char)} (clear : ∀ line ∈ lines, isDelimiter line = false) :
    block? lines = none := by
  have nothing : lines.dropWhile (!isDelimiter ·) = [] := by
    rw [List.dropWhile_eq_nil_iff]
    simpa using clear
  rw [block?, nothing]

private theorem clear_of_readMatrix {text : List Char} {matrix : Json} (readable : readMatrix text = .ok matrix) :
    ∀ line ∈ lines text, isDelimiter line = false := by
  have whole := whole_of_read (readMatrix_eq_ok.mp readable)
  exact fun line member => not_isDelimiter_of_whole (whole_line whole member)

/-- What is left of a source around its block has no delimiter, or it could not be read. -/
theorem clear_after {block : Block} {matrix : Json} (readable : readMatrix block.body = .ok matrix) :
    ∀ line ∈ block.after, isDelimiter line = false := by
  have whole := whole_of_read (readMatrix_eq_ok.mp readable)
  have lineByLine := kinds_eq_of_whole whole
  intro line member
  apply not_isDelimiter_of_whole
  intro kind present
  apply whole kind
  rw [Block.body, lineByLine]
  exact List.mem_flatMap.mpr ⟨line, List.mem_append_right _ member, present⟩

theorem countP_of_clear {lines : List (List Char)} (clear : ∀ line ∈ lines, isDelimiter line = false) :
    lines.countP isDelimiter = 0 := by
  rw [List.countP_eq_zero]
  simpa using clear

/-- The parts that a source was read from. -/
theorem parts_of_read {text : List Char} {source : Source} (read : Source.read text = .ok source) :
    (block? (lines text) = none ∧ readMatrix text = .ok source.matrix) ∨
      ∃ block, block? (lines text) = some block ∧ readMatrix block.body = .ok source.matrix := by
  unfold Source.read at read
  split at read
  next absent =>
    obtain ⟨matrix, readable, made⟩ := bind_eq_ok.mp read
    cases made
    exact .inl ⟨absent, readable⟩
  next block found =>
    obtain ⟨layer, _, rest⟩ := bind_eq_ok.mp read
    obtain ⟨matrix, readable, made⟩ := bind_eq_ok.mp rest
    cases made
    exact .inr ⟨block, found, readable⟩

private theorem read_of_clear {text : List Char} {matrix : Json}
    (clear : ∀ line ∈ lines text, isDelimiter line = false)
    (readable : readMatrix text = .ok matrix) : Source.read text = .ok ⟨{}, matrix⟩ := by
  unfold Source.read
  rw [block?_of_clear clear]
  exact bind_eq_ok.mpr ⟨matrix, readable, rfl⟩

/-- A source that can be read has no delimiter or the two of its block, and the text of a
matrix has none, so that as a source it is the matrix and sets nothing. -/
theorem delimiters_of_read (text : List Char) :
    (∀ source, Source.read text = .ok source →
      (lines text).countP isDelimiter = 0 ∨ (lines text).countP isDelimiter = 2) ∧
    ∀ matrix, readMatrix text = .ok matrix →
      (∀ line ∈ lines text, isDelimiter line = false) ∧ Source.read text = .ok ⟨{}, matrix⟩ := by
  constructor
  · intro source read
    rcases parts_of_read read with ⟨_, readable⟩ | ⟨block, found, readable⟩
    · exact .inl (countP_of_clear (clear_of_readMatrix readable))
    · obtain ⟨first, second, split, begins, ends, clearBefore, clearInside⟩ := eq_of_block? found
      right
      rw [split, List.countP_append, List.countP_cons_of_pos begins, List.countP_append,
        List.countP_cons_of_pos ends, countP_of_clear clearBefore, countP_of_clear clearInside,
        countP_of_clear (clear_after readable)]
  · intro matrix readable
    have clear := clear_of_readMatrix readable
    exact ⟨clear, read_of_clear clear readable⟩

/-- A block under a matrix, its delimiters with blanks around them, and a matrix whose
strings are dashes. -/
theorem delimiters_of_dashes :
    (Source.read "[[\"---\"]]\n\u2003--- \ntempo: 60\n---\r\n".toList =
        .ok ⟨{ tempo := some 60 }, .array [.array [.string "---"]]⟩ ∧
      (lines "[[\"---\"]]\n\u2003--- \ntempo: 60\n---\r\n".toList).countP isDelimiter = 2) ∧
    readMatrix "[\r\n\"---\"\r\n]".toList = .ok (.array [.string "---"]) ∧
    Source.read "[\r\n\"---\"\r\n]".toList = .ok ⟨{}, .array [.string "---"]⟩ := by
  have read : Source.read "[[\"---\"]]\n\u2003--- \ntempo: 60\n---\r\n".toList =
      .ok ⟨{ tempo := some 60 }, .array [.array [.string "---"]]⟩ := by cbv
  have readable : readMatrix "[\r\n\"---\"\r\n]".toList = .ok (.array [.string "---"]) := by cbv
  have some : (lines "[[\"---\"]]\n\u2003--- \ntempo: 60\n---\r\n".toList).countP isDelimiter ≠ 0 := by decide
  exact ⟨⟨read, ((delimiters_of_read _).1 _ read).resolve_left some⟩, readable, ((delimiters_of_read _).2 _ readable).2⟩

end StepGrid.Proofs.SourceDelimiters
