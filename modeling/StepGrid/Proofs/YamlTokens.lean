import StepGrid.Proofs.YamlScalars
import StepGrid.Yaml.Lexer

/-! The tokens of a flat mapping in a block, line by line. A word at the start of a line waits for
its colon, which puts a key token before it; the first one also opens the mapping. A word that
is too long to wait makes the text malformed, whether or not the block already wanted a key. -/

namespace StepGrid.Proofs.YamlTokens
open Yaml Lexer YamlScalars

section Starts

private theorem startsPlain_word {char : Char} {rest : List Char} (word : isWordChar char = true)
    (hyphen : char = '-' → rest.head?.any isVisible = true) : startsPlain false char rest = true := by
  unfold startsPlain
  by_cases minus : char = '-'
  · have touching := hyphen minus
    cases rest with
    | nil => cases touching
    | cons next more => simp_all [isVisible]
  · have listed : "-?:,[]\x7b\x7d#&*!|>'\"%@`".toList.all (fun special => special = '-' || !isWordChar special) = true := by
      decide
    have plain : "-?:,[]\x7b\x7d#&*!|>'\"%@`".contains char = false := by
      rw [String.contains_char_eq, decide_eq_false_iff_not]
      intro member
      simpa [minus, word] using List.all_eq_true.mp listed char member
    rw [plain, isBlank_of_isVisible (isVisible_of_isWordChar word)]
    rfl

private theorem startsDocumentMark_word {char : Char} {rest : List Char} (word : isWordChar char = true)
    (plain : char ≠ '-') : startsDocumentMark (char :: rest) = false := by
  unfold startsDocumentMark
  split
  next same => exact absurd (List.cons.inj same).1 plain
  next same => exact absurd (List.cons.inj same).1 (ne_of_isWordChar word '.' (by decide))
  next => rfl

/-- A word starts a plain scalar. A hyphen at its head has to touch what follows and must not
start a line, where it could mark a document. -/
theorem takeToken_word {lexer : Lexer} {char : Char} {rest : List Char} (block : lexer.outer = [])
    (word : isWordChar char = true)
    (hyphen : char = '-' → 0 < lexer.mark.column ∧ rest.head?.any isVisible = true) :
    lexer.takeToken char rest = lexer.takeScalar .plain readPlain := by
  have other := ne_of_isWordChar word
  have flow : lexer.inFlow = false := by rw [inFlow, block]; rfl
  have starts := startsPlain_word word fun minus => (hyphen minus).2
  have noMark : ¬ (lexer.mark.column = 0 ∧ startsDocumentMark (char :: rest) = true) := by
    rintro ⟨first, marks⟩
    by_cases minus : char = '-'
    · exact absurd first (Nat.ne_of_gt (hyphen minus).1)
    · cases marks.symm.trans (startsDocumentMark_word word minus)
  have noEntry : ¬ (char = '-' ∧ endsWord rest = true) := by
    rintro ⟨minus, ends⟩
    have touching := (hyphen minus).2
    cases rest with
    | nil => cases touching
    | cons next more => simp_all [isVisible, endsWord]
  rw [takeToken, if_neg (by simp [other '%' (by decide)]), if_neg noMark, if_neg (other '[' (by decide)),
    if_neg (other '\x7b' (by decide)), if_neg (other ']' (by decide)), if_neg (other '\x7d' (by decide)),
    if_neg (other ',' (by decide)), if_neg noEntry, if_neg (by simp [other '?' (by decide)]),
    if_neg (by simp [other ':' (by decide)]), if_neg (other '*' (by decide)), if_neg (other '&' (by decide)),
    if_neg (other '!' (by decide)), if_neg (by simp [other '|' (by decide)]), if_neg (by simp [other '>' (by decide)]),
    if_neg (other '\'' (by decide)), if_neg (other '"' (by decide)), flow, if_pos starts]

theorem takeToken_quote (lexer : Lexer) (rest : List Char) :
    lexer.takeToken '\'' rest = lexer.takeScalar .singleQuoted readSingleQuoted := by
  simp [takeToken, startsDocumentMark]

private theorem takeToken_colon (lexer : Lexer) (rest : List Char) :
    lexer.takeToken ':' (' ' :: rest) = lexer.takeValue := by
  simp [takeToken, startsDocumentMark, endsWord, isBlank]

end Starts

section Seeking

/-- Blanks and comments go, and nothing else is put in their place. -/
theorem toVisible_length (flow allowed comment : Bool) (mark : Mark) (text : List Char) :
    (toVisible flow allowed comment mark text).2.rest.length ≤ text.length := by
  induction text generalizing allowed comment mark with
  | nil => simp [toVisible]
  | cons char rest ih =>
    rw [toVisible]
    have later (allowed comment : Bool) := Nat.le_succ_of_le (ih allowed comment (mark.after char))
    split_ifs
    · exact later _ _
    · exact later _ _
    · exact later _ _
    · exact later _ _
    · exact Nat.le_refl _

theorem toVisible_visible (flow allowed : Bool) (mark : Mark) {char : Char} (visible : isVisible char = true)
    (noComment : char ≠ '#') (noOrder : char ≠ '\ufeff') (rest : List Char) :
    toVisible flow allowed false mark (char :: rest) = (allowed, ⟨char :: rest, mark⟩) := by
  have noBlank := isBlank_of_isVisible visible
  simp only [isBlank, Bool.or_eq_false_iff, decide_eq_false_iff_not] at noBlank
  rw [toVisible, if_neg (by simp [isBreak_of_isVisible visible]), if_neg (by decide), if_neg noComment,
    if_neg (by simp [noBlank, noOrder])]

theorem toVisible_word (flow allowed : Bool) (mark : Mark) {char : Char} (word : isWordChar char = true)
    (rest : List Char) : toVisible flow allowed false mark (char :: rest) = (allowed, ⟨char :: rest, mark⟩) :=
  toVisible_visible flow allowed mark (isVisible_of_isWordChar word) (ne_of_isWordChar word _ (by decide))
    (ne_of_isWordChar word _ (by decide)) rest

theorem toVisible_space (flow allowed : Bool) (mark : Mark) (rest : List Char) :
    toVisible flow allowed false mark (' ' :: rest) = toVisible flow allowed false (mark.after ' ') rest := by
  simp [toVisible, isBreak]

/-- In a block a key may start on a new line. -/
theorem toVisible_line (allowed : Bool) (mark : Mark) (rest : List Char) :
    toVisible false allowed false mark ('\n' :: rest) = toVisible false true false (mark.after '\n') rest := by
  simp [toVisible, isBreak]

end Seeking

section Steps

/-- A lexer in a block, between tokens, with what may still become a key. -/
def between (candidate : Option KeyCandidate) (released : Nat) (cursor : Cursor) (tokens : List Token)
    (columns : List Nat) (keyAllowed : Bool) : Lexer where
  cut := false
  cursor := cursor
  tokens := tokens
  count := tokens.length
  released := released
  candidate := candidate
  outer := []
  columns := columns
  keyAllowed := keyAllowed
  finished := false

variable {candidate : Option KeyCandidate} {released : Nat} {cursor : Cursor} {tokens : List Token} {columns : List Nat}
  {keyAllowed : Bool}

private theorem dropStale_between (fresh : ∀ known ∈ candidate, known.isStale cursor.mark = false) :
    (between candidate released cursor tokens columns keyAllowed).dropStale =
      .ok (between candidate released cursor tokens columns keyAllowed) := by
  cases candidate with
  | none => rfl
  | some known =>
    have alive := fresh known rfl
    have kept : (some known).filter (fun known => !known.isStale cursor.mark) = some known := by simp [alive]
    rw [dropStale, if_neg (by simp [candidates, between, Lexer.mark, alive])]
    simp only [between, Lexer.mark, kept, List.map_nil]

def heldFrom (candidate : Option KeyCandidate) (tokens : List Token) : Nat :=
  candidate.elim tokens.length fun known => min tokens.length known.number

private theorem release_between (fresh : ∀ known ∈ candidate, known.isStale cursor.mark = false) :
    (between candidate released cursor tokens columns keyAllowed).release =
      .ok (between candidate (heldFrom candidate tokens) cursor tokens columns keyAllowed) := by
  rw [release, dropStale_between fresh]
  cases candidate with
  | none => rfl
  | some known => rfl

/-- What has become too long to be a key is given up, unless a key was wanted. -/
theorem release_stale {known : KeyCandidate} (stale : known.isStale cursor.mark = true) :
    (between (some known) released cursor tokens columns keyAllowed).release =
      if known.required then .error .malformed
      else .ok (between none tokens.length cursor tokens columns keyAllowed) := by
  have gone : (some known).filter (fun known => !known.isStale cursor.mark) = none := by simp [stale]
  have given : (between (some known) released cursor tokens columns keyAllowed).candidates = [known] := rfl
  rw [release, dropStale, given]
  cases required : known.required with
  | true => simp [between, Lexer.mark, required, stale, bind, Except.bind]
  | false =>
    rw [if_neg (by simp [required])]
    simp only [between, Lexer.mark, gone]
    rfl

private theorem closeBlocks_of_shallow {lexer : Lexer} {column : Int}
    (shallow : ∀ block ∈ lexer.columns, (block : Int) ≤ column) : lexer.closeBlocks column = lexer := by
  have kept : lexer.columns.takeWhile (fun block : Nat => decide (column < block)) = [] ∧
      lexer.columns.dropWhile (fun block : Nat => decide (column < block)) = lexer.columns := by
    cases columns : lexer.columns with
    | nil => exact ⟨rfl, rfl⟩
    | cons block blocks =>
      have inside : ¬ column < block := Int.not_lt.mpr (shallow block (by simp [columns]))
      simp [inside]
  unfold closeBlocks
  split
  next => rfl
  next => simp only [kept, List.length_nil, List.replicate_zero, List.nil_append, Nat.add_zero]

private theorem run_of_next {lexer settled taken : Lexer} (released : lexer.release = .ok settled)
    (unfinished : settled.finished = false) (next : settled.next = .ok taken)
    (shorter : taken.remaining < lexer.remaining) : lexer.run = taken.run := by
  rw [Lexer.run, released]
  simp only [unfinished, next, shorter, if_true, Bool.false_eq_true, if_false]

/-- What a lexer does once it knows what may still be a key depends on the next character. -/
theorem next_of_fresh {lexer fresh : Lexer} (sought : lexer.seek.dropStale = .ok fresh)
    (shallow : ∀ block ∈ fresh.columns, block ≤ fresh.mark.column) (whole : fresh.cut = false) :
    lexer.next = (match fresh.cursor.rest with
      | [] => fresh.takeEnd
      | char :: rest => fresh.takeToken char rest >>= fun taken =>
        if taken.isCutWithin 1 then .error .malformed else .ok taken) := by
  have closed : fresh.closeBlocks fresh.mark.column = fresh :=
    closeBlocks_of_shallow fun block member => by exact_mod_cast shallow block member
  rw [Lexer.next, sought]
  change (if (fresh.closeBlocks fresh.mark.column).isCutWithin lookahead = true then _ else _) = _
  rw [closed]
  exact if_neg (by simp [isCutWithin, whole])

variable {allowed : Bool} {mark : Mark} {text : List Char}

theorem seek_between (sought : toVisible false keyAllowed false cursor.mark cursor.rest = (allowed, ⟨text, mark⟩))
    (fresh : ∀ known ∈ candidate, known.isStale mark = false) :
    (between candidate released cursor tokens columns keyAllowed).seek.dropStale =
      .ok (between candidate released ⟨text, mark⟩ tokens columns allowed) := by
  rw [← dropStale_between fresh]
  simp only [Lexer.seek, Lexer.inFlow, Lexer.mark, between, List.isEmpty_nil, Bool.not_true, sought]

/-- A run goes on after the next token. -/
theorem run_of_takeToken {char : Char} {rest : List Char} {taken : Lexer}
    (fresh : ∀ known ∈ candidate, known.isStale cursor.mark = false ∧ known.isStale mark = false)
    (sought : toVisible false keyAllowed false cursor.mark cursor.rest = (allowed, ⟨char :: rest, mark⟩))
    (shallow : ∀ block ∈ columns, block ≤ mark.column)
    (token : (between candidate (heldFrom candidate tokens) ⟨char :: rest, mark⟩ tokens columns allowed).takeToken
      char rest = .ok taken)
    (whole : taken.cut = false) (unfinished : taken.finished = false)
    (shorter : taken.cursor.rest.length ≤ rest.length) :
    (between candidate released cursor tokens columns keyAllowed).run = taken.run := by
  have next : (between candidate (heldFrom candidate tokens) cursor tokens columns keyAllowed).next = .ok taken := by
    rw [next_of_fresh (seek_between sought fun known given => (fresh known given).2) shallow rfl]
    change (between candidate _ ⟨char :: rest, mark⟩ tokens columns allowed).takeToken char rest >>= _ = _
    rw [token]
    change (if taken.isCutWithin 1 = true then _ else _) = _
    rw [if_neg (by simp [isCutWithin, whole])]
  have longer := toVisible_length false keyAllowed false cursor.mark cursor.rest
  have less : taken.remaining < (between candidate released cursor tokens columns keyAllowed).remaining := by
    simp only [sought, List.length_cons] at longer
    simp only [remaining, between, unfinished, Bool.false_eq_true, if_false]
    omega
  exact run_of_next (release_between fun known given => (fresh known given).1) rfl next less

private theorem release_idle {lexer : Lexer} (candidate : lexer.candidate = none) (outer : lexer.outer = []) :
    lexer.release = .ok { lexer with released := lexer.count } := by
  cases lexer
  subst candidate outer
  rfl

/-- At the end of the text the only block is closed, and all tokens are known. -/
theorem run_end (released : Nat) (mark : Mark) (tokens : List Token) (keyAllowed : Bool) :
    (between none released ⟨[], mark⟩ tokens [0] keyAllowed).run.complete = true ∧
    (between none released ⟨[], mark⟩ tokens [0] keyAllowed).run.list.map (·.kind) =
      tokens.reverse.map (·.kind) ++ [.blockEnd, .streamEnd] := by
  obtain ⟨last, taken⟩ : ∃ last, (between none tokens.length ⟨[], mark⟩ tokens [0] keyAllowed).takeEnd = .ok
      { between none tokens.length ⟨[], last⟩ (⟨.streamEnd, last⟩ :: ⟨.blockEnd, last⟩ :: tokens) [] false with
        finished := true } := ⟨_, rfl⟩
  have next : (between none tokens.length ⟨[], mark⟩ tokens [0] keyAllowed).next =
      (between none tokens.length ⟨[], mark⟩ tokens [0] keyAllowed).takeEnd :=
    next_of_fresh (seek_between rfl (by simp)) (by simp [between]) rfl
  rw [run_of_next (release_idle rfl rfl) rfl (next.trans taken) (by simp [remaining, between]), Lexer.run,
    release_idle rfl rfl]
  simp [between]

end Steps

section Keys
variable {released : Nat} {cursor : Cursor} {tokens : List Token} {columns : List Nat} {keyAllowed : Bool} {mark : Mark}
  {initial : Char} {more rest : List Char}

theorem shallow_of_top (top : columns = [] ∨ columns = [0]) (column : Nat) :
    ∀ block ∈ columns, block ≤ column := by
  rcases top with rfl | rfl <;> simp

private theorem isStale_after (chars : ∀ char ∈ initial :: more, isWordChar char = true) (required : Bool)
    (number : Nat) :
    (KeyCandidate.mk required number mark).isStale ((initial :: more).foldl Mark.after mark) =
      decide (longestKey < (initial :: more).length) := by
  rw [foldl_after fun char member => ⟨utf8Size_of_isWordChar (chars char member),
    isBreak_of_isVisible (isVisible_of_isWordChar (chars char member))⟩]
  simp [KeyCandidate.isStale]

/-- The tokens of a key and its colon, in reverse. The first key also opens the mapping. -/
def keyTokens (columns : List Nat) (key : Token) (colon : Mark) : List Token :=
  ⟨.value, colon⟩ :: key :: ⟨.key, key.mark⟩ :: if columns.isEmpty then [⟨.blockMapping, key.mark⟩] else []

private theorem takeValue_key (top : columns = [] ∨ columns = [0]) (first : mark.column = 0) (required : Bool)
    (key : Token) (same : key.mark = mark) (colon : Mark) :
    (between (some ⟨required, tokens.length, mark⟩) released ⟨':' :: rest, colon⟩ (key :: tokens) columns
        false).takeValue =
      .ok (between none released ⟨rest, colon.after ':'⟩ (keyTokens columns key colon ++ tokens) [0] false) := by
  subst same
  have later : tokens.length + 1 + 1 - tokens.length = 2 := by omega
  rcases top with rfl | rfl <;>
    simp [takeValue, between, Lexer.insert, openBlock, inFlow, Lexer.indent, allowKey, pushPast, push, moveTo,
      keyTokens, first, later, Cursor.skip, Cursor.past, Lexer.mark]

/-- A colon after a word that is too long does not make a key of it. -/
theorem complete_of_stale {known : KeyCandidate} {after : Mark} (stale : known.isStale after = true)
    (required : known.required = !columns.isEmpty) (shallow : ∀ block ∈ columns, block ≤ after.column) :
    (between (some known) released ⟨':' :: ' ' :: rest, after⟩ tokens columns false).run.complete = false := by
  rw [Lexer.run, release_stale stale, required]
  cases columns with
  | cons block blocks => rfl
  | nil =>
    have next : (between none tokens.length ⟨':' :: ' ' :: rest, after⟩ tokens [] false).next =
        .error .malformed := by
      rw [next_of_fresh (seek_between (toVisible_visible false false _ (by decide) (by decide) (by decide) _) (by simp))
        shallow rfl]
      change takeToken _ ':' (' ' :: rest) >>= _ = _
      rw [takeToken_colon]
      rfl
    rw [List.isEmpty_nil, Bool.not_true, if_neg Bool.false_ne_true]
    dsimp only
    rw [next]
    rfl

variable (chars : ∀ char ∈ initial :: more, isWordChar char = true) (letter : initial ≠ '-')
  (top : columns = [] ∨ columns = [0]) (first : mark.column = 0)
include chars letter top first

/-- A word before a colon waits for it. -/
theorem takeToken_key :
    (between none released ⟨initial :: more ++ ':' :: ' ' :: rest, mark⟩ tokens columns true).takeToken initial
        (more ++ ':' :: ' ' :: rest) =
      .ok (between (some ⟨!columns.isEmpty, tokens.length, mark⟩) released
        ⟨':' :: ' ' :: rest, (initial :: more).foldl Mark.after mark⟩
        (⟨.scalar .plain (initial :: more), mark⟩ :: tokens) columns false) := by
  rw [takeToken_word rfl (chars initial List.mem_cons_self) fun minus => absurd minus letter, takeScalar]
  have proposed (text : List Char) : (between none released ⟨text, mark⟩ tokens columns true).proposeKey =
      .ok (between (some ⟨!columns.isEmpty, tokens.length, mark⟩) released ⟨text, mark⟩ tokens columns true) := by
    rcases top with rfl | rfl <;>
      simp [proposeKey, between, dropCandidate, inFlow, Lexer.indent, Lexer.mark, first]
  rw [proposed]
  change readPlain _ >>= _ = _
  rw [readPlain]
  change plainScalar false _ [] .none mark (initial :: more ++ ':' :: ' ' :: rest) >>= _ = _
  rw [plainScalar_colon _ chars]
  rfl

variable (sought : toVisible false keyAllowed false cursor.mark cursor.rest =
  (true, ⟨initial :: more ++ ':' :: ' ' :: rest, mark⟩))
include sought

theorem run_key (short : (initial :: more).length ≤ longestKey) :
    (between none released cursor tokens columns keyAllowed).run =
      (between none tokens.length ⟨' ' :: rest, ((initial :: more).foldl Mark.after mark).after ':'⟩
        (keyTokens columns ⟨.scalar .plain (initial :: more), mark⟩ ((initial :: more).foldl Mark.after mark) ++
          tokens) [0] false).run := by
  have fresh : ∀ known ∈ some (KeyCandidate.mk (!columns.isEmpty) tokens.length mark),
      known.isStale ((initial :: more).foldl Mark.after mark) = false := by
    rintro _ ⟨⟩
    rw [isStale_after chars, decide_eq_false_iff_not]
    omega
  have held (key : Token) : heldFrom (some ⟨!columns.isEmpty, tokens.length, mark⟩) (key :: tokens) =
      tokens.length := by simp [heldFrom]
  rw [run_of_takeToken (by simp) sought (shallow_of_top top _) (takeToken_key chars letter top first) rfl rfl
      (by simp [between]),
    run_of_takeToken (fun known given => ⟨fresh known given, fresh known given⟩)
      (toVisible_visible false false _ (by decide) (by decide) (by decide) _) (shallow_of_top top _)
      ((takeToken_colon _ _).trans (takeValue_key top first _ _ rfl _)) rfl rfl (Nat.le_refl _), held]

/-- A key that is too long makes the text malformed. -/
theorem run_key_long (long : longestKey < (initial :: more).length) :
    (between none released cursor tokens columns keyAllowed).run.complete = false := by
  rw [run_of_takeToken (by simp) sought (shallow_of_top top _) (takeToken_key chars letter top first) rfl rfl
    (by simp [between])]
  refine complete_of_stale ?_ rfl (shallow_of_top top _)
  rw [isStale_after chars, decide_eq_true_iff]
  exact long

end Keys

end StepGrid.Proofs.YamlTokens
