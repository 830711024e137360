import StepGrid.Proofs.StreamWords

/-! Playing one note at a time. A stream answers with the notes of all steps before the
first one with an unknown name, then with that name, and with nothing from then on. Playing
a row all at once gives the same notes, or fails for the same name. For steps in reach, both are
done in machine words. -/

namespace StepGrid.Proofs.StreamAnswers
open Score Voice ScoreMeaning ScoreWords StreamWords WordFractions

/-- The answers that some steps have in store, whole steps at a time. A name without a key
ends them, and its step sounds nothing. -/
def answers (voice : Voice) : List PlacedStep → List (Except Error NoteEvent)
  | [] => []
  | placed :: after =>
    match unknown? placed.value.names with
    | some name => [.error (.unknownNote name)]
    | none => (notesOf voice placed (heldSteps after)).map .ok ++ answers voice after

def future (stream : NoteStream) : List (Except Error NoteEvent) :=
  stream.pending.map .ok ++ answers stream.voice stream.steps

private theorem answers_of_unknown (voice : Voice) {placed : PlacedStep} (after : List PlacedStep) {name : String}
    (missing : unknown? placed.value.names = some name) :
    answers voice (placed :: after) = [.error (.unknownNote name)] := by
  simp only [answers, missing]

theorem answers_of_known (voice : Voice) {placed : PlacedStep} (after : List PlacedStep)
    (known : unknown? placed.value.names = none) :
    answers voice (placed :: after) =
      (notesOf voice placed (heldSteps after)).map .ok ++ answers voice after := by
  simp only [answers, known]

private theorem answers_sustain (voice : Voice) (placed : PlacedStep) (after : List PlacedStep)
    (sustained : placed.value.isSustain = true) : answers voice (placed :: after) = answers voice after := by
  have silent := names_of_isSustain sustained
  rw [answers_of_known voice after (by rw [silent]; rfl), notesOf_of_names_nil silent]
  rfl

/-- An answer takes its item off what the stream has in store. -/
structure Takes (answer : NoteStream.Answer) (store : List (Except Error NoteEvent)) : Prop where
  item : answer.item = store.head?
  stream : future answer.stream = store.tail

private theorem seek_takes (voice : Voice) (records : List Record) (steps : List PlacedStep) :
    Takes (NoteStream.seek voice records steps) (answers voice steps) := by
  -- The induction is on the steps passed over: a step without notes leaves the store as it is.
  fun_induction NoteStream.seek voice records steps with
  | case1 => exact ⟨rfl, rfl⟩
  | case2 records placed after turn error failed =>
    cases missing : unknown? placed.value.names with
    | none =>
      have played := (play_of_known voice after missing).1
      exact absurd (failed.symm.trans played) (by simp)
    | some name =>
      have same := Except.error.inj (failed.symm.trans (play_of_unknown voice after missing))
      rw [answers_of_unknown voice after missing, same]
      exact ⟨rfl, rfl⟩
  | case3 records placed after turn event pending struck =>
    cases missing : unknown? placed.value.names with
    | some name =>
      have played := play_of_unknown voice after missing
      exact absurd (struck.symm.trans played) (by simp)
    | none =>
      have same := Except.ok.inj (struck.symm.trans (play_of_known voice after missing).1)
      rw [answers_of_known voice after missing, ← same, ← rest_of_known (answers_sustain voice) voice after missing]
      exact ⟨rfl, rfl⟩
  | case4 records placed after turn silent ih =>
    cases missing : unknown? placed.value.names with
    | some name =>
      have played := play_of_unknown voice after missing
      exact absurd (silent.symm.trans played) (by simp)
    | none =>
      have same := Except.ok.inj (silent.symm.trans (play_of_known voice after missing).1)
      rw [answers_of_known voice after missing, ← same, ← rest_of_known (answers_sustain voice) voice after missing]
      exact ih

/-- The notes of a step are answered before any later step is looked at. -/
theorem next_takes (stream : NoteStream) : Takes stream.next (future stream) := by
  obtain ⟨voice, steps, pending⟩ := stream
  cases pending with
  | nil => exact seek_takes voice [] steps
  | cons event pending => exact ⟨rfl, rfl⟩

/-- So many answers are so many items of the store, and none after its end. -/
theorem items_take (stream : NoteStream) (count : Nat) :
    (stream.take count).map (·.item) = (List.range count).map ((future stream)[·]?) := by
  induction count generalizing stream with
  | zero => rfl
  | succ count ih =>
    have step := next_takes stream
    rw [NoteStream.take, List.map_cons, ih, step.item, step.stream, List.range_succ_eq_map, List.map_cons,
      List.map_map, List.head?_eq_getElem?]
    congr 1
    exact List.map_congr_left fun call _ => List.getElem?_tail

/-- The place of the first step with a name that stands for no key; without such a step,
the end of the row. -/
def spoiledPlace (steps : List PlacedStep) : Nat :=
  steps.findIdx fun placed => (unknown? placed.value.names).isSome

/-- The first such name of the step at that place. -/
def spoiledBy? (steps : List PlacedStep) : Option String :=
  steps[spoiledPlace steps]?.bind fun placed => unknown? placed.value.names

/-- The notes of all steps before that place. -/
def notesBefore (steps : List PlacedStep) (stepsPerBar channel : Nat) (velocity : Int) : List NoteEvent :=
  (List.range (spoiledPlace steps)).flatMap (declaredAt steps stepsPerBar channel velocity)

theorem spoiledPlace_of_unknown {placed : PlacedStep} (after : List PlacedStep) {name : String}
    (missing : unknown? placed.value.names = some name) : spoiledPlace (placed :: after) = 0 := by
  rw [spoiledPlace, List.findIdx_cons, missing]
  rfl

theorem spoiledPlace_of_known {placed : PlacedStep} (after : List PlacedStep)
    (known : unknown? placed.value.names = none) : spoiledPlace (placed :: after) = spoiledPlace after + 1 := by
  rw [spoiledPlace, List.findIdx_cons, known]
  rfl

theorem spoiledBy?_eq (steps : List PlacedStep) : spoiledBy? steps = firstUnknown? steps := by
  induction steps with
  | nil => rfl
  | cons placed after ih =>
    rw [firstUnknown?_cons, ← ih, spoiledBy?]
    cases missing : unknown? placed.value.names with
    | some name => simp [spoiledPlace_of_unknown after missing, missing]
    | none => simp [spoiledPlace_of_known after missing, spoiledBy?]

theorem answers_eq (voice : Voice) (steps : List PlacedStep) :
    answers voice steps =
      ((List.range (spoiledPlace steps)).flatMap fun index =>
        steps[index]?.elim [] fun placed => notesOf voice placed (runAfter steps index)).map .ok ++
      (firstUnknown? steps).toList.map fun name => .error (.unknownNote name) := by
  induction steps with
  | nil => rfl
  | cons placed after ih =>
    rw [firstUnknown?_cons]
    cases missing : unknown? placed.value.names with
    | some name =>
      rw [answers_of_unknown voice after missing, spoiledPlace_of_unknown after missing]
      rfl
    | none =>
      rw [answers_of_known voice after missing, ih, spoiledPlace_of_known after missing, List.range_succ_eq_map,
        List.flatMap_cons, List.flatMap_map, List.map_append, List.append_assoc, Option.none_or]
      rfl

theorem spoiledPlace_eq_length {steps : List PlacedStep} (known : firstUnknown? steps = none) :
    spoiledPlace steps = steps.length := by
  induction steps with
  | nil => rfl
  | cons placed after ih =>
    obtain ⟨knownHead, knownTail⟩ := known_cons known
    rw [spoiledPlace_of_known after knownHead, ih knownTail, List.length_cons]

private theorem items_take_of_ofGrid {steps : List PlacedStep} {stepsPerBar channel : Nat} {velocity : Int}
    {voice : Voice} (made : Voice.ofGrid stepsPerBar channel velocity = .ok voice) (count : Nat) :
    ((NoteStream.mk voice steps []).take count).map (·.item) = (List.range count).map fun call =>
      ((notesBefore steps stepsPerBar channel velocity).map .ok ++
        (spoiledBy? steps).toList.map fun name => .error (.unknownNote name))[call]? := by
  obtain ⟨_, rfl⟩ := ofGrid_eq_ok.mp made
  rw [items_take, future, List.map_nil, List.nil_append, answers_eq, spoiledBy?_eq]
  simp only [notesOf_eq_declaredAt, notesBefore]

private theorem compile_of_ofGrid {steps : List PlacedStep} {stepsPerBar channel : Nat} {velocity : Int}
    {voice : Voice} (made : Voice.ofGrid stepsPerBar channel velocity = .ok voice) :
    compile steps stepsPerBar channel velocity = match spoiledBy? steps with
      | some name => .error (.unknownNote name)
      | none => .ok (notesBefore steps stepsPerBar channel velocity) := by
  obtain ⟨_, rfl⟩ := ofGrid_eq_ok.mp made
  rw [compile_eq_perform made, spoiledBy?_eq]
  cases missing : firstUnknown? steps with
  | some name => rfl
  | none =>
    rw [notesBefore, spoiledPlace_eq_length missing, notes_eq_flatMap]
    simp only [notesOf_eq_declaredAt]

/-- Asked one by one, a row answers with all notes before the first spoiled step, then with
the name that spoils it, and with nothing however often it is asked again. Compiled at
once, it gives those notes if no step is spoiled, and fails for that name otherwise. If all
steps are in reach, no number on the way to this is too large for a word. -/
theorem items_of_opened {arithmetic : Arithmetic} (exact : arithmetic.Exact) {steps : List PlacedStep}
    {stepsPerBar channel : Nat} {velocity : Int} {stream : NoteStream}
    (opened : NoteStream.ofSteps steps stepsPerBar channel velocity = .ok stream) (reaches : Reaches stepsPerBar steps) :
    (∀ count, answersInWords arithmetic steps stepsPerBar channel velocity count = some (.ok (stream.take count)) ∧
      (stream.take count).map (·.item) = (List.range count).map fun call =>
        ((notesBefore steps stepsPerBar channel velocity).map .ok ++
          (spoiledBy? steps).toList.map fun name => .error (.unknownNote name))[call]?) ∧
    (performGridInWords arithmetic steps stepsPerBar channel velocity).map (·.outcome) =
      some (compile steps stepsPerBar channel velocity) ∧
    compile steps stepsPerBar channel velocity = match spoiledBy? steps with
      | some name => .error (.unknownNote name)
      | none => .ok (notesBefore steps stepsPerBar channel velocity) := by
  have inWords := answersInWords_eq exact opened reaches
  unfold NoteStream.ofSteps at opened
  cases made : Voice.ofGrid stepsPerBar channel velocity with
  | error error =>
    rw [made] at opened
    cases opened
  | ok voice =>
    rw [made] at opened
    cases opened
    refine ⟨fun count => ⟨inWords count, items_take_of_ofGrid made count⟩, ?_, compile_of_ofGrid made⟩
    rw [performGridInWords_eq exact reaches, Option.map_some, compile]

/-- A sustain without a note, an empty chord, a held note, and a chord whose second name
stands for no key. -/
def spoiledRow : List PlacedStep :=
  [⟨0, 0, .sustain⟩, ⟨0, 1, .chord []⟩, ⟨0, 2, .note "C4"⟩, ⟨0, 3, .sustain⟩, ⟨1, 0, .chord ["E4", "H4"]⟩,
    ⟨1, 1, .note "G4"⟩]

theorem items_of_spoiledRow :
    ∃ stream, NoteStream.ofSteps spoiledRow 4 0 100 = .ok stream ∧
      (answersInWords checked spoiledRow 4 0 100 4).map (·.map (·.map (·.item))) =
        some (.ok [some (.ok ⟨0, 0, 60, 100, 2, 2⟩), some (.error (.unknownNote "H4")), none, none]) ∧
      (performGridInWords checked spoiledRow 4 0 100).map (·.outcome) = some (.error (.unknownNote "H4")) := by
  have opened : NoteStream.ofSteps spoiledRow 4 0 100 = .ok ⟨_, spoiledRow, []⟩ := rfl
  have reaches : Reaches 4 spoiledRow := by
    refine ⟨by decide, fun placed member _ => ?_⟩
    have near : ∀ placed ∈ spoiledRow, 0 ≤ placed.bar ∧ 0 ≤ placed.step ∧ 4 * placed.bar.toNat + placed.step.toNat < 2 ^ 61 := by
      decide
    obtain ⟨bar, step, near⟩ := near placed member
    exact inReach_of_lt (by decide) (by decide) (Int.toNat_of_nonneg bar).symm (Int.toNat_of_nonneg step).symm near
  obtain ⟨answered, performed, compiled⟩ := items_of_opened exact_checked opened reaches
  have before : notesBefore spoiledRow 4 0 100 = [⟨0, 0, 60, 100, 2, 2⟩] := by decide +kernel
  obtain ⟨inWords, items⟩ := answered 4
  refine ⟨_, opened, ?_, by rw [performed, compiled]; rfl⟩
  rw [inWords, Option.map_some, Except.map, items, before]
  rfl

/-- A step in the last bar but one that a word can count is played two bars before the first.
Without words it comes as late as it stands. At 2 ^ 61 a bar is too late for the words of a time. -/
theorem played_before_first_bar :
    (compile [.ofWords 18446744073709551614 0 (.note "C4")] 4 0 100 = .ok [⟨0, 0, 60, 100, -8, 1⟩]) ∧
      (∃ stream, NoteStream.ofSteps [.ofWords 18446744073709551614 0 (.note "C4")] 4 0 100 = .ok stream ∧
        (stream.take 1).map (·.item) = [some (.ok ⟨0, 0, 60, 100, -8, 1⟩)]) ∧
      notesBefore [⟨18446744073709551614, 0, .note "C4"⟩] 4 0 100 = [⟨0, 0, 60, 100, 73786976294838206456, 1⟩] ∧
      performGridInWords checked [⟨2305843009213693952, 0, .note "C4"⟩] 4 0 100 = none := by
  have made : Voice.ofGrid 4 0 100 = .ok ⟨4 / (4 : Nat), 0, 100⟩ := ofGrid_eq_ok.mpr ⟨by decide, rfl⟩
  have before : notesBefore [.ofWords 18446744073709551614 0 (.note "C4")] 4 0 100 = [⟨0, 0, 60, 100, -8, 1⟩] := by
    decide +kernel
  have stuck : startInWords checked ⟨4 / (4 : Nat), 0, 100⟩ ⟨2305843009213693952, 0, .note "C4"⟩ = none := by decide +kernel
  refine ⟨?_, ⟨_, congrArg (Except.map _) made, ?_⟩, by decide +kernel, ?_⟩
  · rw [compile_of_ofGrid made, before]
    rfl
  · rw [items_take_of_ofGrid made, before]
    rfl
  · rw [performGridInWords, bind_of_eq_some (voiceInWords_eq exact_checked 4 0 100), made]
    dsimp only
    have run : runFrom 0 [] = some (1, 1) := by decide
    rw [performInWords, playInWords]
    dsimp only
    rw [strikeInWords, bind_of_eq_some run]
    dsimp only
    rw [stuck]
    rfl

end StepGrid.Proofs.StreamAnswers
