import StepGrid.Proofs.GridPlaces
import StepGrid.Proofs.JsonTexts

/-! What becomes of a matrix, whatever it holds. Faults of the shape come before faults of
steps, and among equals the first in reading order is the one that is told. -/

namespace StepGrid.Proofs.GridVerdicts
open StepGrid.Matrix GridPlaces JsonTexts

def IsBar (width : Nat) (bar : Json) : Prop := ∃ values, bar = .array values ∧ values.length = width

def At (bars : List Json) (bar step : Nat) (value : Json) : Prop :=
  ∃ values, bars[bar]? = some (.array values) ∧ values[step]? = some value

/-- The steps of a matrix, or the fault that it is refused for. -/
inductive Verdict (width : Nat) : Json → Except Error (List PlacedStep) → Prop where
  | noMatrix {matrix : Json} (other : ∀ bars, matrix ≠ .array bars) : Verdict width matrix (.error (.notBars matrix.kind))
  | noBar {bars : List Json} {index : Nat} {bar : Json} (found : bars[index]? = some bar)
      (whole : ∀ earlier < index, ∀ one, bars[earlier]? = some one → IsBar width one)
      (other : ∀ values, bar ≠ .array values) : Verdict width (.array bars) (.error (.notSteps index bar.kind))
  | barLength {bars : List Json} {index : Nat} {values : List Json} (found : bars[index]? = some (.array values))
      (whole : ∀ earlier < index, ∀ one, bars[earlier]? = some one → IsBar width one)
      (different : values.length ≠ width) :
      Verdict width (.array bars) (.error (.barLength index values.length width))
  | noStep {bars : List Json} {bar step : Nat} {value : Json} (whole : ∀ one ∈ bars, IsBar width one)
      (found : At bars bar step value) (unsupported : Step.classify value = none)
      (supported : ∀ earlierBar earlierStep one, earlierBar < bar ∨ earlierBar = bar ∧ earlierStep < step →
        At bars earlierBar earlierStep one → (Step.classify one).isSome) :
      Verdict width (.array bars) (.error (.unsupportedStep bar step value))
  | steps {bars : List Json} {steps : List PlacedStep} (whole : ∀ one ∈ bars, IsBar width one)
      (length : steps.length = width * bars.length)
      (placed : ∀ place < steps.length, ∃ value step, At bars (place / width) (place % width) value ∧
        Step.classify value = some step ∧ steps[place]? = some ⟨(place / width : Nat), (place % width : Nat), step⟩) :
      Verdict width (.array bars) (.ok steps)

theorem items?_eq_some {value : Json} {items : List Json} : value.items? = some items ↔ value = .array items := by
  cases value <;> simp [Json.items?]

theorem items?_eq_none {value : Json} : value.items? = none ↔ ∀ items, value ≠ .array items := by
  cases value <;> simp [Json.items?]

section Bars

theorem bar_eq_error {width index : Nat} {value : Json} {error : Error} :
    bar width index value = .error error ↔ (∀ values, value ≠ .array values) ∧ error = .notSteps index value.kind ∨
      ∃ values, value = .array values ∧ values.length ≠ width ∧ error = .barLength index values.length width := by
  unfold bar
  split
  next noList =>
    have other := items?_eq_none.mp noList
    simp [other, eq_comm]
  next values found =>
    cases items?_eq_some.mp found
    split
    next even => simp [even]
    next different => simpa [eq_comm] using fun _ => Ne.symm different

theorem exists_bar_eq_ok {width index : Nat} {value : Json} :
    (∃ row, bar width index value = .ok row) ↔ IsBar width value := by
  simp only [bar_eq_ok, items?_eq_some, exists_and_left, exists_eq, and_true]
  rfl

theorem bars_eq_error {width : Nat} {bars : List Json} {error : Error} :
    Matrix.bars width (.array bars) = .error error ↔ ∃ (index : Nat) (value : Json), bars[index]? = some value ∧
      bar width index value = .error error ∧
      ∀ earlier < index, ∀ one, bars[earlier]? = some one → IsBar width one := by
  have numbered {index : Nat} {value : Json} {number : Nat} :
      bars.zipIdx[index]? = some (value, number) ↔ bars[index]? = some value ∧ number = index := by
    rw [List.getElem?_zipIdx, Option.map_eq_some_iff]
    simp [eq_comm]
  change bars.zipIdx.mapM _ = _ ↔ _
  rw [mapM_eq_error]
  constructor
  · rintro ⟨index, ⟨value, number⟩, found, refused, before⟩
    obtain ⟨found, rfl⟩ := numbered.mp found
    refine ⟨_, value, found, refused, fun earlier inside one place => ?_⟩
    exact exists_bar_eq_ok.mp (before earlier inside (one, earlier) (numbered.mpr ⟨place, rfl⟩))
  · rintro ⟨index, value, found, refused, before⟩
    refine ⟨index, (value, index), numbered.mpr ⟨found, rfl⟩, refused, ?_⟩
    rintro earlier inside ⟨one, number⟩ place
    obtain ⟨place, rfl⟩ := numbered.mp place
    exact exists_bar_eq_ok.mpr (before _ inside one place)

end Bars

section Steps
variable {width : Nat} {bars : List Json}

theorem At.step_lt (whole : ∀ one ∈ bars, IsBar width one) {bar step : Nat} {value : Json}
    (found : At bars bar step value) : step < width := by
  obtain ⟨values, row, item⟩ := found
  obtain ⟨_, same, length⟩ := whole _ (List.mem_of_getElem? row)
  cases same
  exact length ▸ (List.getElem?_eq_some_iff.mp item).1

theorem length_of_mem_map_valuesOf (whole : ∀ one ∈ bars, IsBar width one) :
    ∀ row ∈ bars.map valuesOf, row.length = width := by
  intro row member
  obtain ⟨bar, present, rfl⟩ := List.mem_map.mp member
  obtain ⟨values, rfl, length⟩ := whole bar present
  exact length

theorem getElem?_cells_eq_some (positive : 0 < width) (whole : ∀ one ∈ bars, IsBar width one) {place : Nat}
    {cell : Cell} :
    (cells (bars.map valuesOf))[place]? = some cell ↔
      cell.bar = place / width ∧ cell.step = place % width ∧ At bars cell.bar cell.step cell.value := by
  rw [getElem?_cells positive (length_of_mem_map_valuesOf whole), List.getElem?_map]
  constructor
  · intro found
    obtain ⟨row, present, inside⟩ := Option.bind_eq_some_iff.mp found
    obtain ⟨bar, barFound, rfl⟩ := Option.map_eq_some_iff.mp present
    obtain ⟨value, valueFound, rfl⟩ := Option.map_eq_some_iff.mp inside
    obtain ⟨values, rfl, _⟩ := whole bar (List.mem_of_getElem? barFound)
    exact ⟨rfl, rfl, values, barFound, valueFound⟩
  · obtain ⟨bar, step, value⟩ := cell
    rintro ⟨rfl, rfl, values, barFound, valueFound⟩
    rw [barFound]
    exact congrArg (Option.map _) valueFound

theorem place_eq_error {cell : Cell} {error : Error} :
    cell.place = .error error ↔ Step.classify cell.value = none ∧ error = .unsupportedStep cell.bar cell.step cell.value := by
  unfold Cell.place
  cases Step.classify cell.value <;> simp [eq_comm]

theorem exists_place_eq_ok {cell : Cell} : (∃ placed, cell.place = .ok placed) ↔
    (Step.classify cell.value).isSome := by
  simp only [place_eq_ok, exists_and_left, exists_eq, and_true]

/-- Reading order is the order of places in the row. -/
theorem place_lt_place {bar step otherBar otherStep : Nat} (inside : step < width) (otherInside : otherStep < width) :
    bar * width + step < otherBar * width + otherStep ↔ bar < otherBar ∨ bar = otherBar ∧ step < otherStep := by
  rcases Nat.lt_trichotomy bar otherBar with less | rfl | more
  · have later : (bar + 1) * width ≤ otherBar * width := Nat.mul_le_mul_right _ less
    rw [Nat.succ_mul] at later
    omega
  · omega
  · have earlier : (otherBar + 1) * width ≤ bar * width := Nat.mul_le_mul_right _ more
    rw [Nat.succ_mul] at earlier
    omega

private theorem div_mod_place {bar step : Nat} (inside : step < width) :
    (bar * width + step) / width = bar ∧ (bar * width + step) % width = step := by
  have positive : 0 < width := Nat.zero_lt_of_lt inside
  constructor
  · rw [Nat.mul_comm, Nat.mul_add_div positive, Nat.div_eq_of_lt inside, Nat.add_zero]
  · rw [Nat.mul_comm, Nat.mul_add_mod, Nat.mod_eq_of_lt inside]

theorem getElem?_cells_of_at (whole : ∀ one ∈ bars, IsBar width one) {bar step : Nat} {value : Json}
    (found : At bars bar step value) : (cells (bars.map valuesOf))[bar * width + step]? = some ⟨bar, step, value⟩ := by
  have inside := found.step_lt whole
  obtain ⟨sameBar, sameStep⟩ := div_mod_place inside
  exact (getElem?_cells_eq_some (Nat.zero_lt_of_lt inside) whole).mpr ⟨sameBar.symm, sameStep.symm, found⟩

theorem cells_eq_error (positive : 0 < width) (whole : ∀ one ∈ bars, IsBar width one) {error : Error} :
    (cells (bars.map valuesOf)).mapM Cell.place = .error error ↔ ∃ bar step value, At bars bar step value ∧
      Step.classify value = none ∧ error = .unsupportedStep bar step value ∧
      ∀ earlierBar earlierStep one, earlierBar < bar ∨ earlierBar = bar ∧ earlierStep < step →
        At bars earlierBar earlierStep one → (Step.classify one).isSome := by
  have place_eq (place : Nat) : place / width * width + place % width = place := Nat.div_add_mod' place width
  rw [mapM_eq_error]
  constructor
  · rintro ⟨place, ⟨bar, step, value⟩, found, refused, before⟩
    obtain ⟨rfl, rfl, present⟩ := (getElem?_cells_eq_some positive whole).mp found
    obtain ⟨unsupported, told⟩ := place_eq_error.mp refused
    refine ⟨_, _, value, present, unsupported, told, fun earlierBar earlierStep one order earlier => ?_⟩
    have inside := (place_lt_place (earlier.step_lt whole) (present.step_lt whole)).mpr order
    rw [place_eq] at inside
    exact exists_place_eq_ok.mp (before _ inside _ (getElem?_cells_of_at whole earlier))
  · rintro ⟨bar, step, value, found, unsupported, rfl, before⟩
    refine ⟨_, _, getElem?_cells_of_at whole found, place_eq_error.mpr ⟨unsupported, rfl⟩, ?_⟩
    rintro place inside ⟨otherBar, otherStep, one⟩ present
    obtain ⟨rfl, rfl, earlier⟩ := (getElem?_cells_eq_some positive whole).mp present
    rw [← place_eq place, place_lt_place (earlier.step_lt whole) (found.step_lt whole)] at inside
    exact exists_place_eq_ok.mpr (before _ _ one inside earlier)

end Steps

theorem isBar_iff {width : Nat} {bar : Json} :
    IsBar width bar ↔ ∃ values, bar.items? = some values ∧ values.length = width := by
  simp only [IsBar, items?_eq_some]

theorem mem_values_iff {bars : List Json} {value : Json} :
    value ∈ bars.flatMap valuesOf ↔ ∃ bar step, At bars bar step value := by
  rw [List.mem_flatMap]
  constructor
  · rintro ⟨one, member, inside⟩
    obtain ⟨bar, found⟩ := List.mem_iff_getElem?.mp member
    cases items : one.items? with
    | none => simp [valuesOf, items] at inside
    | some values =>
      cases items?_eq_some.mp items
      obtain ⟨step, item⟩ := List.mem_iff_getElem?.mp inside
      exact ⟨bar, step, values, found, item⟩
  · rintro ⟨bar, step, values, found, item⟩
    exact ⟨_, List.mem_of_getElem? found, List.mem_of_getElem? item⟩

theorem regular_iff {width : Nat} {bars : List Json} :
    Regular width bars ↔ (∀ one ∈ bars, IsBar width one) ∧
      ∀ bar step value, At bars bar step value → (Step.classify value).isSome := by
  constructor
  · rintro ⟨even, steps⟩
    exact ⟨fun one member => isBar_iff.mpr (even one member),
      fun bar step value found => steps value (mem_values_iff.mpr ⟨bar, step, found⟩)⟩
  · rintro ⟨whole, supported⟩
    refine ⟨fun one member => isBar_iff.mp (whole one member), fun value member => ?_⟩
    obtain ⟨bar, step, found⟩ := mem_values_iff.mp member
    exact supported bar step value found

section Placed
variable {width : Nat} {bars : List Json}

theorem At.unique {bar step : Nat} {value other : Json} (found : At bars bar step value)
    (again : At bars bar step other) :
    value = other := by
  obtain ⟨values, row, item⟩ := found
  obtain ⟨_, sameRow, sameItem⟩ := again
  cases row.symm.trans sameRow
  exact Option.some.inj (item.symm.trans sameItem)

theorem length_cells (whole : ∀ one ∈ bars, IsBar width one) :
    (cells (bars.map valuesOf)).length = width * bars.length := by
  have even : ∀ bar ∈ bars, (valuesOf bar).length = width := List.forall_mem_map.mp (length_of_mem_map_valuesOf whole)
  calc (cells (bars.map valuesOf)).length
    _ = (bars.flatMap valuesOf).length := by rw [← List.length_map (·.value), map_value_cells, List.flatMap_def]
    _ = width * bars.length := by rw [length_flatMap_of_length even, Nat.mul_comm]

private theorem At.place_lt (whole : ∀ one ∈ bars, IsBar width one) {bar step : Nat} {value : Json}
    (found : At bars bar step value) : bar * width + step < width * bars.length := by
  rw [← length_cells whole]
  exact (List.getElem?_eq_some_iff.mp (getElem?_cells_of_at whole found)).1

private theorem getElem?_placed (positive : 0 < width) (whole : ∀ one ∈ bars, IsBar width one) {place : Nat}
    {placed : PlacedStep} :
    ((cells (bars.map valuesOf)).map placeOf)[place]? = some placed ↔ ∃ value, At bars (place / width) (place % width) value ∧
      placed = ⟨(place / width : Nat), (place % width : Nat), stepOf value⟩ := by
  rw [List.getElem?_map, Option.map_eq_some_iff]
  constructor
  · rintro ⟨⟨bar, step, value⟩, found, rfl⟩
    obtain ⟨rfl, rfl, present⟩ := (getElem?_cells_eq_some positive whole).mp found
    exact ⟨value, present, rfl⟩
  · rintro ⟨value, present, rfl⟩
    exact ⟨⟨_, _, value⟩, (getElem?_cells_eq_some positive whole).mpr ⟨rfl, rfl, present⟩, rfl⟩

end Placed

private theorem verdict_of_error {width : Nat} (positive : 0 < width) {matrix : Json} {error : Error}
    (failed : flatten width matrix = .error error) : Verdict width matrix (.error error) := by
  unfold flatten at failed
  rw [if_neg (Nat.ne_of_gt positive), bind_eq_error] at failed
  rcases failed with shape | ⟨rows, read, refused⟩
  · by_cases list : ∃ bars, matrix = .array bars
    · obtain ⟨bars, rfl⟩ := list
      obtain ⟨index, value, found, refused, whole⟩ := bars_eq_error.mp shape
      rcases bar_eq_error.mp refused with ⟨other, rfl⟩ | ⟨values, rfl, different, rfl⟩
      · exact .noBar found whole other
      · exact .barLength found whole different
    · have other := not_exists.mp list
      rw [Matrix.bars, items?_eq_none.mpr other] at shape
      cases shape
      exact .noMatrix other
  · obtain ⟨bars, rfl⟩ := exists_array read
    obtain ⟨even, rfl⟩ := bars_eq_ok.mp read
    have whole : ∀ one ∈ bars, IsBar width one := fun one member => isBar_iff.mpr (even one member)
    obtain ⟨bar, step, value, found, unsupported, rfl, before⟩ := (cells_eq_error positive whole).mp refused
    exact .noStep whole found unsupported before

private theorem verdict_of_ok {width : Nat} {matrix : Json} {steps : List PlacedStep}
    (flattened : flatten width matrix = .ok steps) : Verdict width matrix (.ok steps) := by
  obtain ⟨positive, bars, rfl, regular, rfl⟩ := flatten_eq_ok.mp flattened
  obtain ⟨whole, supported⟩ := regular_iff.mp regular
  have length : ((cells (bars.map valuesOf)).map placeOf).length = width * bars.length := by
    rw [List.length_map, length_cells whole]
  refine .steps whole length fun place inside => ?_
  have found := List.getElem?_eq_getElem inside
  obtain ⟨value, present, same⟩ := (getElem?_placed positive whole).mp found
  have classified := regular.classify (mem_values_iff.mpr ⟨_, _, present⟩)
  exact ⟨value, _, present, classified, found.trans (congrArg some same)⟩

/-- Each fault keeps the ones after it from being looked at. -/
theorem flatten_of_verdict {width : Nat} (positive : 0 < width) {matrix : Json}
    {result : Except Error (List PlacedStep)}
    (verdict : Verdict width matrix result) : flatten width matrix = result := by
  have nonempty : width ≠ 0 := Nat.ne_of_gt positive
  cases verdict with
  | noMatrix other =>
    rw [flatten, if_neg nonempty, Matrix.bars, items?_eq_none.mpr other]
    rfl
  | noBar found whole other =>
    rw [flatten, if_neg nonempty, bars_eq_error.mpr ⟨_, _, found, bar_eq_error.mpr (.inl ⟨other, rfl⟩), whole⟩]
    rfl
  | barLength found whole different =>
    rw [flatten, if_neg nonempty, bars_eq_error.mpr ⟨_, _, found, bar_eq_error.mpr (.inr ⟨_, rfl, different, rfl⟩), whole⟩]
    rfl
  | noStep whole found unsupported supported =>
    have read := bars_eq_ok.mpr ⟨fun one member => isBar_iff.mp (whole one member), rfl⟩
    rw [flatten, if_neg nonempty, read]
    exact (cells_eq_error positive whole).mpr ⟨_, _, _, found, unsupported, rfl, supported⟩
  | @steps bars steps whole length placed =>
    -- Each value has a place in the row, and what stands there is its step.
    have supported : ∀ bar step value, At bars bar step value → (Step.classify value).isSome := by
      intro bar step value found
      obtain ⟨other, one, again, classified, _⟩ := placed (bar * width + step) (length ▸ found.place_lt whole)
      obtain ⟨sameBar, sameStep⟩ : (bar * width + step) / width = bar ∧ (bar * width + step) % width = step :=
        div_mod_place (found.step_lt whole)
      rw [sameBar, sameStep] at again
      rw [found.unique again, classified]
      rfl
    have same : steps = (cells (bars.map valuesOf)).map placeOf := by
      apply List.ext_getElem?
      intro place
      by_cases inside : place < steps.length
      · obtain ⟨value, step, present, classified, found⟩ := placed place inside
        have meant : stepOf value = step := by rw [stepOf, classified]; rfl
        rw [found, (getElem?_placed positive whole).mpr ⟨value, present, rfl⟩, meant]
      · -- Both rows have the same end.
        have outside := Nat.le_of_not_lt inside
        rw [List.getElem?_eq_none outside, List.getElem?_eq_none]
        rwa [List.length_map, length_cells whole, ← length]
    exact flatten_eq_ok.mpr ⟨positive, bars, rfl, regular_iff.mpr ⟨whole, supported⟩, same⟩

/-- Flattening answers with the verdict on its matrix. It has steps exactly if nothing is wrong
with the matrix, and tells a value that is no step as it is printed, which can be read again. -/
theorem flatten_eq_iff_verdict {width : Nat} (positive : 1 ≤ width) (matrix : Json) :
    (∀ result, flatten width matrix = result ↔ Verdict width matrix result) ∧
    ((∃ steps, flatten width matrix = .ok steps) ↔ ∃ bars, matrix = .array bars ∧ (∀ one ∈ bars, IsBar width one) ∧
      ∀ bar step value, At bars bar step value → (Step.classify value).isSome) ∧
    ∀ bar step value, Error.message (.unsupportedStep bar step value) = "Unsupported step value at bar " ++
      toString (bar + 1) ++ ", step " ++ toString (step + 1) ++ ": " ++ value.render ∧
      (Readable Json.Progress.depthLimit value → Json.read value.render.toList = .ok value) := by
  refine ⟨fun result => ⟨?_, flatten_of_verdict positive⟩, ?_, fun bar step value => ⟨rfl, read_render⟩⟩
  · rintro rfl
    cases flattened : flatten width matrix with
    | ok steps => exact verdict_of_ok flattened
    | error error => exact verdict_of_error positive flattened
  · simp only [flatten_eq_ok, ← regular_iff]
    constructor
    · rintro ⟨_, _, bars, same, regular, _⟩
      exact ⟨bars, same, regular⟩
    · rintro ⟨bars, same, regular⟩
      exact ⟨_, positive, bars, same, regular, rfl⟩

/-- The second bar is short, and is told although the first holds a value that is no step and
the third is no list. -/
theorem verdict_of_short_bar :
    flatten 2 (.array [.array [.null, .string "C4"], .array [.string "-"], .null]) = .error (.barLength 1 1 2) ∧
      Verdict 2 (.array [.array [.null, .string "C4"], .array [.string "-"], .null]) (.error (.barLength 1 1 2)) := by
  have told : flatten 2 (.array [.array [.null, .string "C4"], .array [.string "-"], .null]) = .error (.barLength 1 1 2) := rfl
  exact ⟨told, ((flatten_eq_iff_verdict (by decide) _).1 _).mp told⟩

end StepGrid.Proofs.GridVerdicts
