import StepGrid.Grid.Matrix
import StepGrid.Proofs.FallibleMap

/-! Where the steps of a row stand in their matrix. All bars have one length, so a step's
place in the row tells its bar and its step, and the value it was read from. -/

namespace StepGrid.Proofs.GridPlaces
open StepGrid.Matrix

theorem length_flatMap_of_length {items : List α} {pieces : α → List β} {width : Nat}
    (even : ∀ item ∈ items, (pieces item).length = width) : (items.flatMap pieces).length = items.length * width := by
  rw [List.length_flatMap, List.map_congr_left even, List.map_const', List.sum_replicate_nat]

private theorem getElem?_flatMap_of_length {items : List α} {pieces : α → List β} {width : Nat} (positive : 0 < width)
    (even : ∀ item ∈ items, (pieces item).length = width) (index : Nat) :
    (items.flatMap pieces)[index]? = items[index / width]?.bind fun item => (pieces item)[index % width]? := by
  induction items generalizing index with
  | nil => simp
  | cons item items ih =>
    have first : (pieces item).length = width := even item (by simp)
    rw [List.flatMap_cons, List.getElem?_append, first]
    by_cases inside : index < width
    · rw [if_pos inside, Nat.div_eq_of_lt inside, Nat.mod_eq_of_lt inside]
      rfl
    · obtain ⟨rest, rfl⟩ := Nat.exists_eq_add_of_le (Nat.le_of_not_lt inside)
      rw [if_neg inside, Nat.add_sub_cancel_left, ih (fun other member => even other (by simp [member])),
        Nat.add_div_left _ positive, Nat.add_mod_left]
      rfl

theorem getElem?_cells {rows : List (List Json)} {width : Nat} (positive : 0 < width)
    (even : ∀ row ∈ rows, row.length = width) (index : Nat) :
    (cells rows)[index]? = rows[index / width]?.bind fun row =>
      row[index % width]?.map fun value => ⟨index / width, index % width, value⟩ := by
  rw [cells, getElem?_flatMap_of_length positive]
  · cases found : rows[index / width]? with
    | none => simp [List.getElem?_zipIdx, found]
    | some row => simp [List.getElem?_zipIdx, found, Function.comp_def]
  · intro item member
    rw [List.length_map, List.length_zipIdx]
    exact even _ (List.fst_mem_of_mem_zipIdx member)

def valuesOf (bar : Json) : List Json := bar.items?.getD []

def stepOf (value : Json) : Step := (Step.classify value).getD .rest

/-- Bars of one width in which every value stands for a step. -/
structure Regular (width : Nat) (bars : List Json) : Prop where
  even : ∀ bar ∈ bars, ∃ values, bar.items? = some values ∧ values.length = width
  steps : ∀ value ∈ bars.flatMap valuesOf, (Step.classify value).isSome

def placeOf (cell : Cell) : PlacedStep := ⟨cell.bar, cell.step, stepOf cell.value⟩

theorem bar_eq_ok {width index : Nat} {value : Json} {row : List Json} :
    bar width index value = .ok row ↔
      (∃ values, value.items? = some values ∧ values.length = width) ∧ row = valuesOf value := by
  unfold bar valuesOf
  cases value.items? with
  | none => simp
  | some values =>
    by_cases even : values.length = width
    · simp [even, eq_comm]
    · simp [even]

theorem bars_eq_ok {width : Nat} {bars : List Json} {rows : List (List Json)} :
    Matrix.bars width (.array bars) = .ok rows ↔
      (∀ bar ∈ bars, ∃ values, bar.items? = some values ∧ values.length = width) ∧ rows = bars.map valuesOf := by
  have numbered : Matrix.bars width (.array bars) = .ok rows ↔
      (∀ one ∈ bars.zipIdx, ∃ values, one.1.items? = some values ∧ values.length = width) ∧
      rows = bars.zipIdx.map fun one => valuesOf one.1 :=
    mapM_eq_ok_iff_map fun _ _ => bar_eq_ok
  have plain : bars.zipIdx.map Prod.fst = bars := List.zipIdx_map_fst 0 bars
  rw [numbered]
  conv_rhs => rw [← plain, List.forall_mem_map, List.map_map]
  rfl

theorem place_eq_ok (cell : Cell) (placed : PlacedStep) :
    cell.place = .ok placed ↔ (Step.classify cell.value).isSome ∧ placed = placeOf cell := by
  unfold Cell.place placeOf stepOf
  cases Step.classify cell.value with
  | none => simp
  | some step => simp [eq_comm]

theorem map_value_cells (rows : List (List Json)) : (cells rows).map (·.value) = rows.flatten := by
  have values (row : List Json × Nat) :
      (row.1.zipIdx.map fun item => (⟨row.2, item.2, item.1⟩ : Cell)).map (·.value) = row.1 := by
    rw [List.map_map]
    exact List.zipIdx_map_fst 0 row.1
  calc (cells rows).map (·.value)
    _ = rows.zipIdx.flatMap Prod.fst := by
        rw [cells, List.map_flatMap]
        exact List.flatMap_congr fun row _ => values row
    _ = rows.flatten := by rw [List.flatMap_def, List.zipIdx_map_fst]

theorem exists_array {width : Nat} {matrix : Json} {rows : List (List Json)}
    (read : Matrix.bars width matrix = .ok rows) : ∃ bars, matrix = .array bars := by
  cases matrix with
  | array bars => exact ⟨bars, rfl⟩
  | null | bool _ | number _ | string _ | object _ => cases read

/-- A matrix has a row of steps exactly if all its bars have the right width and all their
values are steps. -/
theorem flatten_eq_ok {width : Nat} {matrix : Json} {steps : List PlacedStep} :
    flatten width matrix = .ok steps ↔ 0 < width ∧ ∃ bars, matrix = .array bars ∧ Regular width bars ∧
      steps = (cells (bars.map valuesOf)).map placeOf := by
  have classified (bars : List Json) : (∀ cell ∈ cells (bars.map valuesOf), (Step.classify cell.value).isSome) ↔
      ∀ value ∈ bars.flatMap valuesOf, (Step.classify value).isSome := by
    rw [List.flatMap_def, ← map_value_cells, List.forall_mem_map]
  unfold flatten
  split
  next empty => simp [empty]
  next positive =>
    rw [bind_eq_ok, and_iff_right (Nat.pos_of_ne_zero positive)]
    constructor
    · rintro ⟨rows, read, placed⟩
      obtain ⟨bars, rfl⟩ := exists_array read
      obtain ⟨even, rfl⟩ := bars_eq_ok.mp read
      obtain ⟨steps, rfl⟩ := (mapM_eq_ok_iff_map place_eq_ok).mp placed
      exact ⟨bars, rfl, ⟨even, (classified bars).mp steps⟩, rfl⟩
    · rintro ⟨bars, rfl, regular, rfl⟩
      exact ⟨_, bars_eq_ok.mpr ⟨regular.even, rfl⟩,
        (mapM_eq_ok_iff_map place_eq_ok).mpr ⟨(classified bars).mpr regular.steps, rfl⟩⟩

theorem Regular.length_valuesOf {width : Nat} {bars : List Json} (regular : Regular width bars) :
    ∀ bar ∈ bars, (valuesOf bar).length = width := by
  intro bar member
  obtain ⟨values, items, length⟩ := regular.even bar member
  rw [valuesOf, items]
  exact length

theorem Regular.classify {width : Nat} {bars : List Json} (regular : Regular width bars) {value : Json}
    (member : value ∈ bars.flatMap valuesOf) : Step.classify value = some (stepOf value) := by
  obtain ⟨step, classified⟩ := Option.isSome_iff_exists.mp (regular.steps value member)
  rw [stepOf, classified]
  rfl

/-- A step of the row stands at the bar and the step that its place tells, and is what
the value there stands for. -/
theorem placed_of_flatten {width : Nat} {matrix : Json} {steps : List PlacedStep} {index : Nat}
    {placed : PlacedStep} (flattened : flatten width matrix = .ok steps) (found : steps[index]? = some placed) :
    placed.bar = (index / width : Nat) ∧ placed.step = (index % width : Nat) ∧
    ∃ values value row item, matrix.items? = some values ∧ values[index / width]? = some value ∧
      value.items? = some row ∧ row[index % width]? = some item ∧ Step.classify item = some placed.value := by
  obtain ⟨positive, bars, rfl, regular, rfl⟩ := flatten_eq_ok.mp flattened
  rw [List.getElem?_map, getElem?_cells positive (List.forall_mem_map.mpr regular.length_valuesOf), List.getElem?_map] at found
  obtain ⟨cell, present, rfl⟩ := Option.map_eq_some_iff.mp found
  obtain ⟨row, rowFound, inside⟩ := Option.bind_eq_some_iff.mp present
  obtain ⟨item, itemFound, rfl⟩ := Option.map_eq_some_iff.mp inside
  obtain ⟨bar, barFound, rfl⟩ := Option.map_eq_some_iff.mp rowFound
  have barMember := List.mem_of_getElem? barFound
  obtain ⟨values, items, _⟩ := regular.even bar barMember
  have same : valuesOf bar = values := by rw [valuesOf, items]; rfl
  exact ⟨rfl, rfl, bars, bar, values, item, rfl, barFound, items, same ▸ itemFound,
    regular.classify (List.mem_flatMap.mpr ⟨bar, barMember, List.mem_of_getElem? itemFound⟩)⟩

end StepGrid.Proofs.GridPlaces
