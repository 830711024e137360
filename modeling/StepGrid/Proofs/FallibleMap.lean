import StepGrid.Error
import Mathlib.Data.List.Forall2

/-! Lists that are built item by item until one of them fails. -/

namespace StepGrid.Proofs

theorem bind_eq_ok {first : Except ε α} {next : α → Except ε β} {result : β} :
    (first >>= next) = .ok result ↔ ∃ value, first = .ok value ∧ next value = .ok result := by
  cases first <;> simp [bind, Except.bind]

theorem bind_eq_error {first : Except ε α} {next : α → Except ε β} {error : ε} :
    (first >>= next) = .error error ↔ first = .error error ∨ ∃ value, first = .ok value ∧ next value = .error error := by
  cases first <;> simp [bind, Except.bind]

theorem mapM_eq_ok {f : α → Except ε β} {items : List α} {results : List β} :
    items.mapM f = .ok results ↔ List.Forall₂ (fun item result => f item = .ok result) items results := by
  induction items generalizing results with
  | nil => cases results <;> simp [pure, Except.pure]
  | cons item items ih =>
    rw [List.mapM_cons, bind_eq_ok]
    constructor
    · rintro ⟨value, first, rest⟩
      obtain ⟨values, others, same⟩ := bind_eq_ok.mp rest
      cases same
      exact .cons first (ih.mp others)
    · intro related
      cases related with
      | cons first others => exact ⟨_, first, bind_eq_ok.mpr ⟨_, ih.mpr others, rfl⟩⟩

/-- The error of a list is that of its first item with one. -/
theorem mapM_eq_error {f : α → Except ε β} {items : List α} {error : ε} :
    items.mapM f = .error error ↔ ∃ (index : Nat) (item : α), items[index]? = some item ∧ f item = .error error ∧
      ∀ earlier < index, ∀ other, items[earlier]? = some other → ∃ value, f other = .ok value := by
  induction items with
  | nil => simp [pure, Except.pure]
  | cons item items ih =>
    rw [List.mapM_cons, bind_eq_error]
    constructor
    · rintro (first | ⟨value, first, rest⟩)
      · exact ⟨0, item, rfl, first, nofun⟩
      · rcases bind_eq_error.mp rest with others | ⟨_, _, last⟩
        · obtain ⟨index, other, found, refused, before⟩ := ih.mp others
          refine ⟨index + 1, other, found, refused, fun earlier inside one place => ?_⟩
          cases earlier with
          | zero =>
            cases place
            exact ⟨value, first⟩
          | succ earlier => exact before earlier (Nat.lt_of_succ_lt_succ inside) one place
        · cases last
    · rintro ⟨index, other, found, refused, before⟩
      cases index with
      | zero =>
        cases found
        exact .inl refused
      | succ index =>
        obtain ⟨value, first⟩ := before 0 (Nat.succ_pos _) item rfl
        refine .inr ⟨value, first, bind_eq_error.mpr (.inl (ih.mpr ⟨index, other, found, refused, ?_⟩))⟩
        exact fun earlier inside one place => before (earlier + 1) (Nat.succ_lt_succ inside) one place

theorem exists_of_mapM_eq_error {f : α → Except ε β} {items : List α} {error : ε}
    (failed : items.mapM f = .error error) : ∃ item ∈ items, f item = .error error := by
  obtain ⟨_, item, found, refused, _⟩ := mapM_eq_error.mp failed
  exact ⟨item, List.mem_of_getElem? found, refused⟩

/-- Checks of a list fail with the error of the first item that fails. -/
theorem forM_eq_error {check : α → Except ε Unit} {items : List α} {error : ε} :
    items.forM check = .error error ↔ ∃ (index : Nat) (item : α), items[index]? = some item ∧ check item = .error error ∧
      ∀ earlier < index, ∀ other, items[earlier]? = some other → check other = .ok () := by
  have asMap : items.forM check = items.mapM check >>= fun _ => .ok () := by
    induction items with
    | nil => rfl
    | cons item items ih =>
      rw [List.mapM_cons]
      change (check item >>= fun _ => items.forM check) = _
      rw [ih]
      cases check item with
      | error _ => rfl
      | ok _ => cases items.mapM check <;> rfl
  have passes (item : α) : (∃ value, check item = .ok value) ↔ check item = .ok () :=
    ⟨fun ⟨(), passed⟩ => passed, fun passed => ⟨(), passed⟩⟩
  rw [asMap, bind_eq_error, mapM_eq_error]
  simp only [passes, reduceCtorEq, and_false, exists_false, or_false]

/-- Items that are checked one by one as they are mapped. -/
theorem mapM_checked (check : α → Except ε Unit) (plain : α → β) (items : List α) :
    items.mapM (fun item => (check item).map fun _ => plain item) =
      (items.forM check).map fun _ => items.map plain := by
  induction items with
  | nil => rfl
  | cons item items ih =>
    rw [List.mapM_cons, ih]
    change _ = (check item >>= fun _ => items.forM check).map _
    cases check item with
    | error _ => rfl
    | ok _ => cases items.forM check <;> rfl

/-- Where success is a plain function of valid items, all items are valid and the list is
mapped plainly. -/
theorem mapM_eq_ok_iff_map {f : α → Except ε β} {valid : α → Prop} {plain : α → β}
    (spec : ∀ item result, f item = .ok result ↔ valid item ∧ result = plain item) {items : List α}
    {results : List β} :
    items.mapM f = .ok results ↔ (∀ item ∈ items, valid item) ∧ results = items.map plain := by
  rw [mapM_eq_ok]
  induction items generalizing results with
  | nil => simp
  | cons item items ih =>
    rw [List.forall_mem_cons, List.map_cons]
    constructor
    · intro related
      cases related with
      | cons first others =>
        obtain ⟨validFirst, rfl⟩ := (spec _ _).mp first
        obtain ⟨validOthers, rfl⟩ := ih.mp others
        exact ⟨⟨validFirst, validOthers⟩, rfl⟩
    · rintro ⟨⟨validFirst, validOthers⟩, rfl⟩
      exact .cons ((spec _ _).mpr ⟨validFirst, rfl⟩) (ih.mpr ⟨validOthers, rfl⟩)

end StepGrid.Proofs
