/-! Writes in a row. What a field holds after some writes is what the last of them that is
about it has written, or what it held before them all. -/

namespace StepGrid.Proofs

theorem getLast?_filterMap_cons (written : ι → Option α) (item : ι) (items : List ι) :
    ((item :: items).filterMap written).getLast? = (items.filterMap written).getLast?.or (written item) := by
  cases given : written item with
  | none => rw [List.filterMap_cons_none given, Option.or_none]
  | some value =>
    rw [List.filterMap_cons_some given, List.getLast?_cons]
    cases (items.filterMap written).getLast? <;> rfl

theorem field_foldl {write : σ → ι → σ} {field : σ → Option α} {written : ι → Option α}
    (writes : ∀ state item, field (write state item) = (written item).or (field state)) (state : σ) (items : List ι) :
    field (items.foldl write state) = (items.filterMap written).getLast?.or (field state) := by
  induction items generalizing state with
  | nil => rfl
  | cons item items ih =>
    calc field ((item :: items).foldl write state)
      _ = (items.filterMap written).getLast?.or (field (write state item)) := ih (write state item)
      _ = (items.filterMap written).getLast?.or ((written item).or (field state)) := by rw [writes]
      _ = ((item :: items).filterMap written).getLast?.or (field state) := by rw [getLast?_filterMap_cons, Option.or_assoc]

theorem field_foldl_getD {write : σ → ι → σ} {field : σ → α} {written : ι → Option α}
    (writes : ∀ state item, field (write state item) = (written item).getD (field state)) (state : σ) (items : List ι) :
    field (items.foldl write state) = (items.filterMap written).getLast?.getD (field state) := by
  have wrapped (state : σ) (item : ι) : some (field (write state item)) = (written item).or (some (field state)) := by
    rw [writes, Option.or_some]
  have last := @field_foldl _ _ _ write (fun state => some (field state)) written wrapped state items
  rw [Option.or_some] at last
  exact Option.some.inj last

end StepGrid.Proofs
