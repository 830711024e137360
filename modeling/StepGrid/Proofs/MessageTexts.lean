import StepGrid.Error
import StepGrid.Proofs.DecimalTexts

/-! What messages tell. A beat is written as a whole number or with its denominator, and a field
with its value, so that the message of a note or of a gap tells which beat, field or gap it is
about. -/

namespace StepGrid.Proofs.MessageTexts
open DecimalTexts

/-- Two texts are equal if they are up to the first mark and behind it. -/
private theorem append_mark_inj {mark : Char} {first second rest other : List Char} (clear : mark ∉ first)
    (clearToo : mark ∉ second) (same : first ++ mark :: rest = second ++ mark :: other) : first = second ∧ rest = other := by
  induction first generalizing second with
  | nil =>
    cases second with
    | nil => exact ⟨rfl, (List.cons.inj same).2⟩
    | cons char second =>
      obtain ⟨rfl, _⟩ := List.cons.inj same
      exact absurd List.mem_cons_self clearToo
  | cons char first ih =>
    obtain ⟨noMark, clear⟩ := List.ne_and_not_mem_of_not_mem_cons clear
    cases second with
    | nil => exact absurd (List.cons.inj same).1.symm noMark
    | cons next second =>
      obtain ⟨rfl, tails⟩ := List.cons.inj same
      obtain ⟨rfl, rfl⟩ := ih clear (List.ne_and_not_mem_of_not_mem_cons clearToo).2 tails
      exact ⟨rfl, rfl⟩

section Fractions

private theorem not_mem_rendered {value : Int} {char : Char} (noDigit : char.isDigit = false) (noSign : char ≠ '-') :
    char ∉ rendered value := by
  intro member
  rcases isDigit_of_mem_rendered member with digit | sign
  · cases noDigit.symm.trans digit
  · exact noSign sign

theorem toList_fractionText (value : Rat) : (fractionText value).toList =
    if value.den = 1 then rendered value.num else rendered value.num ++ '/' :: rendered value.den := by
  unfold fractionText
  split
  · rfl
  · rw [String.toList_append, String.toList_append, toList_toString, rendered_natCast]
    simp [rendered]

theorem fractionText_injective : Function.Injective fractionText := by
  intro first second same
  have clear (value : Int) : '/' ∉ rendered value := not_mem_rendered (by decide) (by decide)
  have texts := congrArg String.toList same
  rw [toList_fractionText, toList_fractionText] at texts
  split at texts <;> split at texts
  next whole wholeToo => exact Rat.ext (rendered_injective texts) (whole.trans wholeToo.symm)
  next => exact absurd (texts ▸ List.mem_append_right _ List.mem_cons_self) (clear first.num)
  next => exact absurd (texts.symm ▸ List.mem_append_right _ List.mem_cons_self) (clear second.num)
  next =>
    obtain ⟨num, den⟩ := append_mark_inj (clear _) (clear _) texts
    exact Rat.ext (rendered_injective num) (Int.natCast_inj.mp (rendered_injective den))

private theorem colon_not_mem_fractionText (value : Rat) : ':' ∉ (fractionText value).toList := by
  have clear (value : Int) : ':' ∉ rendered value := not_mem_rendered (by decide) (by decide)
  rw [toList_fractionText]
  split
  · exact clear _
  · simp [clear]

end Fractions

theorem phrase_injective : Function.Injective MessageField.phrase := by
  intro first second same
  have texts := congrArg String.toList same
  simp only [MessageField.phrase] at texts
  cases first <;> cases second <;> simp at texts
  all_goals rw [toDigits_injective texts]

theorem message_unplayable (start : Rat) (field : MessageField) : Error.message (.unplayable start field) =
    "MIDI encoding failed: " ++ ("note at beat " ++ fractionText start ++ ": " ++ field.phrase) := rfl

theorem message_gap (size : Nat) : Error.message (.gap size) =
    "MIDI encoding failed: " ++ ("gap of " ++ toString size ++ " ticks between events is too long for a MIDI file") := rfl

/-- The message of a note tells its beat and its field. -/
theorem message_unplayable_inj {start other : Rat} {field second : MessageField}
    (same : Error.message (.unplayable start field) = Error.message (.unplayable other second)) :
    start = other ∧ field = second := by
  have colon : ": ".toList = [':', ' '] := by decide
  have texts := congrArg String.toList same
  simp only [message_unplayable, String.toList_append, List.append_assoc, List.append_cancel_left_eq, colon, List.cons_append,
    List.nil_append] at texts
  obtain ⟨beat, phrase⟩ := append_mark_inj (colon_not_mem_fractionText start) (colon_not_mem_fractionText other) texts
  exact ⟨fractionText_injective (String.toList_injective beat), phrase_injective (String.toList_injective (List.cons.inj phrase).2)⟩

theorem message_gap_inj {size other : Nat} (same : Error.message (.gap size) = Error.message (.gap other)) :
    size = other := by
  have texts := congrArg String.toList same
  simp only [message_gap, String.toList_append, List.append_assoc, List.append_cancel_left_eq, List.append_cancel_right_eq,
    toList_toString] at texts
  exact toDigits_injective texts

end StepGrid.Proofs.MessageTexts
