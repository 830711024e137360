import StepGrid.Proofs.TextLines
import StepGrid.Text.Position

/-! Places in a text with lines put before it. Each place is so many lines further down and
keeps its column, for a place is told by what comes after it and a line counts from its start. -/

namespace StepGrid.Proofs.TextPlaces
open Text Position TextLines

@[simp] theorem byteLength_nil : byteLength [] = 0 := rfl

@[simp] theorem byteLength_cons (char : Char) (rest : List Char) :
    byteLength (char :: rest) = char.utf8Size + byteLength rest := by
  have moved (total : Nat) :
      rest.foldl (fun total char => total + char.utf8Size) total = total + byteLength rest := by
    unfold byteLength
    induction rest generalizing total with
    | nil => rfl
    | cons next others ih => rw [List.foldl_cons, List.foldl_cons, ih, ih (0 + _), Nat.zero_add, Nat.add_assoc]
  rw [byteLength, List.foldl_cons, moved, Nat.zero_add]

@[simp] theorem byteLength_append (first second : List Char) :
    byteLength (first ++ second) = byteLength first + byteLength second := by
  induction first with
  | nil => simp
  | cons char rest ih => rw [List.cons_append, byteLength_cons, byteLength_cons, ih, Nat.add_assoc]

theorem length_le_byteLength (text : List Char) : text.length ≤ byteLength text := by
  induction text with
  | nil => exact Nat.le_refl _
  | cons char rest ih =>
    have positive := char.utf8Size_pos
    rw [List.length_cons, byteLength_cons]
    omega

theorem byteLength_le_of_suffix {short long : List Char} (ends : short <:+ long) :
    byteLength short ≤ byteLength long := by
  obtain ⟨before, rfl⟩ := ends
  rw [byteLength_append]
  exact Nat.le_add_left _ _

def lower (position : Position) (count : Nat) : Position := ⟨position.line + count, position.column⟩

private theorem after_lower (position : Position) (count : Nat) (char : Char) :
    (lower position count).after char = lower (position.after char) count := by
  unfold after lower
  split
  next => rw [Nat.add_right_comm]
  next => rfl

private theorem advance_lower (position : Position) (count : Nat) (text : List Char) (bytes : Nat) :
    (lower position count).advance text bytes = lower (position.advance text bytes) count := by
  induction text generalizing position bytes with
  | nil => rfl
  | cons char rest ih =>
    rw [advance, advance]
    split
    next => rw [after_lower, ih]
    next => rfl

theorem advance_append (position : Position) (before text : List Char) (bytes : Nat) :
    position.advance (before ++ text) (byteLength before + bytes) = (before.foldl after position).advance text bytes := by
  induction before generalizing position with
  | nil => rw [List.nil_append, byteLength_nil, Nat.zero_add, List.foldl_nil]
  | cons char rest ih =>
    have enough : char.utf8Size ≤ char.utf8Size + byteLength rest + bytes := by omega
    rw [List.cons_append, byteLength_cons, advance, if_pos enough, Nat.add_assoc, Nat.add_sub_cancel_left, ih,
      List.foldl_cons]

private theorem line_foldl_after {line : List Char} (plain : '\n' ∉ line) (position : Position) :
    (line.foldl after position).line = position.line := by
  induction line generalizing position with
  | nil => rfl
  | cons char rest ih =>
    obtain ⟨other, plainRest⟩ := not_or.mp (mt List.mem_cons.mpr plain)
    rw [List.foldl_cons, ih plainRest, after, if_neg (Ne.symm other)]

private theorem foldl_after_terminated {lines : List (List Char)} (plain : ∀ line ∈ lines, '\n' ∉ line)
    (above : Nat) :
    (terminated lines).foldl after ⟨above, 0⟩ = ⟨above + lines.length, 0⟩ := by
  induction lines generalizing above with
  | nil => rfl
  | cons line rest ih =>
    obtain ⟨plainLine, plainRest⟩ := List.forall_mem_cons.mp plain
    have ended : (line.foldl after ⟨above, 0⟩).after '\n' = ⟨above + 1, 0⟩ := by
      rw [after, if_pos rfl, line_foldl_after plainLine]
    rw [terminated_cons, List.foldl_append, List.foldl_cons, ended, ih plainRest, List.length_cons,
      Nat.add_assoc, Nat.add_comm 1]

/-- Whole lines before a text move its places down and change nothing else about them. -/
theorem withLeft_terminated {lines : List (List Char)} (plain : ∀ line ∈ lines, '\n' ∉ line) {text : List Char}
    {left : Nat} (inside : left ≤ byteLength text) :
    withLeft (terminated lines ++ text) left = lower (withLeft text left) lines.length := by
  have bytes : byteLength (terminated lines ++ text) - left = byteLength (terminated lines) + (byteLength text - left) := by
    rw [byteLength_append]
    omega
  rw [withLeft, bytes, advance_append, start, foldl_after_terminated plain, withLeft, ← advance_lower]
  rfl

end StepGrid.Proofs.TextPlaces
