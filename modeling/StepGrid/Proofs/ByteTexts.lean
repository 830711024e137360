import Mathlib.Data.List.Basic

/-! The bytes of texts. A text is the encodings of its characters one after the other. -/

namespace StepGrid.Proofs.ByteTexts

private theorem get!_eq_getElem {bytes : ByteArray} {index : Nat} (inside : index < bytes.data.toList.length) :
    bytes.get! index = bytes.data.toList[index] := by
  have inArray : index < bytes.data.size := inside
  change bytes.data[index]! = _
  rw [getElem!_pos bytes.data index inArray, Array.getElem_toList]

private theorem loop_eq (bytes : ByteArray) (index : Nat) (taken : List UInt8) :
    ByteArray.toList.loop bytes index taken = taken.reverse ++ bytes.data.toList.drop index := by
  fun_induction ByteArray.toList.loop bytes index taken with
  | case1 index taken inside ih =>
    have inList : index < bytes.data.toList.length := inside
    rw [ih, List.reverse_cons, List.append_assoc, get!_eq_getElem inList, List.singleton_append,
      List.getElem_cons_drop]
  | case2 index taken outside =>
    have beyond : bytes.data.toList.length ≤ index := Nat.le_of_not_lt outside
    rw [List.drop_of_length_le beyond, List.append_nil]

theorem toList_eq (bytes : ByteArray) : bytes.toList = bytes.data.toList := loop_eq bytes 0 []

theorem length_toUTF8 (text : String) : text.toUTF8.toList.length = text.utf8ByteSize := by
  rw [toList_eq]
  rfl

def bytesOf (text : List Char) : List UInt8 := text.flatMap String.utf8EncodeChar

theorem bytesOf_cons (character : Char) (text : List Char) :
    bytesOf (character :: text) = String.utf8EncodeChar character ++ bytesOf text := List.flatMap_cons

theorem toList_toUTF8 (text : String) : text.toUTF8.toList = bytesOf text.toList := by
  rw [toList_eq, String.toUTF8_eq_toByteArray, ← String.utf8Encode_toList, List.utf8Encode,
    List.toList_data_toByteArray]
  rfl

/-- A character below 128 is one byte, and any other one begins with a byte of at least that. -/
theorem utf8EncodeChar_eq_cons (character : Char) : ∃ first rest, String.utf8EncodeChar character = first :: rest ∧
    (first.toNat = character.toNat ∧ rest = [] ∨ 128 ≤ character.toNat ∧ 128 ≤ first.toNat) := by
  have same : character.val.toNat = character.toNat := rfl
  unfold String.utf8EncodeChar
  dsimp only
  split
  next low => exact ⟨_, _, rfl, .inl ⟨by rw [UInt8.toNat_ofNat']; omega, rfl⟩⟩
  next high =>
    split
    next => exact ⟨_, _, rfl, .inr ⟨by omega, by rw [UInt8.toNat_ofNat']; omega⟩⟩
    next =>
      split
      next => exact ⟨_, _, rfl, .inr ⟨by omega, by rw [UInt8.toNat_ofNat']; omega⟩⟩
      next => exact ⟨_, _, rfl, .inr ⟨by omega, by rw [UInt8.toNat_ofNat']; omega⟩⟩

theorem toUTF8_of_fromUTF8? {bytes : ByteArray} {text : String} (decoded : String.fromUTF8? bytes = some text) :
    text.toUTF8 = bytes := by
  unfold String.fromUTF8? at decoded
  split at decoded
  next =>
    cases decoded
    rfl
  next => cases decoded

end StepGrid.Proofs.ByteTexts
