import StepGrid.Json.Printer
import StepGrid.Proofs.DecimalTexts
import StepGrid.Proofs.JsonLines

/-! The text of a JSON value tells the value. Read again, a rendering gives what was rendered, as
far as the reader goes: not for doubles, nor for numbers and depths that no text has been read to. -/

namespace StepGrid.Proofs.JsonTexts
open Json Lexeme DecimalTexts JsonLines

/-- What may come after a value: the end of the text, or of the value's place in a container. -/
inductive Ends : List Char → Prop
  | nil : Ends []
  | comma (rest : List Char) : Ends (',' :: rest)
  | list (rest : List Char) : Ends (']' :: rest)
  | object (rest : List Char) : Ends ('\x7d' :: rest)

section Strings

def unescaped? : List Char → Option Char
  | [char] => if char = '"' ∨ char = '\\' ∨ char.toNat < 0x20 then none else some char
  | ['\\', escaped] => simpleEscape? escaped
  | ['\\', 'u', a, b, c, d] => (unit? a b c d).bind fun unit =>
    if isTrailing unit || isLeading unit then none else some (Char.ofNat unit)
  | _ => none

private theorem unescaped?_escape (char : Char) : unescaped? (escape char) = some char := by
  have control : ∀ code < 32, unescaped? (escape (Char.ofNat code)) = some (Char.ofNat code) := by decide
  by_cases low : char.toNat < 32
  · have same := control char.toNat low
    rwa [Char.ofNat_toNat] at same
  · by_cases quote : char = '"'
    · subst quote
      rfl
    · by_cases backslash : char = '\\'
      · subst backslash
        rfl
      · have other {code : Char} (controls : code.toNat < 32) : char ≠ code := by
          rintro rfl
          exact low controls
        have plain : escape char = [char] := by
          unfold escape
          rw [if_neg quote, if_neg backslash, if_neg (other (by decide)), if_neg (other (by decide)),
            if_neg (other (by decide)), if_neg (other (by decide)), if_neg (other (by decide)), if_neg low]
        rw [plain]
        change (if char = '"' ∨ char = '\\' ∨ char.toNat < 0x20 then none else some char) = some char
        exact if_neg (by simp only [quote, backslash, low, or_self, not_false_eq_true])

private theorem cutText_unescaped {written : List Char} {char : Char} (means : unescaped? written = some char)
    (taken rest : List Char) : cutText none taken (written ++ rest) = cutText none (char :: taken) rest := by
  unfold unescaped? at means
  split at means
  next =>
    split at means
    next => cases means
    next plain =>
      cases means
      rw [not_or, not_or] at plain
      rw [List.singleton_append, cutText.eq_def]
      simp only [if_neg plain.1, if_neg plain.2.1, if_neg plain.2.2]
      rfl
  next escaped =>
    rw [List.cons_append, List.singleton_append, cutText.eq_def]
    simp only [↓reduceIte, Option.isSome_none, Bool.false_eq_true]
    split
    next same => cases same
    next same =>
      cases same
      have noEscape : simpleEscape? 'u' = none := rfl
      cases noEscape.symm.trans means
    next same =>
      cases same
      rw [means]
  next a b c d =>
    obtain ⟨unit, found, means⟩ := Option.bind_eq_some_iff.mp means
    split at means
    next => cases means
    next whole =>
      rw [Bool.or_eq_true, not_or] at whole
      cases means
      rw [cutText.eq_def]
      simp only [List.cons_append, List.nil_append, ↓reduceIte, found, if_neg whole.1, if_neg whole.2]
  next => cases means

private theorem cutText_escaped (chars taken rest : List Char) :
    cutText none taken (chars.flatMap escape ++ '"' :: rest) = (.text (String.ofList (taken.reverse ++ chars)), rest) := by
  induction chars generalizing taken with
  | nil =>
    rw [List.flatMap_nil, List.nil_append, List.append_nil, cutText.eq_def]
    rfl
  | cons char others ih =>
    rw [List.flatMap_cons, List.append_assoc, cutText_unescaped (unescaped?_escape char), ih, List.reverse_cons,
      List.append_assoc, List.singleton_append]

private theorem lexemes_quote (text : String) (rest : List Char) :
    ∃ source, lexemes ((quote text).toList ++ rest) = ⟨.text text, source⟩ :: lexemes rest := by
  have written : (quote text).toList ++ rest = '"' :: (text.toList.flatMap escape ++ '"' :: rest) := by
    simp [quote]
  have cut : cut '"' (text.toList.flatMap escape ++ '"' :: rest) = (.text text, rest) := by
    rw [Lexeme.cut, cutText_escaped, List.reverse_nil, List.nil_append, String.ofList_toList]
  rw [written, lexemes_lexeme (by decide), cut]
  exact ⟨_, rfl⟩

end Strings

section Numbers

private theorem le_number (read : Nat) (digits : List Char) : read ≤ Digits.number read digits := by
  induction digits generalizing read with
  | nil => exact Nat.le_refl read
  | cons digit rest ih => exact Nat.le_trans (by omega) (ih (read * 10 + Digits.value digit))

private theorem takeWhole_eq {read : Nat} {digits : List Char}
    (fits : Digits.number read digits < Numeral.wordLimit) :
    Numeral.takeWhole read digits = ⟨Digits.number read digits, 0⟩ := by
  induction digits generalizing read with
  | nil => rfl
  | cons digit rest ih =>
    have step : Digits.number read (digit :: rest) = Digits.number (read * 10 + Digits.value digit) rest := rfl
    have bound := le_number (read * 10 + Digits.value digit) rest
    rw [step] at fits ⊢
    rw [Numeral.takeWhole, if_pos (by omega), ih fits]

private theorem cut_of_isDigit {char : Char} (digit : Digits.isDigit char = true) (rest : List Char) :
    cut char rest = cutNumeral false (char :: rest) := by
  fun_cases cut char rest with
  | case12 => exact if_pos digit
  | case13 => exact absurd digit (by assumption)
  | _ => cases digit

private theorem value_of_takeWhole {numeral : Numeral} {number : Nat} (plain : numeral.isWhole = true)
    (whole : Numeral.takeWhole 0 numeral.whole = ⟨number, 0⟩)
    (signed : numeral.negative = true → 0 < number ∧ number ≤ 9223372036854775808) :
    numeral.value = .ok (.integer (if numeral.negative then -number else number)) := by
  have kept : (!numeral.negative || (decide (0 < number) && decide (number ≤ 9223372036854775808))) = true := by
    cases sign : numeral.negative with
    | false => rfl
    | true =>
      obtain ⟨positive, bound⟩ := signed sign
      rw [decide_eq_true positive, decide_eq_true bound]
      rfl
  have read : numeral.value = .ok (.integer (if numeral.negative then -(Numeral.takeWhole 0 numeral.whole).significand
      else (Numeral.takeWhole 0 numeral.whole).significand)) := by
    apply if_pos
    rw [plain, whole]
    exact kept
  rw [read, whole]

private theorem cutFraction_of_ends (numeral : Numeral) {rest : List Char} (ends : Ends rest) :
    cutFraction numeral rest = evaluate numeral rest := by
  cases ends <;> rfl

private theorem cutNumeral_toDigits {negative : Bool} {number : Nat} (fits : number < Numeral.wordLimit)
    (signed : negative = true → 0 < number ∧ number ≤ 9223372036854775808) {rest : List Char} (ends : Ends rest) :
    cutNumeral negative (Nat.toDigits 10 number ++ rest) =
      (.literal (.number (.integer (if negative then -number else number))), rest) := by
  have digits : ∀ char ∈ Nat.toDigits 10 number, Digits.isDigit char = true := fun _ member =>
    Nat.isDigit_of_mem_toDigits (by decide) (by decide) member
  have noMore : rest.takeWhile Digits.isDigit = [] ∧ rest.dropWhile Digits.isDigit = rest := by
    cases ends <;> exact ⟨rfl, rfl⟩
  have whole : Numeral.takeWhole 0 (Nat.toDigits 10 number) = ⟨number, 0⟩ := by
    rw [takeWhole_eq (by rwa [number_toDigits]), number_toDigits]
  unfold cutNumeral
  rw [List.takeWhile_append_of_pos digits, List.dropWhile_append_of_pos digits, noMore.1, noMore.2, List.append_nil]
  split
  next empty => exact absurd empty Nat.toDigits_ne_nil
  next led =>
    rcases Nat.eq_zero_or_pos number with rfl | positive
    · cases led
    · exact absurd (congrArg List.head? led) (head?_toDigits positive)
  next =>
    rw [cutFraction_of_ends _ ends, evaluate, value_of_takeWhole rfl whole signed]

private theorem solid_of_isDigit {char : Char} (digit : Digits.isDigit char = true) : ¬ isSpace char = true := by
  intro blank
  simp only [isSpace, Bool.or_eq_true, decide_eq_true_eq] at blank
  rcases blank with ((rfl | rfl) | rfl) | rfl <;> cases digit

private theorem lexemes_rendered {value : Int} (low : -9223372036854775808 ≤ value)
    (high : value < 18446744073709551616) {rest : List Char} (ends : Ends rest) :
    ∃ source, lexemes (rendered value ++ rest) = ⟨.literal (.number (.integer value)), source⟩ :: lexemes rest := by
  rw [rendered_eq]
  split
  next positive =>
    obtain ⟨number, rfl⟩ := Int.eq_ofNat_of_zero_le positive
    have fits : number < Numeral.wordLimit := by
      rw [Numeral.wordLimit]
      omega
    have cutDigits := @cutNumeral_toDigits false number fits nofun rest ends
    rw [Int.toNat_natCast]
    cases digits : Nat.toDigits 10 number with
    | nil => exact absurd digits Nat.toDigits_ne_nil
    | cons first others =>
      have digit : Digits.isDigit first = true :=
        Nat.isDigit_of_mem_toDigits (by decide) (by decide) (digits ▸ List.mem_cons_self)
      rw [digits, List.cons_append] at cutDigits
      rw [List.cons_append, lexemes_lexeme (solid_of_isDigit digit), cut_of_isDigit digit, cutDigits]
      exact ⟨_, rfl⟩
  next negative =>
    have same : -((-value).toNat : Int) = value := by omega
    have cutDigits : cutNumeral true (Nat.toDigits 10 (-value).toNat ++ rest) =
        (.literal (.number (.integer (-((-value).toNat : Int)))), rest) :=
      cutNumeral_toDigits (by unfold Numeral.wordLimit; omega) (fun _ => by omega) ends
    rw [same] at cutDigits
    rw [List.cons_append, lexemes_lexeme (by decide), Lexeme.cut, cutDigits]
    exact ⟨_, rfl⟩

end Numbers

/-- What the reader makes of some text, at most so deep: its numbers are words, and its members are
sorted by their keys. Doubles are left out. -/
inductive Readable : Nat → Json → Prop
  | null (depth : Nat) : Readable depth .null
  | bool (depth : Nat) (value : Bool) : Readable depth (.bool value)
  | integer {value : Int} (depth : Nat) (low : -9223372036854775808 ≤ value) (high : value < 18446744073709551616) :
      Readable depth (.number (.integer value))
  | string (depth : Nat) (text : String) : Readable depth (.string text)
  | array {depth : Nat} {items : List Json} (each : ∀ item ∈ items, Readable depth item) :
      Readable (depth + 1) (.array items)
  | object {depth : Nat} {members : List (String × Json)} (sorted : members.Pairwise fun first second => first.1 < second.1)
      (each : ∀ member ∈ members, Readable depth member.2) : Readable (depth + 1) (.object members)

section Texts

def itemsText (items : List Json) : List Char := items.flatMap fun item => ',' :: item.render.toList

def memberText (member : String × Json) : List Char := (quote member.1).toList ++ ':' :: member.2.render.toList

def membersText (members : List (String × Json)) : List Char := members.flatMap fun member => ',' :: memberText member

private theorem Readable.render_ne_empty {depth : Nat} {value : Json} (readable : Readable depth value) :
    value.render ≠ "" := by
  intro empty
  have nothing := congrArg String.toList empty
  cases readable with
  | null => cases nothing
  | bool _ value => cases value <;> cases nothing
  | @integer value => exact rendered_ne_nil value nothing
  | string => simp [render, quote] at nothing
  | array => simp [render] at nothing
  | object => simp [render] at nothing

private theorem toList_renderItems {text : String} (filled : text ≠ "") (items : List Json) :
    (renderItems text items).toList = text.toList ++ itemsText items := by
  induction items generalizing text with
  | nil => simp [renderItems, itemsText]
  | cons item rest ih =>
    have more : text ++ "," ++ item.render ≠ "" := by simp [filled]
    have plain : text.isEmpty = false := by simp [filled]
    rw [renderItems, plain, if_neg Bool.false_ne_true, ih more]
    simp [itemsText]

private theorem toList_renderMembers {text : String} (filled : text ≠ "") (members : List (String × Json)) :
    (renderMembers text members).toList = text.toList ++ membersText members := by
  induction members generalizing text with
  | nil => simp [renderMembers, membersText]
  | cons member rest ih =>
    have more : text ++ "," ++ quote member.1 ++ ":" ++ member.2.render ≠ "" := by simp [filled]
    have plain : text.isEmpty = false := by simp [filled]
    rw [renderMembers, plain, if_neg Bool.false_ne_true, ih more]
    simp [membersText, memberText]

private theorem ends_itemsText (items : List Json) (rest : List Char) : Ends (itemsText items ++ ']' :: rest) := by
  cases items with
  | nil => exact .list rest
  | cons => exact .comma _

private theorem ends_membersText (members : List (String × Json)) (rest : List Char) :
    Ends (membersText members ++ '\x7d' :: rest) := by
  cases members with
  | nil => exact .object rest
  | cons => exact .comma _

end Texts

section Reading

private theorem run_lexeme {progress next : Progress} {kind : Lexeme.Kind} {source : List Char} (rest : List Lexeme)
    (stepped : progress.step ⟨kind, source⟩ = .ok next) : progress.run (⟨kind, source⟩ :: rest) = next.run rest := by
  rw [Progress.run, stepped]

/-- Read where a value is needed, the text of a value fills that need, whatever is read after it. -/
def Fills (depth : Nat) (value : Json) : Prop :=
  ∀ (slot : Slot) (outer : List Slot) (rest : List Char), outer.length + depth ≤ Progress.depthLimit → Ends rest →
    Progress.run ⟨.value slot, outer⟩ (lexemes (value.render.toList ++ rest)) =
      Progress.run ⟨Progress.fill value slot, outer⟩ (lexemes rest)

private theorem fills_of_lexeme {depth : Nat} {value : Json} {kind : Lexeme.Kind}
    (one : ∀ rest, Ends rest → ∃ source, lexemes (value.render.toList ++ rest) = ⟨kind, source⟩ :: lexemes rest)
    (takes : ∀ slot outer source, Progress.takeValue slot outer ⟨kind, source⟩ = .ok ⟨Progress.fill value slot, outer⟩) :
    Fills depth value := by
  intro slot outer rest _ ends
  obtain ⟨source, same⟩ := one rest ends
  rw [same]
  exact run_lexeme _ (takes slot outer source)

private theorem lexemes_of_cut {char : Char} {kind : Lexeme.Kind} {text rest : List Char}
    (solid : ¬ isSpace char = true)
    (cuts : cut char text = (kind, rest)) : ∃ source, lexemes (char :: text) = ⟨kind, source⟩ :: lexemes rest := by
  rw [lexemes_lexeme solid, cuts]
  exact ⟨_, rfl⟩

private theorem run_of_cut {progress next : Progress} {char : Char} {kind : Lexeme.Kind} {text rest : List Char}
    (solid : ¬ isSpace char = true) (cuts : cut char text = (kind, rest))
    (stepped : ∀ source, progress.step ⟨kind, source⟩ = .ok next) :
    progress.run (lexemes (char :: text)) = next.run (lexemes rest) := by
  obtain ⟨source, same⟩ := lexemes_of_cut solid cuts
  rw [same]
  exact run_lexeme _ (stepped source)

variable {depth : Nat} {slot : Slot} {outer : List Slot} (shallow : outer.length + (depth + 1) ≤ Progress.depthLimit)
  (rest : List Char)
include shallow

private theorem length_cons_le : (slot :: outer).length + depth ≤ Progress.depthLimit := by
  rw [List.length_cons]
  omega

private theorem run_items {items : List Json} (each : ∀ item ∈ items, Fills depth item) (done : List Json) :
    Progress.run ⟨.afterItem done, slot :: outer⟩ (lexemes (itemsText items ++ ']' :: rest)) =
      Progress.run ⟨Progress.fill (.array (done.reverse ++ items)) slot, outer⟩ (lexemes rest) := by
  induction items generalizing done with
  | nil =>
    rw [List.append_nil]
    exact run_of_cut (by decide) rfl fun _ => rfl
  | cons item more ih =>
    obtain ⟨first, others⟩ := List.forall_mem_cons.mp each
    have text : itemsText (item :: more) ++ ']' :: rest = ',' :: (item.render.toList ++ (itemsText more ++ ']' :: rest)) := by
      simp [itemsText]
    have ends := ends_itemsText more rest
    calc Progress.run ⟨.afterItem done, slot :: outer⟩ (lexemes (itemsText (item :: more) ++ ']' :: rest))
      _ = Progress.run ⟨.value (.item done), slot :: outer⟩ (lexemes (item.render.toList ++ (itemsText more ++ ']' :: rest))) := by
          rw [text]
          exact run_of_cut (by decide) rfl fun _ => rfl
      _ = Progress.run ⟨.afterItem (item :: done), slot :: outer⟩ (lexemes (itemsText more ++ ']' :: rest)) :=
          first (.item done) _ _ (length_cons_le shallow) ends
      _ = Progress.run ⟨Progress.fill (.array (done.reverse ++ item :: more)) slot, outer⟩ (lexemes rest) := by
          rw [ih others, List.reverse_cons, List.append_assoc, List.singleton_append]

private theorem run_member {member : String × Json} (fills : Fills depth member.2) (done : List (String × Json))
    {tail : List Char}
    (ends : Ends tail) : Progress.run ⟨.key done, slot :: outer⟩ (lexemes (memberText member ++ tail)) =
      Progress.run ⟨.afterMember (member :: done), slot :: outer⟩ (lexemes tail) := by
  have text : memberText member ++ tail = (quote member.1).toList ++ ':' :: (member.2.render.toList ++ tail) := by
    simp [memberText]
  obtain ⟨key, sameKey⟩ := lexemes_quote member.1 (':' :: (member.2.render.toList ++ tail))
  calc Progress.run ⟨.key done, slot :: outer⟩ (lexemes (memberText member ++ tail))
    _ = Progress.run ⟨.colon done member.1, slot :: outer⟩ (lexemes (':' :: (member.2.render.toList ++ tail))) := by
        rw [text, sameKey]
        exact run_lexeme _ rfl
    _ = Progress.run ⟨.value (.member done member.1), slot :: outer⟩ (lexemes (member.2.render.toList ++ tail)) :=
        run_of_cut (by decide) rfl fun _ => rfl
    _ = Progress.run ⟨.afterMember (member :: done), slot :: outer⟩ (lexemes tail) :=
        fills (.member done member.1) _ _ (length_cons_le shallow) ends

private theorem run_members {members : List (String × Json)} (each : ∀ member ∈ members, Fills depth member.2)
    (done : List (String × Json)) :
    Progress.run ⟨.afterMember done, slot :: outer⟩ (lexemes (membersText members ++ '\x7d' :: rest)) =
      Progress.run ⟨Progress.fill (sortedObject (done.reverse ++ members)) slot, outer⟩ (lexemes rest) := by
  induction members generalizing done with
  | nil =>
    rw [List.append_nil]
    exact run_of_cut (by decide) rfl fun _ => rfl
  | cons member more ih =>
    obtain ⟨first, others⟩ := List.forall_mem_cons.mp each
    have text : membersText (member :: more) ++ '\x7d' :: rest =
        ',' :: (memberText member ++ (membersText more ++ '\x7d' :: rest)) := by
      simp [membersText]
    have ends := ends_membersText more rest
    calc Progress.run ⟨.afterMember done, slot :: outer⟩ (lexemes (membersText (member :: more) ++ '\x7d' :: rest))
      _ = Progress.run ⟨.key done, slot :: outer⟩ (lexemes (memberText member ++ (membersText more ++ '\x7d' :: rest))) := by
          rw [text]
          exact run_of_cut (by decide) rfl fun _ => rfl
      _ = Progress.run ⟨.afterMember (member :: done), slot :: outer⟩ (lexemes (membersText more ++ '\x7d' :: rest)) :=
          run_member shallow first done ends
      _ = Progress.run ⟨Progress.fill (sortedObject (done.reverse ++ member :: more)) slot, outer⟩ (lexemes rest) := by
          rw [ih others, List.reverse_cons, List.append_assoc, List.singleton_append]

end Reading

private theorem lastOfKey_of_sorted {members : List (String × Json)}
    (sorted : members.Pairwise fun first second => first.1 < second.1) : lastOfKey members = members := by
  fun_induction lastOfKey members with
  | case1 first second rest same ih =>
    have less := List.rel_of_pairwise_cons sorted List.mem_cons_self
    rw [same] at less
    exact absurd less (String.lt_irrefl _)
  | case2 first second rest different ih => rw [ih sorted.of_cons]
  | case3 => rfl

private theorem sortedObject_of_sorted {members : List (String × Json)}
    (sorted : members.Pairwise fun first second => first.1 < second.1) : sortedObject members = .object members := by
  have ordered : members.Pairwise fun first second => decide (first.1 ≤ second.1) = true :=
    sorted.imp fun less => decide_eq_true (Std.le_of_lt less)
  rw [sortedObject, List.mergeSort_of_pairwise ordered, lastOfKey_of_sorted sorted]

section Containers
variable {depth : Nat}

private theorem fills_array {items : List Json} (each : ∀ item ∈ items, Readable depth item ∧ Fills depth item) :
    Fills (depth + 1) (.array items) := by
  intro slot outer rest shallow _
  have text : (render (.array items)).toList ++ rest = '[' :: ((renderItems "" items).toList ++ ']' :: rest) := by
    simp [render]
  have room : outer.length < Progress.depthLimit := by omega
  have entered : Progress.run ⟨.value slot, outer⟩ (lexemes ('[' :: ((renderItems "" items).toList ++ ']' :: rest))) =
      Progress.run ⟨.value (.item []), slot :: outer⟩ (lexemes ((renderItems "" items).toList ++ ']' :: rest)) :=
    run_of_cut (by decide) rfl fun _ => if_pos room
  rw [text, entered]
  cases items with
  | nil =>
    exact run_of_cut (by decide) rfl fun _ => rfl
  | cons item more =>
    obtain ⟨⟨readable, first⟩, others⟩ := List.forall_mem_cons.mp each
    have ends := ends_itemsText more rest
    have items : (renderItems "" (item :: more)).toList = item.render.toList ++ itemsText more := by
      rw [renderItems]
      exact toList_renderItems (by simpa using readable.render_ne_empty) more
    rw [items, List.append_assoc, first (.item []) _ _ (length_cons_le shallow) ends]
    exact run_items shallow rest (fun one member => (others one member).2) [item]

private theorem fills_object {members : List (String × Json)}
    (sorted : members.Pairwise fun first second => first.1 < second.1)
    (each : ∀ member ∈ members, Fills depth member.2) : Fills (depth + 1) (.object members) := by
  intro slot outer rest shallow _
  have text : (render (.object members)).toList ++ rest = '\x7b' :: ((renderMembers "" members).toList ++ '\x7d' :: rest) := by
    simp [render]
  have room : outer.length < Progress.depthLimit := by omega
  have entered : Progress.run ⟨.value slot, outer⟩ (lexemes ('\x7b' :: ((renderMembers "" members).toList ++ '\x7d' :: rest))) =
      Progress.run ⟨.key [], slot :: outer⟩ (lexemes ((renderMembers "" members).toList ++ '\x7d' :: rest)) :=
    run_of_cut (by decide) rfl fun _ => if_pos room
  rw [text, entered]
  cases members with
  | nil =>
    exact run_of_cut (by decide) rfl fun _ => rfl
  | cons member more =>
    obtain ⟨first, others⟩ := List.forall_mem_cons.mp each
    have members : (renderMembers "" (member :: more)).toList = memberText member ++ membersText more := by
      rw [renderMembers, toList_renderMembers (by simp [quote])]
      simp [memberText]
    rw [members, List.append_assoc, run_member shallow first [] (ends_membersText more rest),
      run_members shallow rest others [member]]
    change Progress.run ⟨Progress.fill (sortedObject (member :: more)) slot, outer⟩ _ = _
    rw [sortedObject_of_sorted sorted]

end Containers

private theorem fills_of_readable {depth : Nat} {value : Json} (readable : Readable depth value) :
    Fills depth value := by
  induction readable with
  | null => exact fills_of_lexeme (fun rest _ => lexemes_of_cut (by decide) rfl) fun _ _ _ => rfl
  | bool _ value =>
    cases value with
    | false => exact fills_of_lexeme (fun rest _ => lexemes_of_cut (by decide) rfl) fun _ _ _ => rfl
    | true => exact fills_of_lexeme (fun rest _ => lexemes_of_cut (by decide) rfl) fun _ _ _ => rfl
  | integer _ low high => exact fills_of_lexeme (fun rest ends => lexemes_rendered low high ends) fun _ _ _ => rfl
  | string _ text => exact fills_of_lexeme (fun rest _ => lexemes_quote text rest) fun _ _ _ => rfl
  | array each ih => exact fills_array fun item member => ⟨each item member, ih item member⟩
  | object sorted _ ih => exact fills_object sorted ih

/-- A rendering is read as what has been rendered. -/
theorem read_render {value : Json} (readable : Readable Progress.depthLimit value) :
    Json.read value.render.toList = .ok value := by
  have filled := fills_of_readable readable .whole [] [] (Nat.le_of_eq (Nat.zero_add _)) .nil
  rw [List.append_nil, lexemes_nil] at filled
  exact filled

end StepGrid.Proofs.JsonTexts
