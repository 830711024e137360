import StepGrid.Score.Voice
import StepGrid.Proofs.ByteTexts
import Mathlib.Data.Nat.Digits.Defs
import Mathlib.Tactic.Ring

/-! Which names stand for a key. A name is a listed spelling with an octave after it, and can
be taken apart in one way only, for no octave begins with an accidental. How many digits an
octave has makes no difference, and neither do those that are too many for a machine's word. -/

namespace StepGrid.Proofs.PitchNames
open Voice ByteTexts

def decimal (digits : List Char) : Nat := Nat.ofDigits 10 (digits.reverse.map fun digit => digit.toNat - '0'.toNat)

/-- Octaves as they are written: some digits, and a minus sign before them below zero. -/
inductive Octave : List Char → Int → Prop where
  | plain {digits : List Char} (written : digits ≠ []) (ascii : ∀ digit ∈ digits, digit.isDigit = true) :
      Octave digits (decimal digits)
  | minus {digits : List Char} (written : digits ≠ []) (ascii : ∀ digit ∈ digits, digit.isDigit = true) :
      Octave ('-' :: digits) (-decimal digits)

/-- A listed spelling and an octave, at a key that there is. -/
def StandsFor (name : String) (key : Nat) : Prop :=
  ∃ spelling semitone text octave, (spelling, semitone) ∈ Pitch.classes ∧ name = spelling ++ text ∧
    Octave text.toList octave ∧ key = 12 * (octave + 1) + semitone ∧ key ≤ 127

section Reading

theorem decimal_cons (digit : Char) (rest : List Char) :
    decimal (digit :: rest) = Digits.value digit * 10 ^ rest.length + decimal rest := by
  rw [decimal, List.reverse_cons, List.map_append, Nat.ofDigits_append, List.map_singleton, Nat.ofDigits_singleton,
    List.length_map, List.length_reverse, Nat.add_comm, Nat.mul_comm]
  rfl

theorem number_eq (read : Nat) (digits : List Char) :
    Digits.number read digits = read * 10 ^ digits.length + decimal digits := by
  induction digits generalizing read with
  | nil => simp [Digits.number, decimal]
  | cons digit rest ih =>
    calc Digits.number read (digit :: rest)
      _ = Digits.number (read * 10 + Digits.value digit) rest := rfl
      _ = (read * 10 + Digits.value digit) * 10 ^ rest.length + decimal rest := ih _
      _ = read * 10 ^ (rest.length + 1) + (Digits.value digit * 10 ^ rest.length + decimal rest) := by ring
      _ = read * 10 ^ (digit :: rest).length + decimal (digit :: rest) := by rw [decimal_cons, List.length_cons]

theorem natural?_eq_some {text : List Char} {value : Nat} :
    Digits.natural? text = some value ↔ text ≠ [] ∧ (∀ digit ∈ text, digit.isDigit = true) ∧ value = decimal text := by
  have ascii : text.all Digits.isDigit = true ↔ ∀ digit ∈ text, digit.isDigit = true := List.all_eq_true
  unfold Digits.natural?
  split
  next unreadable =>
    refine iff_of_false nofun fun readable => ?_
    simp [ascii.mpr readable.2.1, readable.1] at unreadable
  next readable =>
    rw [Bool.or_eq_true, not_or, Bool.not_eq_true', Bool.not_eq_false, ascii, List.isEmpty_iff] at readable
    rw [number_eq, Nat.zero_mul, Nat.zero_add, Option.some.injEq, eq_comm]
    exact ⟨fun same => ⟨readable.1, readable.2, same⟩, fun all => all.2.2⟩

private theorem octave?_minus (digits : List Char) :
    Pitch.octave? ('-' :: digits) = (Digits.natural? digits).map fun number : Nat => -(number : Int) := by
  rw [Pitch.octave?]
  cases Digits.natural? digits with
  | none => rfl
  | some number => rfl

private theorem octave?_plain {text : List Char} (unsigned : ∀ digits, text ≠ '-' :: digits) :
    Pitch.octave? text = (Digits.natural? text).map fun number : Nat => (number : Int) := by
  unfold Pitch.octave?
  split
  next digits => exact absurd rfl (unsigned digits)
  next =>
    cases Digits.natural? text with
    | none => rfl
    | some number => rfl

theorem octave?_eq_some {text : List Char} {octave : Int} :
    Pitch.octave? text = some octave ↔ Octave text octave := by
  by_cases signed : ∃ digits, text = '-' :: digits
  · obtain ⟨digits, rfl⟩ := signed
    rw [octave?_minus, Option.map_eq_some_iff]
    constructor
    · rintro ⟨number, found, rfl⟩
      obtain ⟨written, ascii, rfl⟩ := natural?_eq_some.mp found
      exact .minus written ascii
    · intro octave
      cases octave with
      | plain _ ascii => exact absurd (ascii '-' (by simp)) (by decide)
      | minus written ascii => exact ⟨_, natural?_eq_some.mpr ⟨written, ascii, rfl⟩, rfl⟩
  · rw [octave?_plain (not_exists.mp signed), Option.map_eq_some_iff]
    constructor
    · rintro ⟨number, found, rfl⟩
      obtain ⟨written, ascii, rfl⟩ := natural?_eq_some.mp found
      exact .plain written ascii
    · intro octave
      cases octave with
      | plain written ascii => exact ⟨_, natural?_eq_some.mpr ⟨written, ascii, rfl⟩, rfl⟩
      | @minus digits => exact absurd ⟨digits, rfl⟩ signed

theorem semitone?_eq_some {spelling : String} {semitone : Nat} :
    Pitch.semitone? spelling = some semitone ↔ (spelling, semitone) ∈ Pitch.classes := by
  constructor
  · intro found
    obtain ⟨before, after, same, _⟩ := List.lookup_eq_some_iff.mp found
    rw [same]
    simp
  · have listed : ∀ entry ∈ Pitch.classes, Pitch.semitone? entry.1 = some entry.2 := by decide
    exact listed (spelling, semitone)

def isSpelling : List Char → Bool
  | [letter] => 'A' ≤ letter && letter ≤ 'G'
  | [letter, accidental] => 'A' ≤ letter && letter ≤ 'G' && (accidental == '#' || accidental == 'b')
  | _ => false

private theorem isSpelling_of_mem {entry : String × Nat} (listed : entry ∈ Pitch.classes) :
    isSpelling entry.1.toList = true := by
  have all : ∀ entry ∈ Pitch.classes, isSpelling entry.1.toList = true := by decide
  exact all entry listed

private theorem Octave.ne_accidental {text : List Char} {octave : Int} (written : Octave text octave)
    (rest : List Char) :
    text ≠ '#' :: rest ∧ text ≠ 'b' :: rest := by
  cases written with
  | plain _ ascii =>
    constructor
    · rintro rfl
      exact absurd (ascii '#' (by simp)) (by decide)
    · rintro rfl
      exact absurd (ascii 'b' (by simp)) (by decide)
  | minus => simp

/-- An accidental always goes with its letter, so that a spelling before an octave is found
again. -/
theorem splitName_append {spelling text : List Char} {octave : Int} (spelled : isSpelling spelling = true)
    (written : Octave text octave) : Pitch.splitName (spelling ++ text) = some (spelling, text) := by
  match spelling with
  | [letter] =>
    simp only [isSpelling, Bool.and_eq_true, decide_eq_true_eq] at spelled
    rw [List.singleton_append, Pitch.splitName, if_pos spelled]
    · exact fun rest => (written.ne_accidental rest).1
    · exact fun rest => (written.ne_accidental rest).2
  | [letter, accidental] =>
    simp only [isSpelling, Bool.and_eq_true, Bool.or_eq_true, decide_eq_true_eq, beq_iff_eq] at spelled
    obtain ⟨named, rfl | rfl⟩ := spelled
    · rw [List.cons_append, List.singleton_append, Pitch.splitName, if_pos named]
    · rw [List.cons_append, List.singleton_append, Pitch.splitName, if_pos named]

theorem eq_append_of_splitName {name spelling text : List Char}
    (found : Pitch.splitName name = some (spelling, text)) :
    name = spelling ++ text := by
  unfold Pitch.splitName at found
  split at found
  next => cases found
  next =>
    split at found
    next =>
      split at found <;> cases found <;> rfl
    next => cases found

/-- A name is read as a spelling and an octave in the one way there is. -/
theorem ofName?_eq_some {name : String} {key : Nat} : Pitch.ofName? name = some key ↔ StandsFor name key := by
  constructor
  · intro found
    obtain ⟨⟨spelling, text⟩, split, rest⟩ := Option.bind_eq_some_iff.mp found
    obtain ⟨octave, read, rest⟩ := Option.bind_eq_some_iff.mp rest
    obtain ⟨semitone, listed, last⟩ := Option.bind_eq_some_iff.mp rest
    dsimp only at last
    split at last
    next inside =>
      cases last
      refine ⟨String.ofList spelling, semitone, String.ofList text, octave, semitone?_eq_some.mp listed, ?_, ?_, ?_, ?_⟩
      · rw [← String.toList_inj, eq_append_of_splitName split, String.toList_append, String.toList_ofList, String.toList_ofList]
      · rw [String.toList_ofList]
        exact octave?_eq_some.mp read
      · exact Int.toNat_of_nonneg inside.1
      · have := inside.2
        unfold Pitch.highest at this
        omega
    next => cases last
  · rintro ⟨spelling, semitone, text, octave, listed, rfl, written, reached, bound⟩
    have split := splitName_append (isSpelling_of_mem listed) written
    have inside : 0 ≤ 12 * (octave + 1) + semitone ∧ 12 * (octave + 1) + semitone ≤ Pitch.highest := by
      unfold Pitch.highest
      omega
    simp only [Pitch.ofName?, String.toList_append, split, Option.bind_eq_bind, Option.bind_some,
      octave?_eq_some.mpr written, String.ofList_toList, semitone?_eq_some.mpr listed]
    rw [if_pos inside, ← reached, Int.toNat_natCast]

end Reading

section Words

def inWord? (number : Int) : Option Int :=
  if -2147483648 ≤ number ∧ number ≤ 2147483647 then some number else none

def pushDigit? (sign octave : Int) (digit : Char) : Option Int := do
  let shifted ← inWord? (octave * 10)
  inWord? (shifted + sign * Digits.value digit)

/-- Reads digits into a word, and gives them up as soon as one of them does not fit. -/
def wordOf? (sign : Int) (digits : List Char) : Option Int :=
  if digits.isEmpty || !digits.all Digits.isDigit then none else digits.foldlM (pushDigit? sign) 0

def wordOctave? : List Char → Option Int
  | '-' :: digits => wordOf? (-1) digits
  | digits => wordOf? 1 digits

/-- The key of a name when its octave is read in the given way. -/
def keyBy? (read : List Char → Option Int) (name : String) : Option Nat := do
  let (spelling, text) ← Pitch.splitName name.toList
  let octave ← read text
  let semitone ← Pitch.semitone? (String.ofList spelling)
  let key := 12 * (octave + 1) + semitone
  if 0 ≤ key ∧ key ≤ Pitch.highest then some key.toNat else none

theorem eq_of_inWord? {number word : Int} (fits : inWord? number = some word) : word = number := by
  unfold inWord? at fits
  split at fits
  next => exact (Option.some.inj fits).symm
  next => cases fits

section Digits
variable {sign : Int} (unit : sign = 1 ∨ sign = -1)
include unit

private theorem inWord?_of_le {first second : Nat} (overflow : inWord? (sign * first) = none)
    (longer : first ≤ second) :
    inWord? (sign * second) = none := by
  unfold inWord? at overflow ⊢
  split at overflow
  next => cases overflow
  next outside =>
    apply if_neg
    rcases unit with rfl | rfl <;> omega

theorem pushDigit?_eq (read : Nat) (digit : Char) :
    pushDigit? sign (sign * read) digit = inWord? (sign * (read * 10 + Digits.value digit : Nat)) := by
  have shifted : sign * read * 10 = sign * (read * 10 : Nat) := by
    push_cast
    ring
  rw [pushDigit?, shifted]
  cases fits : inWord? (sign * (read * 10 : Nat)) with
  | none => exact (inWord?_of_le unit fits (Nat.le_add_right _ _)).symm
  | some word =>
    rw [eq_of_inWord? fits, Nat.cast_add, Int.mul_add]
    rfl

/-- Numbers only grow as digits are added, so what overflows on the way is too long in the end. -/
theorem foldlM_pushDigit? {read : Nat} (fits : inWord? (sign * read) = some (sign * read)) (digits : List Char) :
    digits.foldlM (pushDigit? sign) (sign * read) = inWord? (sign * Digits.number read digits) := by
  induction digits generalizing read with
  | nil => exact fits.symm
  | cons digit rest ih =>
    have step : Digits.number read (digit :: rest) = Digits.number (read * 10 + Digits.value digit) rest := rfl
    rw [List.foldlM_cons, pushDigit?_eq unit, step]
    cases next : inWord? (sign * (read * 10 + Digits.value digit : Nat)) with
    | some word =>
      cases eq_of_inWord? next
      exact ih next
    | none =>
      have longer : read * 10 + Digits.value digit ≤ Digits.number (read * 10 + Digits.value digit) rest := by
        rw [number_eq]
        exact Nat.le_add_right_of_le (Nat.le_mul_of_pos_right _ (Nat.pow_pos (by decide)))
      exact (inWord?_of_le unit next longer).symm

theorem wordOf?_eq (digits : List Char) :
    wordOf? sign digits = (Digits.natural? digits).bind fun number => inWord? (sign * number) := by
  have zero : inWord? (sign * (0 : Nat)) = some (sign * (0 : Nat)) := by rw [Nat.cast_zero, Int.mul_zero]; rfl
  have read := foldlM_pushDigit? unit zero digits
  rw [Nat.cast_zero, Int.mul_zero] at read
  unfold wordOf? Digits.natural?
  split
  next => rfl
  next => exact read

end Digits

theorem wordOctave?_eq (text : List Char) : wordOctave? text = (Pitch.octave? text).bind inWord? := by
  unfold wordOctave?
  split
  next digits =>
    rw [wordOf?_eq (.inr rfl), octave?_minus, Option.bind_map]
    simp only [Function.comp_def, Int.neg_mul, Int.one_mul]
  next unsigned =>
    rw [wordOf?_eq (.inl rfl), octave?_plain unsigned, Option.bind_map]
    simp only [Function.comp_def, Int.one_mul]

theorem semitone_le {spelling : String} {semitone : Nat} (found : Pitch.semitone? spelling = some semitone) :
    semitone ≤ 11 := by
  have all : ∀ entry ∈ Pitch.classes, entry.2 ≤ 11 := by decide
  exact all _ (semitone?_eq_some.mp found)

/-- An octave that overflows is far from all keys. -/
theorem keyBy?_wordOctave? (name : String) : keyBy? wordOctave? name = Pitch.ofName? name := by
  change _ = keyBy? Pitch.octave? name
  unfold keyBy?
  congr 1
  funext ⟨spelling, text⟩
  simp only [wordOctave?_eq]
  cases Pitch.octave? text with
  | none => rfl
  | some octave =>
    cases fits : inWord? octave with
    | some word =>
      cases eq_of_inWord? fits
      simp only [Option.bind_some, fits]
    | none =>
      cases listed : Pitch.semitone? (String.ofList spelling) with
      | none => simp [fits]
      | some semitone =>
        have low := semitone_le listed
        unfold inWord? at fits
        split at fits
        next => cases fits
        next outside =>
          have far : ¬ (0 ≤ 12 * (octave + 1) + semitone ∧ 12 * (octave + 1) + semitone ≤ Pitch.highest) := by
            unfold Pitch.highest
            omega
          simp [inWord?, outside, far]

end Words

section Bytes

def splitBytes? : List UInt8 → Option (List UInt8 × List UInt8)
  | [] => none
  | letter :: rest =>
    if 65 ≤ letter.toNat ∧ letter.toNat ≤ 71 then
      let count := if rest.head? = some 35 ∨ rest.head? = some 98 then 2 else 1
      some ((letter :: rest).take count, (letter :: rest).drop count)
    else none

theorem letter_iff {letter : Char} {first : UInt8} {more : List UInt8}
    (kind : first.toNat = letter.toNat ∧ more = [] ∨ 128 ≤ letter.toNat ∧ 128 ≤ first.toNat) :
    ('A' ≤ letter ∧ letter ≤ 'G') ↔ 65 ≤ first.toNat ∧ first.toNat ≤ 71 := by
  have low : 'A' ≤ letter ↔ 65 ≤ letter.toNat := UInt32.le_iff_toNat_le
  have high : letter ≤ 'G' ↔ letter.toNat ≤ 71 := UInt32.le_iff_toNat_le
  rw [low, high]
  omega

private theorem head?_bytesOf {text : List Char} {ascii : Char} {byte : UInt8} (same : byte.toNat = ascii.toNat)
    (low : byte.toNat < 128) :
    (bytesOf text).head? = some byte ↔ ∃ rest, text = ascii :: rest := by
  rw [← List.head?_eq_some_iff]
  cases text with
  | nil => exact iff_of_false nofun nofun
  | cons character rest =>
    obtain ⟨first, more, encoded, kind⟩ := utf8EncodeChar_eq_cons character
    rw [bytesOf_cons, encoded, List.cons_append, List.head?_cons, List.head?_cons, Option.some.injEq, Option.some.injEq,
      ← UInt8.toNat_inj, ← Char.toNat_inj]
    omega

/-- Bytes and characters are taken apart at the same place, which is never inside a character. -/
theorem splitBytes?_bytesOf (text : List Char) :
    splitBytes? (bytesOf text) =
      (Pitch.splitName text).map fun (spelling, octave) => (bytesOf spelling, bytesOf octave) := by
  cases text with
  | nil => rfl
  | cons letter rest =>
    obtain ⟨first, more, encoded, kind⟩ := utf8EncodeChar_eq_cons letter
    have spelled (others : List Char) : bytesOf (letter :: others) = first :: (more ++ bytesOf others) := by
      rw [bytesOf_cons, encoded, List.cons_append]
    rw [spelled, splitBytes?]
    unfold Pitch.splitName
    dsimp only
    by_cases inside : 'A' ≤ letter ∧ letter ≤ 'G'
    · have inRange := (letter_iff kind).mp inside
      obtain rfl : more = [] := by
        rcases kind with ⟨_, alone⟩ | ⟨_, high⟩
        · exact alone
        · omega
      rw [if_pos inRange, if_pos inside, List.nil_append]
      have sharp : (bytesOf rest).head? = some 35 ↔ ∃ octave, rest = '#' :: octave := head?_bytesOf rfl (by decide)
      have flat : (bytesOf rest).head? = some 98 ↔ ∃ octave, rest = 'b' :: octave := head?_bytesOf rfl (by decide)
      split
      next accidental =>
        rw [sharp, flat] at accidental
        rcases accidental with ⟨octave, rfl⟩ | ⟨octave, rfl⟩
        · have cut : bytesOf ('#' :: octave) = 35 :: bytesOf octave := bytesOf_cons ..
          change _ = some (bytesOf [letter, '#'], bytesOf octave)
          rw [cut, spelled]
          rfl
        · have cut : bytesOf ('b' :: octave) = 98 :: bytesOf octave := bytesOf_cons ..
          change _ = some (bytesOf [letter, 'b'], bytesOf octave)
          rw [cut, spelled]
          rfl
      next plain =>
        rw [sharp, flat] at plain
        split
        next octave => exact absurd (.inl ⟨octave, rfl⟩) plain
        next octave => exact absurd (.inr ⟨octave, rfl⟩) plain
        next =>
          rw [Option.map_some, spelled]
          rfl
    · rw [if_neg inside, if_neg ((letter_iff kind).not.mp inside)]
      rfl

end Bytes

/-- A name has the key that it stands for, and every name that stands for none is refused as it
is. Words of 32 bits are enough for octaves, and the first two bytes of a name tell where its
spelling ends. -/
theorem pitch_iff_standsFor (name : String) :
    (∀ key, pitch name = .ok key ↔ StandsFor name key) ∧
    (∀ error, pitch name = .error error ↔ (∀ key, ¬ StandsFor name key) ∧ error = .unknownNote name) ∧
    keyBy? wordOctave? name = Pitch.ofName? name ∧
    splitBytes? name.toUTF8.toList =
      (Pitch.splitName name.toList).map fun (spelling, octave) => (bytesOf spelling, bytesOf octave) := by
  refine ⟨fun key => ?_, fun error => ?_, keyBy?_wordOctave? name, toList_toUTF8 name ▸ splitBytes?_bytesOf name.toList⟩
  · rw [← ofName?_eq_some, pitch]
    cases Pitch.ofName? name <;> simp
  · simp only [← ofName?_eq_some, ← Option.eq_none_iff_forall_ne_some, pitch]
    cases Pitch.ofName? name <;> simp [eq_comm]

example : pitch "Bb-1" = .ok 10 ∧ pitch "C000004" = .ok 60 ∧ pitch "C-0" = .ok 12 := ⟨rfl, rfl, rfl⟩

example : pitch "B#3" = .error (.unknownNote "B#3") ∧ pitch "Bbb3" = .error (.unknownNote "Bbb3") := ⟨rfl, rfl⟩

end StepGrid.Proofs.PitchNames
