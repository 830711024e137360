import StepGrid.Number.Digits
import StepGrid.Proofs.MidiTicks
import Mathlib.Data.Rat.Lemmas
import Mathlib.Tactic.FieldSimp

/-! Fractions in machine words. A fraction is kept in lowest terms and in two words of 64
bits, and an operation gives nothing if some number on its way has more. Fractions over one
denominator stay small however they are reduced and brought together again. -/

namespace StepGrid.Proofs.WordFractions
open Digits MidiTicks

def signed? (number : Int) : Option Int := if isWord number then some number else none

def unsigned? (number : Int) : Option Nat :=
  if 0 ≤ number ∧ number < 18446744073709551616 then some number.toNat else none

theorem isWord_iff {number : Int} : isWord number = true ↔ -2 ^ 63 ≤ number ∧ number < 2 ^ 63 := by
  simp only [isWord, Bool.and_eq_true, decide_eq_true_eq]
  omega

theorem isWord_of_lt {number : Int} (nonnegative : 0 ≤ number) (small : number < 2 ^ 63) : isWord number = true :=
  isWord_iff.mpr ⟨by omega, small⟩

theorem isWord_of_le_of_isWord {first second : Nat} (less : first ≤ second) (fits : isWord second = true) :
    isWord first = true := by
  rw [isWord_iff] at fits ⊢
  omega

theorem signed?_of_isWord {number : Int} (fits : isWord number = true) : signed? number = some number := if_pos fits

theorem unsigned?_of_eq {number : Int} {count : Nat} (same : number = count) (small : count < 2 ^ 64) :
    unsigned? number = some count := by
  subst same
  exact if_pos ⟨Int.natCast_nonneg count, by omega⟩

theorem bind_of_eq_some {found : Option α} {value : α} (same : found = some value) (next : α → Option β) :
    (found >>= next) = next value := by
  rw [same]
  rfl

/-- A fraction whose two parts in lowest terms are words. -/
def Stored (value : Rat) : Prop := isWord value.num = true ∧ isWord value.den = true

/-- The numerator of a fraction over some other denominator. -/
def scaled (value : Rat) (common : Nat) : Int := value.num * (common / value.den : Nat)

structure Arithmetic where
  quotient : Int → Int → Option Rat
  sum : Rat → Rat → Option Rat
  product : Rat → Rat → Option Rat
  rounded : Rat → Option Int

/-- Operations that are exact as long as the numbers they need are words. A sum needs both
numerators over the least common denominator. A product is reduced before it is multiplied
out, so it needs no more than its own parts. -/
structure Arithmetic.Exact (arithmetic : Arithmetic) : Prop where
  quotient : ∀ {numerator denominator : Int}, isWord numerator = true → isWord denominator = true → 0 < denominator →
    arithmetic.quotient numerator denominator = some (numerator / denominator : Rat)
  sum : ∀ {first second : Rat} {common : Nat}, Stored first → Stored second → common = first.den.lcm second.den →
    isWord common = true → isWord (scaled first common) = true → isWord (scaled second common) = true →
    isWord (scaled first common + scaled second common) = true → arithmetic.sum first second = some (first + second)
  product : ∀ {first second : Rat}, Stored first → Stored second → Stored (first * second) →
    arithmetic.product first second = some (first * second)
  rounded : ∀ {value : Rat}, Stored value → arithmetic.rounded value = some (roundAway value)

theorem cast_scaled {value : Rat} {common : Nat} (divides : value.den ∣ common) :
    (scaled value common : Rat) = value * common := by
  have whole : (common : Rat) = value.den * (common / value.den : Nat) := by
    exact_mod_cast (Nat.mul_div_cancel' divides).symm
  rw [scaled, Int.cast_mul, Int.cast_natCast, ← Rat.mul_den_eq_num, mul_assoc, whole]

theorem scaled_den (value : Rat) : scaled value value.den = value.num := by
  rw [scaled, Nat.div_self value.den_pos, Nat.cast_one, mul_one]

theorem stored_intCast {number : Int} (fits : isWord number = true) : Stored number := by
  rw [Stored, Rat.num_intCast, Rat.den_intCast]
  exact ⟨fits, rfl⟩

section Counts
variable {unit count : Nat} (positive : 0 < unit)

theorem den_dvd : ((count : Rat) / unit).den ∣ unit := by
  rw [show (count : Rat) / unit = Rat.divInt count unit from (Rat.divInt_eq_div ..).symm]
  exact Int.natCast_dvd_natCast.mp (Rat.den_dvd count unit)

include positive

theorem scaled_unit (count : Nat) : scaled (count / unit) unit = count := by
  have some : (unit : Rat) ≠ 0 := by exact_mod_cast positive.ne'
  have same : (scaled (count / unit) unit : Rat) = count / unit * unit := cast_scaled den_dvd
  rw [div_mul_cancel₀ _ some] at same
  exact_mod_cast same

/-- Over any denominator that divides the unit, and so in lowest terms too, a numerator is
no larger than the count of units. -/
theorem scaled_range {common : Nat} (divides : ((count : Rat) / unit).den ∣ common) (within : common ∣ unit) :
    0 ≤ scaled (count / unit) common ∧ scaled (count / unit) common ≤ count := by
  have some : (0 : Rat) < unit := by exact_mod_cast positive
  have value : (0 : Rat) ≤ count / unit := div_nonneg (Nat.cast_nonneg _) some.le
  have fewer : (common : Rat) ≤ unit := by exact_mod_cast Nat.le_of_dvd positive within
  rw [← Int.cast_nonneg_iff (R := Rat), ← Int.cast_le (R := Rat), cast_scaled divides]
  refine ⟨mul_nonneg value (Nat.cast_nonneg _), ?_⟩
  calc (count / unit * common : Rat)
    _ ≤ count / unit * unit := mul_le_mul_of_nonneg_left fewer value
    _ = (count : Int) := by
        rw [div_mul_cancel₀ _ some.ne']
        rfl

theorem num_range (count : Nat) : 0 ≤ ((count : Rat) / unit).num ∧ ((count : Rat) / unit).num ≤ count := by
  rw [← scaled_den]
  exact scaled_range positive (Nat.dvd_refl _) den_dvd

theorem stored_div (few : count < 2 ^ 63) (narrow : unit < 2 ^ 63) : Stored (count / unit) := by
  obtain ⟨nonnegative, bound⟩ := num_range positive count
  have divisor : ((count : Rat) / unit).den ≤ unit := Nat.le_of_dvd positive den_dvd
  exact ⟨isWord_of_lt nonnegative (by omega), isWord_of_lt (Int.natCast_nonneg _) (by omega)⟩

end Counts

section Operations
variable {arithmetic : Arithmetic} (exact : arithmetic.Exact) {unit : Nat} (positive : 0 < unit)
  (narrow : unit < 2 ^ 63)
include exact positive narrow

theorem sum_counts {first second : Nat} (few : first + second < 2 ^ 63) :
    arithmetic.sum (first / unit) (second / unit) = some ((first + second : Nat) / unit : Rat) := by
  -- The least common denominator divides the unit, as both denominators do.
  have within : ((first : Rat) / unit).den.lcm ((second : Rat) / unit).den ∣ unit := Nat.lcm_dvd den_dvd den_dvd
  obtain ⟨firstLow, firstHigh⟩ := scaled_range positive (Nat.dvd_lcm_left ..) within
  obtain ⟨secondLow, secondHigh⟩ := scaled_range positive (Nat.dvd_lcm_right ..) within
  have common := Nat.le_of_dvd positive within
  rw [exact.sum (stored_div positive (by omega) narrow) (stored_div positive (by omega) narrow) rfl
    (isWord_of_lt (Int.natCast_nonneg _) (by omega)) (isWord_of_lt firstLow (by omega))
    (isWord_of_lt secondLow (by omega)) (isWord_of_lt (by omega) (by omega)), Nat.cast_add, add_div]

theorem product_count {first second : Rat} {count : Nat} (firstStored : Stored first) (secondStored : Stored second)
    (same : first * second = count / unit) (few : count < 2 ^ 63) :
    arithmetic.product first second = some (count / unit : Rat) := by
  rw [← same]
  apply exact.product firstStored secondStored
  rw [same]
  exact stored_div positive few narrow

end Operations

section Wholes
variable {whole : Int} {value : Rat}

private theorem num_intCast_add (whole : Int) (value : Rat) :
    ((whole : Rat) + value).num = whole * value.den + value.num := by
  have same : (((whole : Rat) + value).num : Rat) = (whole * value.den + value.num : Int) := by
    rw [← Rat.mul_den_eq_num, Rat.intCast_add_den, add_mul, Rat.mul_den_eq_num]
    push_cast
    rfl
  exact_mod_cast same

variable (low : 0 ≤ whole) (nonnegative : 0 ≤ value) (stored : Stored (whole + value))
include low nonnegative stored

theorem parts_of_stored_add : isWord value.den = true ∧ 0 ≤ value.num ∧ 0 ≤ whole * value.den ∧
    whole ≤ whole * value.den ∧ whole * value.den + value.num < 2 ^ 63 := by
  obtain ⟨num, den⟩ := stored
  rw [num_intCast_add, isWord_iff] at num
  rw [Rat.intCast_add_den] at den
  have some : (1 : Int) ≤ value.den := by exact_mod_cast value.den_pos
  exact ⟨den, Rat.num_nonneg.mpr nonnegative, mul_nonneg low (by omega), le_mul_of_one_le_right low some, num.2⟩

theorem stored_of_stored_add : Stored value := by
  obtain ⟨den, num, scaled, _, bound⟩ := parts_of_stored_add low nonnegative stored
  exact ⟨isWord_of_lt num (by omega), den⟩

theorem whole_lt_of_stored_add : whole < 2 ^ 63 := by
  obtain ⟨_, num, _, more, bound⟩ := parts_of_stored_add low nonnegative stored
  omega

/-- The sum of a whole number and a fraction needs no more than its own parts. -/
theorem sum_whole {arithmetic : Arithmetic} (exact : arithmetic.Exact) :
    arithmetic.sum whole value = some (whole + value) := by
  obtain ⟨den, num, first, more, bound⟩ := parts_of_stored_add low nonnegative stored
  have scaledWhole : scaled whole value.den = whole * value.den := by
    rw [scaled, Rat.num_intCast, Rat.den_intCast, Nat.div_one]
  have least : value.den = (whole : Rat).den.lcm value.den := by rw [Rat.den_intCast, Nat.lcm_one_left]
  apply exact.sum (stored_intCast (isWord_of_lt low (by omega))) (stored_of_stored_add low nonnegative stored) least den
  · rw [scaledWhole]
    exact isWord_of_lt first (by omega)
  · rw [scaled_den]
    exact isWord_of_lt num (by omega)
  · rw [scaledWhole, scaled_den]
    exact isWord_of_lt (by omega) bound

end Wholes

section Checked

/-- Both numbers are divided by all that they have in common, and the sign goes to the first. -/
def quotient? (numerator denominator : Int) : Option Rat := do
  let numerator ← signed? numerator
  let denominator ← signed? denominator
  if denominator = 0 then none
  else
    let value := Rat.divInt numerator denominator
    let _ ← signed? value.num
    let _ ← signed? value.den
    return value

def sum? (first second : Rat) : Option Rat := do
  if first.den = second.den then quotient? (← signed? (first.num + second.num)) first.den
  else
    let common ← signed? (first.den.lcm second.den)
    let one ← signed? (first.num * (common / first.den))
    let other ← signed? (second.num * (common / second.den))
    quotient? (← signed? (one + other)) common

def product? (first second : Rat) : Option Rat := do
  let left := first.num.natAbs.gcd second.den
  let right := second.num.natAbs.gcd first.den
  let numerator ← signed? (first.num / left * (second.num / right))
  let denominator ← signed? (first.den / right * (second.den / left))
  quotient? numerator denominator

def rounded? (value : Rat) : Option Int := do
  let whole ← signed? (value.num.tdiv value.den)
  let rest ← signed? (value.num.tmod value.den).natAbs
  let half ← signed? (if value.den % 2 = 0 then value.den / 2 else value.den / 2 + 1 : Nat)
  if half ≤ rest then signed? (if 0 ≤ value then whole + 1 else whole - 1) else return whole

/-- Arithmetic that makes one number after the other and checks each of them. -/
def checked : Arithmetic := ⟨quotient?, sum?, product?, rounded?⟩

private theorem isWord_num {value : Rat} {common : Nat} (divides : value.den ∣ common) (positive : 0 < common)
    (fits : isWord (scaled value common) = true) : isWord value.num = true := by
  have more : (1 : Int) ≤ (common / value.den : Nat) := by
    exact_mod_cast Nat.div_pos (Nat.le_of_dvd positive divides) value.den_pos
  rw [isWord_iff, scaled] at fits
  rw [isWord_iff]
  rcases le_total 0 value.num with nonnegative | negative
  · have := le_mul_of_one_le_right nonnegative more
    omega
  · have := mul_le_of_one_le_right negative more
    omega

theorem quotient?_eq {numerator denominator : Int} (numeratorFits : isWord numerator = true)
    (denominatorFits : isWord denominator = true) (positive : 0 < denominator) :
    quotient? numerator denominator = some (numerator / denominator : Rat) := by
  obtain ⟨divisor, rfl⟩ := Int.eq_ofNat_of_zero_le positive.le
  have some : 0 < divisor := by omega
  have divides : (Rat.divInt numerator divisor).den ∣ divisor := Int.natCast_dvd_natCast.mp (Rat.den_dvd ..)
  have same : (scaled (Rat.divInt numerator divisor) divisor : Rat) = numerator := by
    rw [cast_scaled divides, Rat.divInt_eq_div, Int.cast_natCast, div_mul_cancel₀]
    exact_mod_cast some.ne'
  have numFits : isWord (Rat.divInt numerator divisor).num = true :=
    isWord_num divides some (by rwa [Int.cast_inj.mp same])
  have denFits : isWord (Rat.divInt numerator divisor).den = true :=
    isWord_of_le_of_isWord (Nat.le_of_dvd some divides) denominatorFits
  rw [quotient?, signed?_of_isWord numeratorFits, signed?_of_isWord denominatorFits]
  simp only [Option.bind_eq_bind, Option.bind_some]
  rw [if_neg positive.ne', signed?_of_isWord numFits, signed?_of_isWord denFits, ← Rat.divInt_eq_div]
  rfl

private theorem scaled_add_div {first second : Rat} {common : Nat} (firstDivides : first.den ∣ common)
    (secondDivides : second.den ∣ common) (positive : 0 < common) :
    ((scaled first common + scaled second common : Int) / (common : Int) : Rat) = first + second := by
  have some : (common : Rat) ≠ 0 := by exact_mod_cast positive.ne'
  rw [Int.cast_add, cast_scaled firstDivides, cast_scaled secondDivides, ← add_mul, Int.cast_natCast,
    mul_div_cancel_right₀ _ some]

theorem sum?_eq {first second : Rat} {common : Nat} (least : common = first.den.lcm second.den)
    (commonFits : isWord common = true) (firstFits : isWord (scaled first common) = true)
    (secondFits : isWord (scaled second common) = true)
    (sumFits : isWord (scaled first common + scaled second common) = true) : sum? first second = some (first + second) := by
  have positive : 0 < common := least ▸ Nat.lcm_pos first.den_pos second.den_pos
  have reduced := quotient?_eq sumFits commonFits (by omega)
  rw [scaled_add_div (least ▸ Nat.dvd_lcm_left ..) (least ▸ Nat.dvd_lcm_right ..) positive] at reduced
  unfold sum?
  split
  next same =>
    obtain rfl : common = first.den := by rw [least, ← same, Nat.lcm_self]
    have other : scaled second first.den = second.num := by rw [same, scaled_den]
    rw [scaled_den, other] at sumFits reduced
    rw [signed?_of_isWord sumFits]
    exact reduced
  next differ =>
    rw [scaled, Int.natCast_ediv] at firstFits secondFits
    rw [← least, signed?_of_isWord commonFits]
    simp only [Option.bind_eq_bind, Option.bind_some]
    rw [signed?_of_isWord firstFits, signed?_of_isWord secondFits]
    simp only [Option.bind_some]
    rw [← Int.natCast_ediv, ← Int.natCast_ediv]
    change (signed? (scaled first common + scaled second common)).bind _ = _
    rw [signed?_of_isWord sumFits]
    exact reduced

theorem product?_eq {first second : Rat} (stored : Stored (first * second)) :
    product? first second = some (first * second) := by
  have num : (first * second).num =
      first.num / (first.num.natAbs.gcd second.den : Nat) * (second.num / (second.num.natAbs.gcd first.den : Nat)) := by
    change (first.mul second).num = _
    simp only [Rat.mul, Int.divExact_eq_ediv]
  have den : ((first * second).den : Int) =
      first.den / (second.num.natAbs.gcd first.den : Nat) * (second.den / (first.num.natAbs.gcd second.den : Nat)) := by
    change ((first.mul second).den : Int) = _
    simp only [Rat.mul, Nat.divExact_eq_div, Nat.cast_mul, Int.natCast_ediv]
  obtain ⟨numFits, denFits⟩ := stored
  have value := quotient?_eq numFits denFits (Int.natCast_pos.mpr (first * second).den_pos)
  rw [Int.cast_natCast, Rat.num_div_den, num, den] at value
  rw [num] at numFits
  rw [den] at denFits
  rw [product?, signed?_of_isWord numFits, signed?_of_isWord denFits]
  exact value

private theorem isWord_tdiv {number : Int} (fits : isWord number = true) (divisor : Nat) :
    isWord (number.tdiv divisor) = true := by
  have size : (number.tdiv divisor).natAbs = number.natAbs / divisor := Int.natAbs_tdiv ..
  have small := Nat.div_le_self number.natAbs divisor
  rw [isWord_iff] at fits ⊢
  rcases Int.le_total 0 number with nonnegative | negative
  · omega
  · -- The least word has no opposite, so its sign is needed beside its size.
    have opposite := Int.tdiv_nonneg (Int.neg_nonneg_of_nonpos negative) (Int.natCast_nonneg divisor)
    rw [Int.neg_tdiv] at opposite
    omega

/-- Rounding goes one further only where there is a rest, and then the whole part is at most
half of the numerator. -/
theorem rounded?_eq {value : Rat} (stored : Stored value) : rounded? value = some (roundAway value) := by
  obtain ⟨numFits, denFits⟩ := stored
  have wholeSize : (value.num.tdiv value.den).natAbs = value.num.natAbs / value.den := Int.natAbs_tdiv ..
  have restSize : (value.num.tmod value.den).natAbs = value.num.natAbs % value.den := Int.natAbs_tmod ..
  have restSmall := Nat.mod_lt value.num.natAbs value.den_pos
  have restFits : isWord (value.num.tmod value.den).natAbs = true := isWord_of_le_of_isWord (by omega) denFits
  have halfRange : 0 < (if value.den % 2 = 0 then value.den / 2 else value.den / 2 + 1) ∧
      (if value.den % 2 = 0 then value.den / 2 else value.den / 2 + 1) ≤ value.den := by
    have := value.den_pos
    split <;> omega
  rw [rounded?, signed?_of_isWord (isWord_tdiv numFits _), signed?_of_isWord restFits,
    signed?_of_isWord (isWord_of_le_of_isWord halfRange.2 denFits)]
  unfold roundAway
  generalize (if value.den % 2 = 0 then value.den / 2 else value.den / 2 + 1) = half at halfRange ⊢
  simp only [Option.bind_eq_bind, Option.bind_some, Nat.cast_le]
  by_cases further : half ≤ (value.num.tmod value.den).natAbs
  · have divided : 2 ≤ value.den := by omega
    have wholeHalf : value.num.natAbs / value.den ≤ value.num.natAbs / 2 := Nat.div_le_div_left divided (by decide)
    rw [if_pos further, if_pos further]
    apply signed?_of_isWord
    rw [isWord_iff] at numFits ⊢
    split <;> omega
  · rw [if_neg further, if_neg further]
    rfl

theorem exact_checked : checked.Exact where
  quotient := quotient?_eq
  sum _ _ least := sum?_eq least
  product _ _ := product?_eq
  rounded := rounded?_eq

-- A fraction of words need not have a product of words.
example : checked.product (2 ^ 54) 960 = none := by decide +kernel

end Checked

end StepGrid.Proofs.WordFractions
