import StepGrid.Midi.Track
import Mathlib.Algebra.Order.Field.Rat
import Mathlib.Data.List.Basic
import Mathlib.Tactic.Linarith
import Mathlib.Tactic.NormNum
import Mathlib.Tactic.Ring

/-! Rounding to ticks. A time goes to the nearest tick, which keeps the order of times and
keeps times apart that are at least a tick apart. A whole number of ticks more is as many
ticks more after rounding, so that every bar rounds its times alike. -/

namespace StepGrid.Proofs.MidiTicks
open Midi

theorem ticks_mono {first second : Rat} (ordered : first ≤ second) : ticks first ≤ ticks second := by
  apply Int.toNat_le_toNat
  apply Rat.floor_monotone
  have positive : (0 : Rat) ≤ ticksPerBeat := by positivity
  linarith [mul_le_mul_of_nonneg_right ordered positive]

private theorem zero_le_floor {beats : Rat} (nonnegative : 0 ≤ beats) : 0 ≤ (beats * ticksPerBeat + 1 / 2).floor := by
  have positive : (0 : Rat) ≤ ticksPerBeat := by positivity
  rw [Rat.le_floor_iff]
  have := mul_nonneg nonnegative positive
  push_cast
  linarith

/-- A tick more is a tick more after rounding too, from time zero on. -/
theorem ticks_lt {first second : Rat} (nonnegative : 0 ≤ first) (apart : 1 ≤ (second - first) * ticksPerBeat) :
    ticks first < ticks second := by
  have zero := zero_le_floor nonnegative
  have step : (first * ticksPerBeat + 1 / 2).floor + 1 ≤ (second * ticksPerBeat + 1 / 2).floor := by
    rw [Rat.le_floor_iff]
    have := Rat.floor_le (first * ticksPerBeat + 1 / 2)
    push_cast
    linarith
  unfold ticks
  omega

section Nearest
variable {beats : Rat}

private theorem ticks_of_nonneg (nonnegative : 0 ≤ beats) : (ticks beats : Int) =
    (beats * ticksPerBeat + 1 / 2).floor :=
  Int.toNat_of_nonneg (zero_le_floor nonnegative)

theorem ticks_of_nonpos (early : beats ≤ 0) : ticks beats = 0 := by
  have below : (beats * ticksPerBeat + 1 / 2).floor < 1 := by
    have scaled : beats * ticksPerBeat ≤ 0 := mul_nonpos_of_nonpos_of_nonneg early (by positivity)
    rw [Rat.floor_lt_iff]
    push_cast
    linarith
  unfold ticks
  omega

/-- A tick is half a tick away from what rounds to it, or less; of two that are half a tick
away the later one is taken. -/
theorem eq_ticks_iff (nonnegative : 0 ≤ beats) {tick : Int} :
    tick = ticks beats ↔ 2 * (tick : Rat) - 1 ≤ 1920 * beats ∧ 1920 * beats < 2 * tick + 1 := by
  have above : tick ≤ ticks beats ↔ 2 * (tick : Rat) - 1 ≤ 1920 * beats := by
    rw [ticks_of_nonneg nonnegative, Rat.le_floor_iff, ticksPerBeat]
    push_cast
    constructor <;> intro near <;> linarith
  have below : ticks beats < tick + 1 ↔ 1920 * beats < 2 * tick + 1 := by
    rw [ticks_of_nonneg nonnegative, Rat.floor_lt_iff, ticksPerBeat]
    push_cast
    constructor <;> intro near <;> linarith
  rw [← above, ← below]
  omega

/-- A tick that no other is nearer to a time than, and no later one as near. Times before zero
have no ticks of their own. -/
structure Nearest (beats : Rat) (tick : Nat) : Prop where
  reached : tick = 0 ∨ 2 * (tick : Rat) - 1 ≤ 1920 * beats
  latest : 1920 * beats < 2 * tick + 1

theorem nearest_iff {tick : Nat} : Nearest beats tick ↔ tick = ticks beats := by
  rcases le_or_gt 0 beats with nonnegative | negative
  · have rounded : (tick : Int) = ticks beats ↔ 2 * ((tick : Int) : Rat) - 1 ≤ 1920 * beats ∧ 1920 * beats < 2 * ((tick : Int) : Rat) + 1 :=
      eq_ticks_iff nonnegative
    rw [Int.natCast_inj, Int.cast_natCast] at rounded
    rw [rounded]
    constructor
    · rintro ⟨rfl | reached, latest⟩
      · exact ⟨by push_cast; linarith, latest⟩
      · exact ⟨reached, latest⟩
    · rintro ⟨reached, latest⟩
      exact ⟨.inr reached, latest⟩
  · rw [ticks_of_nonpos negative.le]
    constructor
    · rintro ⟨zero | reached, _⟩
      · exact zero
      · have below : (tick : Rat) < 1 := by linarith
        exact Nat.cast_lt_one.mp below
    · rintro rfl
      exact ⟨.inl rfl, by push_cast; linarith⟩

private theorem ticks_add (nonnegative : 0 ≤ beats) (count : Nat) : ticks
    (beats + count / 960) = ticks beats + count := by
  have later : 0 ≤ beats + count / 960 := add_nonneg nonnegative (div_nonneg (Nat.cast_nonneg count) (by norm_num))
  obtain ⟨above, below⟩ := (eq_ticks_iff nonnegative).mp (Eq.refl (ticks beats : Int))
  have same : (ticks beats + count : Int) = ticks (beats + count / 960) := by
    apply (eq_ticks_iff later).mpr
    push_cast at above below ⊢
    constructor <;> linarith
  omega

private theorem ticks_add_bars (nonnegative : 0 ≤ beats) (bars : Nat) : ticks
    (beats + 4 * bars) = ticks beats + 3840 * bars := by
  have whole : (4 * bars : Rat) = (3840 * bars : Nat) / 960 := by
    push_cast
    ring
  rw [whole]
  exact ticks_add nonnegative _

end Nearest

section Parts

/-- Rounding by parts. What is left over a whole number, in lowest terms, decides whether the
next one away from zero is as near; only an even denominator has a half. -/
def roundAway (value : Rat) : Int :=
  let whole := value.num.tdiv value.den
  let rest := (value.num.tmod value.den).natAbs
  let half := if value.den % 2 = 0 then value.den / 2 else value.den / 2 + 1
  if half ≤ rest then if 0 ≤ value then whole + 1 else whole - 1 else whole

variable {value : Rat}

theorem le_floor_half_iff {whole : Int} :
    whole ≤ (value + 1 / 2).floor ↔ 2 * whole * value.den ≤ 2 * value.num + value.den := by
  have positive : (0 : Rat) < value.den := by exact_mod_cast value.den_pos
  have parts : value * value.den = value.num := Rat.mul_den_eq_num value
  rw [Rat.le_floor_iff, ← mul_le_mul_iff_of_pos_right positive, ← Int.cast_le (R := Rat)]
  push_cast
  constructor <;> intro near <;> linarith

private theorem roundAway_of_nonneg (nonnegative : 0 ≤ value) : roundAway value = (value + 1 / 2).floor := by
  have numerator : 0 ≤ value.num := Rat.num_nonneg.mpr nonnegative
  have denominator : (0 : Int) < value.den := by exact_mod_cast value.den_pos
  have parts := Int.mul_tdiv_add_tmod value.num value.den
  have restNonneg := Int.tmod_nonneg (value.den : Int) numerator
  have restSmall := Int.tmod_lt_of_pos value.num denominator
  unfold roundAway
  dsimp only
  rw [if_pos nonnegative]
  generalize value.num.tdiv value.den = whole at parts
  generalize value.num.tmod value.den = rest at parts restNonneg restSmall ⊢
  have reaches (more : Int) : whole + more ≤ (value + 1 / 2).floor ↔ 2 * more * value.den ≤ 2 * rest + value.den := by
    rw [le_floor_half_iff, ← parts]
    constructor <;> intro near <;> linarith
  have atLeast := (reaches 0).mpr (by omega)
  have next := reaches 1
  have atMost := (reaches 2).not.mpr (by omega)
  -- An odd denominator has its half between two whole numbers.
  have half : (if value.den % 2 = 0 then value.den / 2 else value.den / 2 + 1) ≤ rest.natAbs ↔
      (value.den : Int) ≤ 2 * rest := by
    split <;> omega
  by_cases near : (value.den : Int) ≤ 2 * rest
  · rw [if_pos (half.mpr near)]
    omega
  · rw [if_neg (half.not.mpr near)]
    omega

private theorem roundAway_nonpos (negative : value < 0) : roundAway value ≤ 0 := by
  have numerator : value.num < 0 := Rat.num_neg.mpr negative
  have opposite : 0 ≤ (-value.num).tdiv value.den := Int.tdiv_nonneg (by omega) (Int.natCast_nonneg _)
  rw [Int.neg_tdiv] at opposite
  unfold roundAway
  dsimp only
  rw [if_neg (not_le.mpr negative)]
  split <;> split <;> omega

theorem ticks_eq_roundAway (beats : Rat) : ticks beats = (roundAway (beats * ticksPerBeat)).toNat := by
  have positive : (0 : Rat) < ticksPerBeat := by norm_num [ticksPerBeat]
  rcases lt_or_ge beats 0 with negative | nonnegative
  · have early := roundAway_nonpos (mul_neg_of_neg_of_pos negative positive)
    rw [ticks_of_nonpos negative.le, Int.toNat_of_nonpos early]
  · rw [roundAway_of_nonneg (mul_nonneg nonnegative positive.le)]
    rfl

end Parts

section Bars

def barsLater (bars : Nat) (event : NoteEvent) : NoteEvent := { event with start := event.start + 4 * bars }

def ticksLater (count : Nat) (timed : Timed) : Timed := { timed with tick := timed.tick + count }

private theorem ofEvent_barsLater {event : NoteEvent} (started : 0 ≤ event.start) (bars : Nat) :
    Timed.ofEvent (barsLater bars event) = (Timed.ofEvent event).map (ticksLater (3840 * bars)) := by
  have struck : ticks (event.start + 4 * bars) = ticks event.start + 3840 * bars := ticks_add_bars started bars
  have released : max (ticks (event.start + 4 * bars + event.duration)) (ticks (event.start + 4 * bars) + 1) =
      max (ticks event.finish) (ticks event.start + 1) + 3840 * bars := by
    rcases le_or_gt 0 event.finish with nonnegative | negative
    · have ended := ticks_add_bars nonnegative bars
      rw [NoteEvent.finish] at ended
      rw [add_right_comm, ended, struck, NoteEvent.finish]
      omega
    · -- A note that ends before it starts lasts a tick, wherever it stands.
      have backwards : event.start + 4 * bars + event.duration ≤ event.start + 4 * bars := by
        rw [NoteEvent.finish] at negative
        linarith
      have before := ticks_mono backwards
      rw [ticks_of_nonpos negative.le]
      omega
  simp only [Timed.ofEvent, barsLater, NoteEvent.finish, ticksLater, List.map_cons, List.map_nil] at released ⊢
  rw [struck] at released ⊢
  rw [released]

private theorem schedule_barsLater {events : List NoteEvent} (started : ∀ event ∈ events, 0 ≤ event.start)
    (bars : Nat) :
    schedule (events.map (barsLater bars)) = (schedule events).map (ticksLater (3840 * bars)) := by
  have messages : (events.map (barsLater bars)).flatMap Timed.ofEvent =
      (events.flatMap Timed.ofEvent).map (ticksLater (3840 * bars)) := by
    rw [List.flatMap_map, List.map_flatMap]
    exact List.flatMap_congr fun event member => ofEvent_barsLater (started event member) bars
  have order (first second : Timed) : Timed.precedes first second =
      Timed.precedes (ticksLater (3840 * bars) first) (ticksLater (3840 * bars) second) := by
    simp only [Timed.precedes, ticksLater, Nat.add_lt_add_iff_right, beq_eq_decide, Nat.add_right_cancel_iff]
  rw [schedule, messages, schedule, List.map_mergeSort fun first _ second _ => order first second]

end Bars

/-- Times go to the nearest tick, halves to the later one, and none to a tick before zero. All
orders and distances are kept that ticks can tell, and a rhythm has the same ticks in every
bar. -/
theorem ticks_nearest :
    (∀ beats, ticks beats = (roundAway (beats * 960)).toNat) ∧
    (∀ beats ≤ 0, ticks beats = 0) ∧
    (∀ beats ≥ 0, ∀ tick : Int, tick = ticks beats ↔ 2 * (tick : Rat) - 1 ≤ 1920 * beats ∧ 1920 * beats < 2 * tick + 1) ∧
    (∀ first second, first ≤ second → ticks first ≤ ticks second) ∧
    (∀ beats ≥ 0, ∀ count : Nat, ticks (beats + count / 960) = ticks beats + count) ∧
    (∀ events : List NoteEvent, (∀ event ∈ events, 0 ≤ event.start) → ∀ bars : Nat,
      schedule (events.map (barsLater bars)) = (schedule events).map (ticksLater (3840 * bars))) ∧
    ∀ first second, 0 ≤ first → 1 / 960 ≤ second - first → ticks first < ticks second := by
  refine ⟨ticks_eq_roundAway, fun _ => ticks_of_nonpos, fun _ nonnegative _ => eq_ticks_iff nonnegative,
    fun _ _ => ticks_mono, fun _ => ticks_add, fun _ => schedule_barsLater, ?_⟩
  intro first second nonnegative apart
  apply ticks_lt nonnegative
  rw [ticksPerBeat]
  push_cast
  linarith

/-- Halves on both sides of zero, a fraction that no tick divides, and the same one a bar later. -/
theorem ticks_of_halves :
    ticks (1 / 1920) = 1 ∧ ticks (-1 / 1920) = 0 ∧ ticks (4 / 7) = 549 ∧ ticks (4 / 7 + 3840 / 960) = 4389 ∧
      ticks (4 / 7) < ticks (4 / 7 + 1 / 960) := by
  obtain ⟨_, early, nearest, _, shifted, _, apart⟩ := ticks_nearest
  have half : (1 : Int) = ticks (1 / 1920) := (nearest _ (by norm_num) 1).mpr (by norm_num)
  have seventh : (549 : Int) = ticks (4 / 7) := (nearest _ (by norm_num) 549).mpr (by norm_num)
  have bar := shifted (4 / 7) (by norm_num) 3840
  refine ⟨by omega, early _ (by norm_num), by omega, ?_, apart _ _ (by norm_num) (by norm_num)⟩
  push_cast at bar
  omega

end StepGrid.Proofs.MidiTicks
