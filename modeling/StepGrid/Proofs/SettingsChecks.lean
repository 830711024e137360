import StepGrid.Proofs.FallibleMap
import StepGrid.Settings

/-! Settings are checked one after another. Each check passes the numbers of its range as they are
and refuses any other with an error about that number; what is not given has its default. -/

namespace StepGrid.Proofs.SettingsChecks
open Settings

/-- A check passes the numbers of a range and refuses all others. -/
structure Checks (check : Int → Except Error Nat) (range : Int → Prop) (refusal : Int → Error) : Prop where
  passes : ∀ given, range given → 0 ≤ given ∧ check given = .ok given.toNat
  refuses : ∀ given, ¬ range given → check given = .error (refusal given)

theorem checks_tempo : Checks checkTempo (fun given => 4 ≤ given ∧ given ≤ 60000000) .tempo where
  passes given inside := ⟨by omega, if_pos inside⟩
  refuses _ outside := if_neg outside

theorem checks_stepsPerBar : Checks checkStepsPerBar (fun given => 1 ≤ given) .stepsPerBar where
  passes given inside := ⟨by omega, if_pos inside⟩
  refuses _ outside := if_neg outside

theorem checks_channel : Checks checkChannel (fun given => 0 ≤ given ∧ given ≤ 15) .channel where
  passes _ inside := ⟨inside.1, if_pos inside⟩
  refuses _ outside := if_neg outside

section Checked
variable {check : Int → Except Error Nat} {range : Int → Prop} {refusal : Int → Error} (checks : Checks check range refusal)
  {base : Nat} {given : Option Int}
include checks

theorem Checks.elim_eq_ok {value : Nat} :
    given.elim (.ok base) check = .ok value ↔ (∀ number, given = some number → range number) ∧ value = given.getD base := by
  cases given with
  | none =>
    simp only [Option.elim_none, Except.ok.injEq, reduceCtorEq, false_implies, implies_true, true_and, Option.getD_none]
    omega
  | some number =>
    rw [Option.elim_some]
    by_cases inside : range number
    · obtain ⟨natural, passed⟩ := checks.passes number inside
      simp only [passed, Except.ok.injEq, Option.some.injEq, forall_eq', inside, true_and, Option.getD_some]
      omega
    · simp [checks.refuses number inside, inside]

theorem Checks.exists_elim (inside : ∀ number, given = some number → range number) :
    ∃ value, given.elim (.ok base) check = .ok value := by
  cases given with
  | none => exact ⟨base, rfl⟩
  | some number => exact ⟨_, (checks.passes number (inside number rfl)).2⟩

theorem Checks.elim_eq_error {error : Error} :
    given.elim (.ok base) check = .error error ↔ ∃ number, given = some number ∧ ¬ range number ∧ error = refusal number := by
  cases given with
  | none => simp
  | some number =>
    rw [Option.elim_some]
    by_cases inside : range number
    · simp [(checks.passes number inside).2, inside]
    · simp [checks.refuses number inside, inside, eq_comm]

end Checked

/-- What is given or else the default is in a range if both are. -/
theorem range_of_getD {range : Int → Prop} {base : Int} {given : Option Int} (baseRange : range base)
    (fits : ∀ number, given = some number → range number) : range (given.getD base) := by
  cases given with
  | none => exact baseRange
  | some number => exact fits number rfl

section Resolving
variable {layer : Layer}

theorem resolve_eq_ok {settings : Settings} :
    resolve layer = .ok settings ↔
      ((∀ given, layer.tempo = some given → 4 ≤ given ∧ given ≤ 60000000) ∧ settings.tempo = layer.tempo.getD 120) ∧
      ((∀ given, layer.stepsPerBar = some given → 1 ≤ given) ∧ settings.stepsPerBar = layer.stepsPerBar.getD 4) ∧
      ((∀ given, layer.channel = some given → 0 ≤ given ∧ given ≤ 15) ∧ settings.channel = layer.channel.getD 0) ∧
      settings.title = layer.title ∧ settings.velocity = layer.velocity.elim 100 clampVelocity := by
  simp only [resolve, bind_eq_ok]
  constructor
  · rintro ⟨tempo, tempoFound, stepsPerBar, stepsFound, channel, channelFound, last⟩
    cases last
    exact ⟨checks_tempo.elim_eq_ok.mp tempoFound, checks_stepsPerBar.elim_eq_ok.mp stepsFound,
      checks_channel.elim_eq_ok.mp channelFound, rfl, rfl⟩
  · rintro ⟨tempo, stepsPerBar, channel, title, velocity⟩
    refine ⟨_, checks_tempo.elim_eq_ok.mpr tempo, _, checks_stepsPerBar.elim_eq_ok.mpr stepsPerBar,
      _, checks_channel.elim_eq_ok.mpr channel, ?_⟩
    obtain ⟨_, _, _, _, _⟩ := settings
    cases title
    cases velocity
    rfl

theorem resolve_eq_error {error : Error} :
    resolve layer = .error error ↔
      (∃ given, layer.tempo = some given ∧ ¬ (4 ≤ given ∧ given ≤ 60000000) ∧ error = .tempo given) ∨
      (∀ given, layer.tempo = some given → 4 ≤ given ∧ given ≤ 60000000) ∧
        ((∃ given, layer.stepsPerBar = some given ∧ ¬ 1 ≤ given ∧ error = .stepsPerBar given) ∨
        (∀ given, layer.stepsPerBar = some given → 1 ≤ given) ∧
          ∃ given, layer.channel = some given ∧ ¬ (0 ≤ given ∧ given ≤ 15) ∧ error = .channel given) := by
  simp only [resolve, bind_eq_error]
  constructor
  · rintro (refused | ⟨tempo, found, refused | ⟨stepsPerBar, stepsFound, refused | ⟨_, _, last⟩⟩⟩)
    · exact .inl (checks_tempo.elim_eq_error.mp refused)
    · exact .inr ⟨(checks_tempo.elim_eq_ok.mp found).1, .inl (checks_stepsPerBar.elim_eq_error.mp refused)⟩
    · exact .inr ⟨(checks_tempo.elim_eq_ok.mp found).1, .inr ⟨(checks_stepsPerBar.elim_eq_ok.mp stepsFound).1,
        checks_channel.elim_eq_error.mp refused⟩⟩
    · cases last
  · rintro (refused | ⟨tempo, refused | ⟨stepsPerBar, refused⟩⟩)
    · exact .inl (checks_tempo.elim_eq_error.mpr refused)
    · obtain ⟨_, tempoFound⟩ := checks_tempo.exists_elim tempo
      exact .inr ⟨_, tempoFound, .inl (checks_stepsPerBar.elim_eq_error.mpr refused)⟩
    · obtain ⟨_, tempoFound⟩ := checks_tempo.exists_elim tempo
      obtain ⟨_, stepsFound⟩ := checks_stepsPerBar.exists_elim stepsPerBar
      exact .inr ⟨_, tempoFound, .inr ⟨_, stepsFound, .inl (checks_channel.elim_eq_error.mpr refused)⟩⟩

end Resolving

end StepGrid.Proofs.SettingsChecks
