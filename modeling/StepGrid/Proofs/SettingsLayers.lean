import StepGrid.Proofs.LastWrite
import StepGrid.Proofs.MidiWritable

/-! What a stack of layers amounts to. Of each setting only the last layer that sets it
counts: its value alone is checked, and it alone is kept. The first setting out of range, in
the order tempo, steps per bar, channel, refuses the whole stack. -/

namespace StepGrid.Proofs.SettingsLayers
open Settings SettingsChecks MidiWritable

def stack (lowest : Layer) (above : List Layer) : Layer := above.foldl Layer.merge lowest

def lastSet (setting : Layer → Option α) (layers : List Layer) : Option α := (layers.filterMap setting).getLast?

/-- No layer sets a setting last to a number out of its range. -/
structure Accepted (layers : List Layer) : Prop where
  tempo : ∀ given, lastSet (·.tempo) layers = some given → 4 ≤ given ∧ given ≤ 60000000
  stepsPerBar : ∀ given, lastSet (·.stepsPerBar) layers = some given → 1 ≤ given
  channel : ∀ given, lastSet (·.channel) layers = some given → 0 ≤ given ∧ given ≤ 15

/-- The last values that are set, and the defaults of what is never set. -/
structure Settled (layers : List Layer) (settings : Settings) : Prop where
  title : settings.title = lastSet (·.title) layers
  tempo : settings.tempo = (lastSet (·.tempo) layers).getD 120
  stepsPerBar : settings.stepsPerBar = (lastSet (·.stepsPerBar) layers).getD 4
  velocity : settings.velocity = max 1 (min ((lastSet (·.velocity) layers).getD 100) 127)
  channel : settings.channel = (lastSet (·.channel) layers).getD 0

/-- The first setting that is set last to a number out of its range, by its name, and the
error about that number. -/
inductive Refused (layers : List Layer) : String → Error → Prop where
  | tempo {given : Int} (set : lastSet (·.tempo) layers = some given) (outside : ¬ (4 ≤ given ∧ given ≤ 60000000)) :
      Refused layers "tempo" (.tempo given)
  | stepsPerBar {given : Int}
      (tempo : ∀ other, lastSet (·.tempo) layers = some other → 4 ≤ other ∧ other ≤ 60000000)
      (set : lastSet (·.stepsPerBar) layers = some given) (outside : ¬ 1 ≤ given) :
      Refused layers "steps-per-bar" (.stepsPerBar given)
  | channel {given : Int}
      (tempo : ∀ other, lastSet (·.tempo) layers = some other → 4 ≤ other ∧ other ≤ 60000000)
      (stepsPerBar : ∀ other, lastSet (·.stepsPerBar) layers = some other → 1 ≤ other)
      (set : lastSet (·.channel) layers = some given) (outside : ¬ (0 ≤ given ∧ given ≤ 15)) :
      Refused layers "channel" (.channel given)

theorem lastSet_cons (setting : Layer → Option α) (layer : Layer) (layers : List Layer) :
    lastSet setting (layer :: layers) = (lastSet setting layers).or (setting layer) := getLast?_filterMap_cons setting layer layers

/-- A setting that merging takes from the upper layer wherever it is set there is taken from
the last layer of a stack that sets it. -/
theorem setting_stack (setting : Layer → Option α)
    (upperWins : ∀ lower upper, setting (lower.merge upper) = (setting upper).or (setting lower)) (lowest : Layer)
    (above : List Layer) : setting (stack lowest above) = lastSet setting (lowest :: above) := by
  rw [lastSet_cons]
  exact field_foldl upperWins lowest above

section Stacks
variable {lowest : Layer} {above : List Layer}

theorem resolve_stack_eq_ok {settings : Settings} :
    resolve (stack lowest above) = .ok settings ↔ Accepted (lowest :: above) ∧ Settled (lowest :: above) settings := by
  have velocity : (settings.velocity = (lastSet (·.velocity) (lowest :: above)).elim 100 clampVelocity) ↔
      (settings.velocity : Int) = max 1 (min ((lastSet (·.velocity) (lowest :: above)).getD 100) 127) := by
    cases lastSet (·.velocity) (lowest :: above) with
    | none => simp; omega
    | some given =>
      simp only [Option.elim_some, Option.getD_some, clampVelocity]
      omega
  rw [resolve_eq_ok]
  simp only [setting_stack (·.tempo) (fun _ _ => rfl), setting_stack (·.stepsPerBar) (fun _ _ => rfl),
    setting_stack (·.channel) (fun _ _ => rfl), setting_stack (·.title) (fun _ _ => rfl),
    setting_stack (·.velocity) (fun _ _ => rfl), velocity]
  constructor
  · rintro ⟨⟨tempoFits, tempo⟩, ⟨stepsFit, stepsPerBar⟩, ⟨channelFits, channel⟩, title, velocity⟩
    exact ⟨⟨tempoFits, stepsFit, channelFits⟩, ⟨title, tempo, stepsPerBar, velocity, channel⟩⟩
  · rintro ⟨⟨tempoFits, stepsFit, channelFits⟩, ⟨title, tempo, stepsPerBar, velocity, channel⟩⟩
    exact ⟨⟨tempoFits, tempo⟩, ⟨stepsFit, stepsPerBar⟩, ⟨channelFits, channel⟩, title, velocity⟩

theorem resolve_stack_eq_error {error : Error} :
    resolve (stack lowest above) = .error error ↔ ∃ name, Refused (lowest :: above) name error := by
  rw [resolve_eq_error]
  simp only [setting_stack (·.tempo) (fun _ _ => rfl), setting_stack (·.stepsPerBar) (fun _ _ => rfl),
    setting_stack (·.channel) (fun _ _ => rfl)]
  constructor
  · rintro (⟨given, set, outside, rfl⟩ | ⟨tempo, ⟨given, set, outside, rfl⟩ | ⟨stepsPerBar, given, set, outside, rfl⟩⟩)
    · exact ⟨_, .tempo set outside⟩
    · exact ⟨_, .stepsPerBar tempo set outside⟩
    · exact ⟨_, .channel tempo stepsPerBar set outside⟩
  · rintro ⟨name, refused⟩
    cases refused with
    | tempo set outside => exact .inl ⟨_, set, outside, rfl⟩
    | stepsPerBar tempo set outside => exact .inr ⟨tempo, .inl ⟨_, set, outside, rfl⟩⟩
    | channel tempo stepsPerBar set outside => exact .inr ⟨tempo, .inr ⟨stepsPerBar, _, set, outside, rfl⟩⟩

/-- An error names the setting that it is about. -/
theorem Refused.kind {layers : List Layer} {name : String} {error : Error} (refused : Refused layers name error) :
    error.kind = .setting name := by
  cases refused <;> rfl

end Stacks

/-- A stack of layers resolves exactly if nothing that is set last is out of range, to what is
set last and to defaults, and a beat then has a length that fits a file. Otherwise it fails
by the name of the first setting out of range. -/
theorem resolve_stack (lowest : Layer) (above : List Layer) :
    ((∃ settings, resolve (stack lowest above) = .ok settings) ↔ Accepted (lowest :: above)) ∧
    (∀ settings, resolve (stack lowest above) = .ok settings → Settled (lowest :: above) settings ∧
      ∃ microseconds, settings.microsecondsPerBeat = .ok microseconds ∧ 1 ≤ microseconds ∧ microseconds < 2 ^ 24) ∧
    ∀ error, resolve (stack lowest above) = .error error ↔
      ∃ name, Refused (lowest :: above) name error ∧ error.kind = .setting name := by
  refine ⟨⟨?_, ?_⟩, ?_, ?_⟩
  · rintro ⟨settings, resolved⟩
    exact (resolve_stack_eq_ok.mp resolved).1
  · intro accepted
    cases resolved : resolve (stack lowest above) with
    | ok settings => exact ⟨settings, rfl⟩
    | error error =>
      obtain ⟨_, refused⟩ := resolve_stack_eq_error.mp resolved
      cases refused with
      | tempo set outside => exact absurd (accepted.tempo _ set) outside
      | stepsPerBar _ set outside => exact absurd (accepted.stepsPerBar _ set) outside
      | channel _ _ set outside => exact absurd (accepted.channel _ set) outside
  · intro settings resolved
    exact ⟨(resolve_stack_eq_ok.mp resolved).2, (inRange_of_resolve resolved).microsecondsPerBeat⟩
  · intro error
    rw [resolve_stack_eq_error]
    exact exists_congr fun name => (and_iff_left_of_imp Refused.kind).symm

/-- A tempo and a channel out of range below good ones, and a velocity that is too high; then
two settings out of range at once. -/
theorem resolve_stack_overridden :
    resolve (stack { title := some "Song", tempo := some 3, velocity := some 80 }
        [{ tempo := some 4, channel := some 16 }, { channel := some 15, velocity := some 500 }]) =
      .ok { title := some "Song", tempo := 4, stepsPerBar := 4, velocity := 127, channel := 15 } ∧
    ∃ error, resolve (stack { tempo := some 90 } [{ stepsPerBar := some 0, channel := some 3 }, { channel := some (-1) }]) =
      .error error ∧ error.kind = .setting "steps-per-bar" := by
  constructor
  · obtain ⟨accepts, settles, _⟩ := resolve_stack { title := some "Song", tempo := some 3, velocity := some 80 }
      [{ tempo := some 4, channel := some 16 }, { channel := some 15, velocity := some 500 }]
    obtain ⟨settings, resolved⟩ := accepts.mpr
      ⟨fun _ set => (by cases set; decide), nofun, fun _ set => (by cases set; decide)⟩
    obtain ⟨title, tempo, stepsPerBar, velocity, channel⟩ := (settles settings resolved).1
    rw [resolved]
    obtain ⟨_, _, _, _, _⟩ := settings
    cases title
    cases Int.ofNat.inj tempo
    cases Int.ofNat.inj stepsPerBar
    cases Int.ofNat.inj velocity
    cases Int.ofNat.inj channel
    rfl
  · obtain ⟨_, _, refuses⟩ := resolve_stack { tempo := some 90 }
      [{ stepsPerBar := some 0, channel := some 3 }, { channel := some (-1) }]
    have refused : Refused [{ tempo := some 90 }, { stepsPerBar := some 0, channel := some 3 }, { channel := some (-1) }]
        "steps-per-bar" (.stepsPerBar 0) :=
      .stepsPerBar (fun _ set => by cases set; decide) rfl (by decide)
    exact ⟨_, (refuses _).mpr ⟨_, refused, refused.kind⟩, refused.kind⟩

end StepGrid.Proofs.SettingsLayers
