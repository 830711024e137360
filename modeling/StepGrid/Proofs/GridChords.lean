import StepGrid.Grid.Step
import Mathlib.Data.List.Basic
import Mathlib.Data.List.Induction
import Mathlib.Data.List.Perm.Basic

/-! The names of a chord. An array lists them as texts, each as often as it likes, and the
chord has each of them once, at the place of its first occurrence. What has been gathered
after any number of items is the chord of just these items. -/

namespace StepGrid.Proofs.GridChords

def place (items : List Json) (name : String) : Nat := items.findIdx fun item => decide (item.text? = some name)

/-- The names among some texts, in the order of their first occurrences. No two names have
one place, so none of them stands twice. -/
structure Gathers (items : List Json) (names : List String) : Prop where
  texts : ∀ item ∈ items, ∃ text, item = .string text
  mem_iff : ∀ name, name ∈ names ↔ .string name ∈ items
  ordered : names.Pairwise fun first second => place items first < place items second

theorem text?_eq_some {value : Json} {name : String} : value.text? = some name ↔ value = .string name := by
  cases value <;> simp [Json.text?]

section Places
variable {items later : List Json} {name : String}

theorem place_lt_length : place items name < items.length ↔ .string name ∈ items := by
  simp only [place, List.findIdx_lt_length, decide_eq_true_eq, text?_eq_some, exists_eq_right]

theorem place_append (member : .string name ∈ items) : place (items ++ later) name = place items name := by
  have inside := place_lt_length.mpr member
  unfold place at inside ⊢
  rw [List.findIdx_append, if_pos inside]

theorem length_le_place_append (absent : .string name ∉ items) : items.length ≤ place (items ++ later) name := by
  have outside := place_lt_length.not.mpr absent
  unfold place at outside ⊢
  rw [List.findIdx_append, if_neg outside]
  exact Nat.le_add_left _ _

end Places

namespace Gathers
variable {items : List Json} {names : List String} {name : String}

theorem nodup (gathers : Gathers items names) : names.Nodup :=
  gathers.ordered.imp fun before same => Nat.ne_of_lt before (congrArg (place items) same)

theorem ne_nil (gathers : Gathers items names) (filled : items ≠ []) : names ≠ [] := by
  obtain ⟨item, member⟩ := List.exists_mem_of_ne_nil items filled
  obtain ⟨text, rfl⟩ := gathers.texts item member
  exact List.ne_nil_of_mem ((gathers.mem_iff text).mpr member)

theorem unique {other : List String} (gathers : Gathers items names) (again : Gathers items other) :
    other = names := by
  have same : other.Perm names := by
    apply (List.perm_ext_iff_of_nodup again.nodup gathers.nodup).mpr
    intro name
    exact (again.mem_iff name).trans (gathers.mem_iff name).symm
  exact same.eq_of_pairwise (fun _ _ _ _ before after => absurd after (Nat.lt_asymm before)) again.ordered gathers.ordered

theorem nil : Gathers [] [] := ⟨nofun, fun _ => iff_of_false nofun nofun, .nil⟩

/-- Names that are there already keep their places when more items come. -/
theorem ordered_append (gathers : Gathers items names) (later : List Json) :
    names.Pairwise fun first second => place (items ++ later) first < place (items ++ later) second := by
  apply gathers.ordered.imp_of_mem
  intro first second firstMember secondMember before
  rwa [place_append ((gathers.mem_iff first).mp firstMember), place_append ((gathers.mem_iff second).mp secondMember)]

theorem texts_append (gathers : Gathers items names) (name : String) :
    ∀ item ∈ items ++ [.string name], ∃ text, item = .string text := by
  intro item member
  rcases List.mem_append.mp member with old | new
  · exact gathers.texts item old
  · exact ⟨name, List.mem_singleton.mp new⟩

private theorem append_known (gathers : Gathers items names) (known : name ∈ names) :
    Gathers (items ++ [.string name]) names where
  texts := gathers.texts_append name
  mem_iff other := by
    simp only [List.mem_append, List.mem_singleton, Json.string.injEq, ← gathers.mem_iff]
    constructor
    · exact .inl
    · rintro (old | rfl)
      · exact old
      · exact known
  ordered := gathers.ordered_append _

private theorem append_new (gathers : Gathers items names) (new : name ∉ names) :
    Gathers (items ++ [.string name]) (names ++ [name]) where
  texts := gathers.texts_append name
  mem_iff other := by
    simp only [List.mem_append, List.mem_singleton, Json.string.injEq, gathers.mem_iff]
  ordered := by
    apply List.pairwise_append.mpr
    refine ⟨gathers.ordered_append _, List.pairwise_singleton _ _, ?_⟩
    intro first firstMember last lastMember
    cases List.mem_singleton.mp lastMember
    -- The new name stands behind all items so far, every other name among them.
    have early := (gathers.mem_iff first).mp firstMember
    have absent := (gathers.mem_iff name).not.mp new
    rw [place_append early]
    exact Nat.lt_of_lt_of_le (place_lt_length.mpr early) (length_le_place_append absent)

/-- Gathering goes on from the names of any items before. -/
theorem chordNames {done : List Json} {kept : List String} (gathers : Gathers done kept)
    (found : Step.chordNames kept items = some names) : Gathers (done ++ items) names := by
  fun_induction Step.chordNames kept items generalizing done with
  | case1 kept =>
    cases found
    rwa [List.append_nil]
  | case2 kept item others foreign => cases found
  | case3 kept item others name named known ih =>
    cases text?_eq_some.mp named
    rw [List.append_cons]
    exact ih (gathers.append_known known) found
  | case4 kept item others name named new ih =>
    cases text?_eq_some.mp named
    rw [List.append_cons]
    exact ih (gathers.append_new new) found

end Gathers

theorem gathers_of_chordNames {items : List Json} {names : List String}
    (found : Step.chordNames [] items = some names) : Gathers items names := Gathers.nil.chordNames found

/-- Gathering fails at an item that is no text, whatever has been gathered before it. -/
theorem chordNames_eq_none {kept : List String} {items : List Json} :
    Step.chordNames kept items = none ↔ ∃ item ∈ items, ∀ text, item ≠ .string text := by
  fun_induction Step.chordNames kept items with
  | case1 kept => exact iff_of_false nofun nofun
  | case2 kept item others foreign =>
    refine iff_of_true rfl ⟨item, List.mem_cons_self, fun text same => ?_⟩
    cases foreign.symm.trans (text?_eq_some.mpr same)
  | case3 kept item others name named known ih =>
    cases text?_eq_some.mp named
    rw [ih]
    simp
  | case4 kept item others name named new ih =>
    cases text?_eq_some.mp named
    rw [ih]
    simp

theorem classify_array_eq {items : List Json} (filled : items ≠ []) :
    Step.classify (.array items) = (Step.chordNames [] items).map .chord := by
  cases items with
  | nil => exact absurd rfl filled
  | cons item others => rfl

private theorem classify_of_gathers {items : List Json} {names : List String} (filled : items ≠ [])
    (gathers : Gathers items names) :
    Step.classify (.array items) = some (.chord names) := by
  rw [classify_array_eq filled]
  cases found : Step.chordNames [] items with
  | none =>
    obtain ⟨item, member, foreign⟩ := chordNames_eq_none.mp found
    obtain ⟨text, same⟩ := gathers.texts item member
    exact absurd same (foreign text)
  | some others => rw [gathers.unique (gathers_of_chordNames found), Option.map_some]

theorem gathers_map_string {names : List String} (distinct : names.Nodup) : Gathers (names.map .string) names := by
  induction names using List.reverseRecOn with
  | nil => exact .nil
  | append_singleton names name ih =>
    obtain ⟨before, _, apart⟩ := List.nodup_append.mp distinct
    rw [List.map_append]
    exact (ih before).append_new fun member => apart name member name (List.mem_singleton.mpr rfl) rfl

theorem classify_array_eq_none {items : List Json} :
    Step.classify (.array items) = none ↔ ∃ item ∈ items, ∀ text, item ≠ .string text := by
  cases items with
  | nil => exact iff_of_false nofun nofun
  | cons item others => rw [classify_array_eq (List.cons_ne_nil _ _), Option.map_eq_none_iff, chordNames_eq_none]

theorem classify_array_eq_rest {items : List Json} : Step.classify (.array items) = some .rest ↔ items = [] := by
  constructor
  · intro rest
    by_contra filled
    rw [classify_array_eq filled] at rest
    obtain ⟨_, _, chord⟩ := Option.map_eq_some_iff.mp rest
    cases chord
  · rintro rfl
    rfl

/-- An array is no step if anything in it is no text, else a rest if it is empty and a chord
if it is not. A chord has the names of the array once each, in the order of their first
occurrences, and no other names in no other order would do. -/
theorem classify_array (items : List Json) :
    (Step.classify (.array items) = none ↔ ∃ item ∈ items, ∀ text, item ≠ .string text) ∧
    (Step.classify (.array items) = some .rest ↔ items = []) ∧
    (items = [] ∨ (∃ item ∈ items, ∀ text, item ≠ .string text) ∨
      ∃ names, Step.classify (.array items) = some (.chord names) ∧ names ≠ [] ∧ names.Nodup ∧ Gathers items names ∧
        (∀ other, Gathers items other → other = names) ∧
        Step.classify (.array (names.map .string)) = some (.chord names)) := by
  refine ⟨classify_array_eq_none, classify_array_eq_rest, ?_⟩
  by_cases empty : items = []
  · exact .inl empty
  right
  rw [← classify_array_eq_none, classify_array_eq empty]
  cases found : Step.chordNames [] items with
  | none => exact .inl rfl
  | some names =>
    have gathers := gathers_of_chordNames found
    have filled := gathers.ne_nil empty
    refine .inr ⟨names, rfl, filled, gathers.nodup, gathers, fun _ => gathers.unique, ?_⟩
    exact classify_of_gathers (List.map_eq_nil_iff.not.mpr filled) (gathers_map_string gathers.nodup)

/-- A name that comes again later leaves the order as it is. -/
example : Step.classify (.array [.string "E4", .string "C4", .string "E4", .string "G4", .string "C4"]) =
    some (.chord ["E4", "C4", "G4"]) := by decide

end StepGrid.Proofs.GridChords
