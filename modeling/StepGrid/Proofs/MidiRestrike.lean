import StepGrid.Proofs.MidiSchedule
import StepGrid.Proofs.MidiTicks
import Mathlib.Order.CompletePartialOrder
import Mathlib.Order.Interval.Set.Disjoint

/-! Whether a key is released before it is struck again. Sorting settles this for messages
on one tick, but a note shorter than a tick ends a tick after its strike, and by then its
key may have been struck again. -/

namespace StepGrid.Proofs.MidiRestrike
open Midi MidiSchedule MidiTicks

/-- Strikes and releases in turn, a strike first and a release last. -/
def Alternating : List Timed → Prop
  | [] => True
  | [_] => False
  | first :: second :: rest =>
    first.message.isStrike = true ∧ second.message.isStrike = false ∧ Alternating rest

/-- The notes of one key, one after the other, each released before the next strike. -/
def Apart (row : List NoteEvent) : Prop := row.Pairwise fun first second => off first ≤ on second

def Before (first second : Timed) : Prop :=
  Timed.precedes first second = true ∧ ¬ Timed.precedes second first = true

theorem alternating_flatMap (row : List NoteEvent) : Alternating (row.flatMap Timed.ofEvent) := by
  induction row with
  | nil => trivial
  | cons event rest ih => exact ⟨rfl, rfl, ih⟩

theorem before_of_lt {first second : Timed} (less : first.tick < second.tick) : Before first second := by
  rw [Before, precedes_iff, precedes_iff]
  omega

/-- Notes that are apart leave no choice to sorting. -/
theorem Apart.before {row : List NoteEvent} (apart : Apart row) : (row.flatMap Timed.ofEvent).Pairwise Before := by
  refine List.pairwise_flatMap.mpr ⟨?_, apart.imp ?_⟩
  · intro event _
    rw [ofEvent_eq]
    exact List.pairwise_pair.mpr (before_of_lt (on_lt_off event))
  · intro first second between one oneMember other otherMember
    rw [ofEvent_eq, List.mem_pair] at oneMember otherMember
    have between : off first ≤ on second := between
    have lastsFirst := on_lt_off first
    have lastsSecond := on_lt_off second
    rcases oneMember with rfl | rfl
    · rcases otherMember with rfl | rfl
      · exact before_of_lt (Nat.lt_of_lt_of_le lastsFirst between)
      · exact before_of_lt (by simp only [struck, released]; omega)
    · rcases otherMember with rfl | rfl
      · rcases Nat.lt_or_eq_of_le between with less | equal
        · exact before_of_lt less
        · simp [Before, precedes_iff, released, struck, Message.isStrike, equal]
      · exact before_of_lt (by simp only [released]; omega)

private theorem eq_of_pairwise_before {timed : List Timed} (distinct : timed.Pairwise Before) {first second : Timed}
    (firstMember : first ∈ timed) (secondMember : second ∈ timed) (forth : Timed.precedes first second = true)
    (back : Timed.precedes second first = true) : first = second := by
  induction timed with
  | nil => cases firstMember
  | cons one rest ih =>
    obtain ⟨later, distinctRest⟩ := List.pairwise_cons.mp distinct
    rcases List.mem_cons.mp firstMember with rfl | firstRest
    · rcases List.mem_cons.mp secondMember with rfl | secondRest
      · rfl
      · exact absurd back (later second secondRest).2
    · rcases List.mem_cons.mp secondMember with rfl | secondRest
      · exact absurd forth (later first firstRest).2
      · exact ih distinctRest firstRest secondRest

private theorem onKey_flatMap (events : List NoteEvent) (wanted : Nat × Nat) :
    onKey wanted (events.flatMap Timed.ofEvent) = (events.filter (key · = wanted)).flatMap Timed.ofEvent := by
  induction events with
  | nil => rfl
  | cons event rest ih =>
    rw [List.flatMap_cons, onKey_append, ih]
    have keyOf_ofEvent : ∀ one ∈ Timed.ofEvent event, keyOf one.message = key event := by
      intro one member
      rw [ofEvent_eq, List.mem_pair] at member
      rcases member with rfl | rfl <;> rfl
    by_cases same : key event = wanted
    · have kept : onKey wanted (Timed.ofEvent event) = Timed.ofEvent event :=
        List.filter_eq_self.mpr fun one member => decide_eq_true ((keyOf_ofEvent one member).trans same)
      rw [kept, List.filter_cons, if_pos (decide_eq_true same), List.flatMap_cons]
    · have left : onKey wanted (Timed.ofEvent event) = [] :=
        List.filter_eq_nil_iff.mpr fun one member equal =>
          same ((keyOf_ofEvent one member).symm.trans (of_decide_eq_true equal))
      rw [left, List.filter_cons, if_neg (by simpa using same), List.nil_append]

theorem onKey_schedule {events row : List NoteEvent} {wanted : Nat × Nat}
    (same : row.Perm (events.filter (key · = wanted))) (apart : Apart row) :
    onKey wanted (schedule events) = row.flatMap Timed.ofEvent := by
  have sorted : (onKey wanted (schedule events)).Pairwise (Timed.precedes · ·) :=
    (schedule_sorted events).sublist List.filter_sublist
  have permuted : (onKey wanted (schedule events)).Perm (row.flatMap Timed.ofEvent) := by
    refine ((schedule_perm events).filter _).trans ?_
    rw [← onKey, onKey_flatMap]
    exact same.symm.flatMap_right _
  have distinct := apart.before
  refine List.Perm.eq_of_pairwise ?_ sorted (distinct.imp And.left) permuted
  intro first second firstMember secondMember forth back
  exact eq_of_pairwise_before distinct (permuted.mem_iff.mp firstMember) secondMember forth back

/-- In a sorted row a release between two strikes takes at least a tick. -/
theorem strikes_lt_of_alternating {timed : List Timed} (alternating : Alternating timed)
    (sorted : timed.Pairwise (Timed.precedes · ·)) :
    ((timed.filter (·.message.isStrike)).map (·.tick)).Pairwise (· < ·) := by
  fun_induction Alternating timed with
  | case1 => exact .nil
  | case2 => cases alternating
  | case3 first second rest ih =>
    obtain ⟨strike, release, alternatingRest⟩ := alternating
    obtain ⟨afterFirst, sortedTail⟩ := List.pairwise_cons.mp sorted
    obtain ⟨afterSecond, sortedRest⟩ := List.pairwise_cons.mp sortedTail
    rw [List.filter_cons, if_pos strike, List.filter_cons, if_neg (by simp [release]), List.map_cons]
    refine .cons ?_ (ih alternatingRest sortedRest)
    intro tick member
    obtain ⟨later, present, rfl⟩ := List.mem_map.mp member
    have strictly : first.tick < second.tick := by
      rcases precedes_iff.mp (afterFirst second (by simp)) with less | ⟨_, strikes⟩
      · exact less
      · exact absurd (strikes strike) (by simp [release])
    exact Nat.lt_of_lt_of_le strictly (tick_le_of_precedes (afterSecond later (List.mem_filter.mp present).1))

private theorem strikes_onKey_perm (events : List NoteEvent) (wanted : Nat × Nat) :
    (((onKey wanted (schedule events)).filter (·.message.isStrike)).map (·.tick)).Perm
      ((events.filter (key · = wanted)).map on) := by
  have permuted := (((schedule_perm events).filter (keyOf ·.message = wanted)).filter (·.message.isStrike)).map (·.tick)
  rw [← onKey, ← onKey, onKey_flatMap, strikes_flatMap, List.map_map] at permuted
  exact permuted

/-- A key that is not struck twice on one tick is released in time: rounding keeps the
order of an end and a later start, and so does the shortest length of a note. -/
theorem off_le_on {first second : NoteEvent} (lastsFirst : 0 < first.duration) (lastsSecond : 0 < second.duration)
    (disjoint : Disjoint (Set.Ico first.start first.finish) (Set.Ico second.start second.finish))
    (ordered : on first < on second) : off first ≤ on second := by
  have beginsFirst : first.start < first.finish := by
    unfold NoteEvent.finish
    linarith
  have beginsSecond : second.start < second.finish := by
    unfold NoteEvent.finish
    linarith
  have ends : first.finish ≤ second.start := by
    rcases min_le_iff.mp (Set.Ico_disjoint_Ico.mp disjoint) with early | late
    · rcases le_max_iff.mp early with impossible | ends
      · exact absurd impossible (not_le_of_gt beginsFirst)
      · exact ends
    · rcases le_max_iff.mp late with reversed | impossible
      · exact absurd (ticks_mono (le_trans beginsSecond.le reversed)) (Nat.not_le_of_lt ordered)
      · exact absurd impossible (not_le_of_gt beginsSecond)
  exact Nat.max_le.mpr ⟨ticks_mono ends, ordered⟩

def Free (events : List NoteEvent) : Prop :=
  events.Pairwise fun first second => key first = key second →
    Disjoint (Set.Ico first.start first.finish) (Set.Ico second.start second.finish)

/-- Notes of one key, ordered by their strikes, are apart if no two share a tick. -/
theorem exists_apart {events : List NoteEvent} (lasting : ∀ event ∈ events, 0 < event.duration) (free : Free events)
    (distinct : events.Pairwise fun first second => key first = key second → on first ≠ on second)
    (wanted : Nat × Nat) : ∃ row : List NoteEvent, row.Perm (events.filter (key · = wanted)) ∧ Apart row := by
  let row := (events.filter (key · = wanted)).mergeSort fun first second => on first ≤ on second
  have permuted : row.Perm (events.filter (key · = wanted)) := List.mergeSort_perm _ _
  refine ⟨row, permuted, ?_⟩
  have sameKey : ∀ event ∈ events.filter (key · = wanted), key event = wanted := by
    intro event member
    exact of_decide_eq_true (List.mem_filter.mp member).2
  have lastingRow : ∀ event ∈ row, 0 < event.duration := by
    intro event member
    exact lasting event (List.mem_filter.mp (permuted.mem_iff.mp member)).1
  have ordered : row.Pairwise fun first second => on first ≤ on second := by
    refine (List.pairwise_mergeSort ?_ ?_ _).imp of_decide_eq_true
    · intro first second third
      simpa using Nat.le_trans
    · intro first second
      simpa using Nat.le_total (on first) (on second)
  have separate : row.Pairwise fun first second => on first ≠ on second ∧
      Disjoint (Set.Ico first.start first.finish) (Set.Ico second.start second.finish) := by
    refine permuted.symm.pairwise ?_ fun one => ⟨one.1.symm, one.2.symm⟩
    refine ((distinct.and free).filter _).imp_of_mem ?_
    intro first second firstMember secondMember both
    have same : key first = key second := (sameKey first firstMember).trans (sameKey second secondMember).symm
    exact ⟨both.1 same, both.2 same⟩
  refine (ordered.and separate).imp_of_mem ?_
  rintro first second firstMember secondMember ⟨le, different, disjoint⟩
  exact off_le_on (lastingRow first firstMember) (lastingRow second secondMember) disjoint
    (Nat.lt_of_le_of_ne le different)

/-- Keys that are free when struck alternate in a track exactly if no key is struck twice
on one tick. Notes shorter than a tick make the difference: two of them may follow one
another within a tick, and each is released a tick after its strike. -/
theorem alternating_iff_distinct_ticks {events : List NoteEvent} {settings : Settings} {track : Track}
    (made : Track.ofEvents events settings = .ok track) (lasting : ∀ event ∈ events, 0 < event.duration)
    (free : Free events) :
    (∀ wanted, Alternating (onKey wanted (messages track))) ↔
      events.Pairwise fun first second => key first = key second → ticks first.start ≠ ticks second.start := by
  rw [messages_ofEvents made]
  constructor
  · intro alternating
    rw [List.pairwise_iff_forall_sublist]
    intro first second pair same
    have sorted : (onKey (key second) (schedule events)).Pairwise (Timed.precedes · ·) :=
      (schedule_sorted events).sublist List.filter_sublist
    have strikes := strikes_lt_of_alternating (alternating (key second)) sorted
    have distinct : ((events.filter (key · = key second)).map on).Nodup :=
      (strikes_onKey_perm events (key second)).nodup (strikes.imp Nat.ne_of_lt)
    have kept : [first, second].Sublist (events.filter (key · = key second)) := by
      simpa [same] using pair.filter (key · = key second)
    have both : on first ≠ on second := by simpa using distinct.sublist (kept.map on)
    exact both
  · intro distinct wanted
    obtain ⟨row, permuted, apart⟩ := exists_apart lasting free distinct wanted
    rw [onKey_schedule permuted apart]
    exact alternating_flatMap row

/-- Two notes of less than a tick on neighbouring ticks: the first ends just when its key
is struck again. -/
theorem short_notes_alternate :
    ∃ track, Track.ofEvents [⟨0, 0, 60, 100, 0, 1 / 2500⟩, ⟨0, 0, 60, 100, 1 / 960, 1 / 2500⟩] {} = .ok track ∧
      ∀ wanted, Alternating (onKey wanted (messages track)) := by
  obtain ⟨track, made⟩ : ∃ track, Track.ofEvents
      [⟨0, 0, 60, 100, 0, 1 / 2500⟩, ⟨0, 0, 60, 100, 1 / 960, 1 / 2500⟩] {} = .ok track :=
    exists_ofEvents (by decide) (by decide) (by decide +kernel)
  refine ⟨track, made, (alternating_iff_distinct_ticks made ?_ ?_).mpr ?_⟩
  · simp only [List.forall_mem_cons]
    norm_num
  · refine List.pairwise_pair.mpr fun _ => Set.Ico_disjoint_Ico.mpr ?_
    norm_num [NoteEvent.finish]
  · exact List.pairwise_pair.mpr fun _ => by decide +kernel

/-- Two notes of less than a tick, the second right after the first: the key is struck
twice before it is released. -/
theorem restruck_before_release :
    ∃ events track, Track.ofEvents events {} = .ok track ∧
      (∀ event ∈ events, 0 ≤ event.start ∧ 0 < event.duration) ∧ Free events ∧
      ¬ Alternating (onKey (0, 60) (messages track)) := by
  obtain ⟨track, made⟩ : ∃ track, Track.ofEvents
      [⟨0, 0, 60, 100, 0, 1 / 2500⟩, ⟨0, 0, 60, 100, 1 / 2500, 1 / 2500⟩] {} = .ok track :=
    exists_ofEvents (by decide) (by decide) (by decide +kernel)
  refine ⟨_, track, made, ?_, ?_, ?_⟩
  · simp only [List.forall_mem_cons]
    norm_num
  · refine List.pairwise_pair.mpr fun _ => Set.Ico_disjoint_Ico.mpr ?_
    norm_num [NoteEvent.finish]
  · intro alternating
    rw [messages_ofEvents made] at alternating
    have strikes := strikes_lt_of_alternating alternating ((schedule_sorted _).sublist List.filter_sublist)
    have distinct := (strikes_onKey_perm _ (0, 60)).nodup (strikes.imp Nat.ne_of_lt)
    exact absurd distinct (by decide +kernel)

end StepGrid.Proofs.MidiRestrike
