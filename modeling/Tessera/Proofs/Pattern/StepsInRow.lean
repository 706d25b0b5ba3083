import Mathlib.Data.List.Basic
import Tessera.Pattern.Basic

/-!
# Steps in a row

Offsets are reached by steps in a row that never lead back. Marks that are set level by level are
set where some number of steps leads, and steps beyond the length of the text lead to nothing new.
-/

set_option autoImplicit false

namespace Tessera.Pattern

/-- Whether some number of steps leads from an offset to another. -/
def InRow (leads : Nat → Nat → Prop) : (count start stop : Nat) → Prop
  | 0, start, stop => stop = start
  | count + 1, start, stop => ∃ between, leads start between ∧ InRow leads count between stop

/-- Whether steps from offsets of a text never lead back, nor out of the text. -/
def Advances (size : Nat) (leads : Nat → Nat → Prop) : Prop :=
  ∀ start stop, start ≤ size → leads start stop → start ≤ stop ∧ stop ≤ size

/-- Whether a function gives the offsets that one step leads to, from all offsets of a list. -/
def Gathers (size : Nat) (leads : Nat → Nat → Prop) (step : List Nat → List Nat) : Prop :=
  ∀ places, (∀ place ∈ places, place ≤ size) →
    ∀ stop, stop ∈ step places ↔ ∃ start ∈ places, leads start stop

variable {size : Nat} {leads : Nat → Nat → Prop} {step : List Nat → List Nat}

/-! ## Gathering -/

namespace Gathers

theorem inside (gathers : Gathers size leads step) (advances : Advances size leads)
    {places : List Nat} (placesInside : ∀ place ∈ places, place ≤ size) :
    ∀ place ∈ step places, place ≤ size := by
  intro place member
  obtain ⟨start, listed, led⟩ := (gathers places placesInside place).mp member
  exact (advances start place (placesInside start listed) led).2

theorem nil (gathers : Gathers size leads step) : step [] = [] := by
  rw [List.eq_nil_iff_forall_not_mem]
  intro stop member
  obtain ⟨start, listed, -⟩ := (gathers [] nofun stop).mp member
  cases listed

theorem congr (gathers : Gathers size leads step) {others : Nat → Nat → Prop}
    (same : ∀ start stop, start ≤ size → (leads start stop ↔ others start stop)) :
    Gathers size others step := by
  intro places placesInside stop
  rw [gathers places placesInside]
  refine exists_congr fun start => and_congr_right fun listed => ?_
  exact same start stop (placesInside start listed)

theorem andThen (gathers : Gathers size leads step) (advances : Advances size leads)
    {further : Nat → Nat → Prop} {next : List Nat → List Nat}
    (nextGathers : Gathers size further next) :
    Gathers size (fun start stop => ∃ between, leads start between ∧ further between stop)
      (fun places => next (step places)) := by
  intro places placesInside stop
  rw [nextGathers _ (gathers.inside advances placesInside)]
  constructor
  · intro ⟨between, member, led⟩
    obtain ⟨start, listed, ledBefore⟩ := (gathers places placesInside between).mp member
    exact ⟨start, listed, between, ledBefore, led⟩
  · intro ⟨start, listed, between, ledBefore, led⟩
    have member := (gathers places placesInside between).mpr ⟨start, listed, ledBefore⟩
    exact ⟨between, member, led⟩

end Gathers

/-! ## Rows of steps -/

theorem inRow_add_iff {front back start stop : Nat} :
    InRow leads (front + back) start stop ↔
      ∃ between, InRow leads front start between ∧ InRow leads back between stop := by
  induction front generalizing start with
  | zero =>
      rw [Nat.zero_add]
      constructor
      · intro row
        exact ⟨start, rfl, row⟩
      · intro ⟨between, same, row⟩
        cases same
        exact row
  | succ front ih =>
      rw [Nat.add_right_comm]
      constructor
      · intro ⟨next, led, row⟩
        obtain ⟨between, first, second⟩ := ih.mp row
        exact ⟨between, ⟨next, led, first⟩, second⟩
      · intro ⟨between, ⟨next, led, first⟩, second⟩
        exact ⟨next, led, ih.mpr ⟨between, first, second⟩⟩

namespace Advances

variable (advances : Advances size leads)

include advances

theorem inRow (count : Nat) : Advances size (InRow leads count) := by
  induction count with
  | zero =>
      intro start stop inside row
      cases row
      exact ⟨Nat.le_refl _, inside⟩
  | succ count ih =>
      intro start stop inside row
      obtain ⟨between, led, further⟩ := row
      obtain ⟨ahead, betweenInside⟩ := advances start between inside led
      obtain ⟨furtherAhead, stopInside⟩ := ih between stop betweenInside further
      exact ⟨Nat.le_trans ahead furtherAhead, stopInside⟩

/-- Of more steps than there are offsets ahead, at least one stays where it is. -/
theorem exists_stay {count start stop : Nat} (inside : start ≤ size)
    (row : InRow leads count start stop) (many : size < start + count) :
    ∃ front back place, front + 1 + back = count ∧ InRow leads front start place ∧
      leads place place ∧ InRow leads back place stop := by
  induction count generalizing start with
  | zero => omega
  | succ count ih =>
      obtain ⟨between, led, further⟩ := row
      obtain ⟨ahead, betweenInside⟩ := advances start between inside led
      rcases Nat.eq_or_lt_of_le ahead with same | moved
      · subst same
        exact ⟨0, count, start, by omega, rfl, led, further⟩
      · obtain ⟨front, back, place, total, before, stays, behind⟩ :=
          ih betweenInside further (by omega)
        exact ⟨front + 1, back, place, by omega, ⟨between, led, before⟩, stays, behind⟩

/-- Where there are more steps than offsets ahead, one more or less leads to the same. -/
theorem inRow_succ_iff {count start stop : Nat} (inside : start ≤ size)
    (many : size < start + count) :
    InRow leads (count + 1) start stop ↔ InRow leads count start stop := by
  constructor
  · intro row
    obtain ⟨front, back, place, total, before, -, behind⟩ :=
      advances.exists_stay inside row (by omega)
    have fewer : front + back = count := by omega
    rw [← fewer]
    exact inRow_add_iff.mpr ⟨place, before, behind⟩
  · intro row
    obtain ⟨front, back, place, total, before, stays, behind⟩ :=
      advances.exists_stay inside row many
    have more : front + (back + 1 + 1) = count + 1 := by omega
    rw [← more]
    exact inRow_add_iff.mpr ⟨place, before, place, stays, place, stays, behind⟩

theorem inRow_min_iff {count start stop : Nat} (inside : start ≤ size) :
    InRow leads (min count (size + 1)) start stop ↔ InRow leads count start stop := by
  rcases Nat.le_total count (size + 1) with few | many
  · rw [Nat.min_eq_left few]
  · rw [Nat.min_eq_right many]
    obtain ⟨more, rfl⟩ := Nat.exists_eq_add_of_le many
    induction more with
    | zero => rfl
    | succ more ih =>
        exact (ih (by omega)).trans (advances.inRow_succ_iff inside (by omega)).symm

end Advances

theorem gathers_times (advances : Advances size leads) (gathers : Gathers size leads step)
    (count : Nat) : Gathers size (InRow leads count) (times step count) := by
  induction count with
  | zero =>
      intro places inside stop
      simp [times, InRow]
  | succ count ih =>
      intro places inside stop
      rw [times]
      split
      · next empty =>
          rw [List.isEmpty_iff.mp empty]
          simp
      · exact gathers.andThen advances ih places inside stop

/-! ## Marks -/

def Marked (marks : Array Bool) (place : Nat) : Prop := marks[place]? = some true

theorem getD_false_iff {marks : Array Bool} {place : Nat} :
    marks.getD place false = true ↔ Marked marks place := by
  rw [Marked, Array.getD_eq_getD_getElem?]
  cases marks[place]? <;> simp

theorem getD_true_iff {marks : Array Bool} {place : Nat} :
    marks.getD place true = true ↔ (place < marks.size → Marked marks place) := by
  rw [Marked, Array.getD_eq_getD_getElem?]
  rcases Nat.lt_or_ge place marks.size with inside | outside
  · simp [inside]
  · simp [Nat.not_lt.mpr outside]

theorem marked_setIfInBounds_iff {marks : Array Bool} {place other : Nat}
    (inside : place < marks.size) :
    Marked (marks.setIfInBounds place true) other ↔ Marked marks other ∨ other = place := by
  unfold Marked
  rcases eq_or_ne place other with rfl | apart
  · simp [inside]
  · simp [Array.getElem?_setIfInBounds_ne apart, apart.symm]

/-- What marking offsets one by one comes to: all of them bear marks, and those are listed that bore
none before. -/
structure Marks (before : Array Bool) (places fresh : List Nat) (after : Array Bool) : Prop where
  size_eq : after.size = before.size
  marked_iff : ∀ place, Marked after place ↔
    Marked before place ∨ place ∈ places ∧ place < before.size
  mem_iff : ∀ place, place ∈ fresh ↔
    place ∈ places ∧ place < before.size ∧ ¬ Marked before place

theorem Marks.mark {before : Array Bool} {places : List Nat} {known : List Nat × Array Bool}
    (marks : Marks before places known.1 known.2) (place : Nat) :
    Marks before (place :: places) (mark known place).1 (mark known place).2 := by
  obtain ⟨fresh, marked⟩ := known
  obtain ⟨sizeEq, markedIff, memIff⟩ := marks
  rw [Pattern.mark]
  split
  · next settled =>
      rw [getD_true_iff, sizeEq, markedIff] at settled
      refine ⟨sizeEq, fun other => ?_, fun other => ?_⟩
      · rw [markedIff, List.mem_cons]
        grind
      · rw [memIff, List.mem_cons]
        grind
  · next unsettled =>
      rw [getD_true_iff, Classical.not_imp, sizeEq, markedIff] at unsettled
      obtain ⟨inside, unmarked⟩ := unsettled
      refine ⟨by simp [sizeEq], fun other => ?_, fun other => ?_⟩
      · dsimp only
        rw [marked_setIfInBounds_iff (sizeEq ▸ inside), markedIff, List.mem_cons]
        grind
      · rw [List.mem_cons, memIff, List.mem_cons]
        grind

theorem marks_markAll (before : Array Bool) (places : List Nat) :
    Marks before places (markAll before places).1 (markAll before places).2 := by
  have marked (known : List Nat × Array Bool) (done : List Nat)
      (marks : Marks before done known.1 known.2) :
      Marks before (places.reverse ++ done) (places.foldl mark known).1
        (places.foldl mark known).2 := by
    induction places generalizing known done with
    | nil => exact marks
    | cons place rest ih =>
        rw [List.reverse_cons, List.append_assoc]
        exact ih _ _ (marks.mark place)
  have start : Marks before [] ([] : List Nat) before :=
    ⟨rfl, fun _ => by simp, fun _ => by simp⟩
  obtain ⟨sizeEq, markedIff, memIff⟩ := marked ([], before) [] start
  rw [List.append_nil] at markedIff memIff
  refine ⟨sizeEq, fun place => ?_, fun place => ?_⟩
  · rw [← @List.mem_reverse _ place places]
    exact markedIff place
  · rw [← @List.mem_reverse _ place places, markAll, List.mem_reverse]
    exact memIff place

/-! ## Levels of marks -/

theorem spread_nil (nothing : step [] = []) (count : Nat) (marks : Array Bool) :
    spread step count marks [] = marks := by
  cases count with
  | zero => rfl
  | succ count =>
      rw [spread, nothing]
      rfl

/-- Stopping where nothing new is marked makes no difference. -/
theorem spread_succ (nothing : step [] = []) (count : Nat) (marks : Array Bool)
    (places : List Nat) : spread step (count + 1) marks places =
      spread step count (markAll marks (step places)).2 (markAll marks (step places)).1 := by
  rw [spread]
  obtain ⟨fresh, marked⟩ := markAll marks (step places)
  cases fresh with
  | nil => exact (spread_nil nothing count marked).symm
  | cons => rfl

/-- Marks are spread to where at most a number of steps leads from an offset that bears one, if the
steps from all marked offsets but some new ones were taken before. -/
theorem marked_spread_iff (gathers : Gathers size leads step) (advances : Advances size leads)
    {count : Nat} {marks : Array Bool} {places : List Nat} (whole : marks.size = size + 1)
    (listed : ∀ place ∈ places, Marked marks place)
    (taken : ∀ place, Marked marks place → place ∉ places → ∀ stop, leads place stop →
      Marked marks stop) {stop : Nat} :
    Marked (spread step count marks places) stop ↔
      ∃ start, Marked marks start ∧ ∃ steps ≤ count, InRow leads steps start stop := by
  have inside {marks : Array Bool} (whole : marks.size = size + 1) {place : Nat}
      (marked : Marked marks place) : place ≤ size := by
    have := (Array.getElem?_eq_some_iff.mp marked).1
    omega
  induction count generalizing marks places with
  | zero =>
      rw [spread]
      constructor
      · intro marked
        exact ⟨stop, marked, 0, Nat.le_refl 0, rfl⟩
      · intro ⟨start, marked, steps, noneTaken, row⟩
        cases Nat.le_zero.mp noneTaken
        cases row
        exact marked
  | succ count ih =>
      have placesInside : ∀ place ∈ places, place ≤ size :=
        fun place member => inside whole (listed place member)
      obtain ⟨sizeEq, markedIff, memIff⟩ := marks_markAll marks (step places)
      have ledInside := gathers.inside advances placesInside
      -- Whatever bears a mark leads to nothing but marks then.
      have ledMarked : ∀ place, Marked marks place → ∀ stop, leads place stop →
          Marked (markAll marks (step places)).2 stop := by
        intro place marked stop led
        rw [markedIff]
        by_cases member : place ∈ places
        · have reached := (gathers places placesInside stop).mpr ⟨place, member, led⟩
          exact .inr ⟨reached, by have := ledInside stop reached; omega⟩
        · exact .inl (taken place marked member stop led)
      have freshListed : ∀ place ∈ (markAll marks (step places)).1,
          Marked (markAll marks (step places)).2 place := by
        intro place fresh
        obtain ⟨reached, within, -⟩ := (memIff place).mp fresh
        exact (markedIff place).mpr (.inr ⟨reached, within⟩)
      have othersTaken : ∀ place, Marked (markAll marks (step places)).2 place →
          place ∉ (markAll marks (step places)).1 → ∀ stop, leads place stop →
            Marked (markAll marks (step places)).2 stop := by
        intro place marked notFresh stop led
        refine ledMarked place ?_ stop led
        by_contra unmarked
        obtain ⟨reached, within⟩ := ((markedIff place).mp marked).resolve_left unmarked
        exact notFresh ((memIff place).mpr ⟨reached, within, unmarked⟩)
      rw [spread_succ gathers.nil]
      refine (ih (sizeEq.trans whole) freshListed othersTaken).trans ?_
      constructor
      · intro ⟨start, marked, steps, few, row⟩
        rcases (markedIff start).mp marked with old | ⟨reached, -⟩
        · exact ⟨start, old, steps, by omega, row⟩
        · obtain ⟨before, member, led⟩ := (gathers places placesInside start).mp reached
          exact ⟨before, listed before member, steps + 1, by omega, start, led, row⟩
      · intro ⟨start, marked, steps, few, row⟩
        cases steps with
        | zero => exact ⟨start, (markedIff start).mpr (.inl marked), 0, Nat.zero_le _, row⟩
        | succ steps =>
            obtain ⟨between, led, further⟩ := row
            exact ⟨between, ledMarked start marked between led, steps, by omega, further⟩

theorem gathers_upTo {text : Array Char} (advances : Advances text.size leads)
    (gathers : Gathers text.size leads step) (count : Nat) :
    Gathers text.size (fun start stop => ∃ steps ≤ count, InRow leads steps start stop)
      (upTo text step count) := by
  intro places inside stop
  have unmarked : ∀ place, ¬ Marked (Array.replicate (text.size + 1) false) place := by
    intro place marked
    obtain ⟨_, wrong⟩ := Array.getElem?_eq_some_iff.mp marked
    simp at wrong
  obtain ⟨sizeEq, markedIff, memIff⟩ :=
    marks_markAll (Array.replicate (text.size + 1) false) places
  rw [Array.size_replicate] at sizeEq markedIff memIff
  have markedPlaces : ∀ place,
      Marked (markAll (Array.replicate (text.size + 1) false) places).2 place ↔ place ∈ places := by
    intro place
    rw [markedIff, or_iff_right (unmarked place)]
    exact and_iff_left_of_imp fun member => Nat.lt_succ_of_le (inside place member)
  have freshPlaces : ∀ place,
      place ∈ (markAll (Array.replicate (text.size + 1) false) places).1 ↔ place ∈ places := by
    intro place
    rw [memIff]
    exact and_iff_left_of_imp fun member =>
      ⟨Nat.lt_succ_of_le (inside place member), unmarked place⟩
  have spreadIff : Marked (spread step count
      (markAll (Array.replicate (text.size + 1) false) places).2
      (markAll (Array.replicate (text.size + 1) false) places).1) stop ↔
      ∃ start ∈ places, ∃ steps ≤ count, InRow leads steps start stop := by
    rw [marked_spread_iff gathers advances sizeEq]
    · simp only [markedPlaces]
    · intro place member
      exact (markedPlaces place).mpr ((freshPlaces place).mp member)
    · intro place marked notFresh
      exact absurd ((freshPlaces place).mpr ((markedPlaces place).mp marked)) notFresh
  simp only [upTo, List.mem_filter, List.mem_range, getD_false_iff, spreadIff]
  refine and_iff_right_of_imp ?_
  intro ⟨start, listed, steps, _, row⟩
  exact Nat.lt_succ_of_le (advances.inRow steps start stop (inside start listed) row).2

end Tessera.Pattern
