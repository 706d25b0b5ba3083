import Tessera.Proofs.Pattern.StepsInRow

/-!
# Parts that fit

Whether a part of a text fits a pattern is said by recursion on the pattern, without any search. The
search by sets of offsets finds exactly the offsets where parts that fit end.
-/

set_option autoImplicit false

namespace Tessera.Pattern

def AcceptedAt (text : Array Char) (characters : CharClass) (place : Nat) : Prop :=
  ∃ c, text[place]? = some c ∧ characters.accepts c = true

/-- Whether the part of a text between two offsets fits a pattern. Beyond the least number of parts
a repetition may take as many more as the greatest number leaves. -/
def Fits (text : Array Char) : Pattern → (start stop : Nat) → Prop
  | .nothing, start, stop => stop = start
  | .one characters, start, stop => stop = start + 1 ∧ AcceptedAt text characters start
  | .anchor condition, start, stop => stop = start ∧ condition.holds text start = true
  | .sequence first second, start, stop =>
    ∃ between, Fits text first start between ∧ Fits text second between stop
  | .choice first second, start, stop => Fits text first start stop ∨ Fits text second start stop
  | .repeated least greatest body, start, stop =>
    ∃ more, (∀ bound ∈ greatest, more ≤ bound - least) ∧
      InRow (Fits text body) (least + more) start stop
  | .run least greatest characters, start, stop =>
    start + least ≤ stop ∧ (∀ bound ∈ greatest, stop ≤ start + bound) ∧
      (∀ place, start ≤ place → place < stop → AcceptedAt text characters place) ∧
      (AcceptedAt text characters stop → greatest = some (stop - start))

/-! ## Characters in a row -/

variable {text : Array Char} {characters : CharClass}

theorem acceptedAt_iff {place : Nat} :
    (text[place]?.map characters.accepts).getD false = true ↔ AcceptedAt text characters place := by
  unfold AcceptedAt
  cases text[place]? <;> simp

theorem AcceptedAt.lt_size {place : Nat} (accepted : AcceptedAt text characters place) :
    place < text.size := by
  obtain ⟨c, stands, -⟩ := accepted
  exact (Array.getElem?_eq_some_iff.mp stands).1

/-- What a run of accepted characters is that is as long as a bound allows. -/
structure IsRun (text : Array Char) (characters : CharClass) (bound start stop : Nat) : Prop where
  start_le : start ≤ stop
  stop_le : stop ≤ start + bound
  accepted : ∀ place, start ≤ place → place < stop → AcceptedAt text characters place
  ended : AcceptedAt text characters stop → stop = start + bound

theorem isRun_runEnd (bound start : Nat) :
    IsRun text characters bound start (runEnd text characters bound start) := by
  induction bound generalizing start with
  | zero =>
      refine ⟨Nat.le_refl _, Nat.le_refl _, ?_, fun _ => rfl⟩
      intro place fromStart toStop
      rw [runEnd] at toStop
      omega
  | succ bound ih =>
      rw [runEnd]
      split
      · next accepted =>
          obtain ⟨startLe, stopLe, others, ended⟩ := ih (start + 1)
          refine ⟨by omega, by omega, ?_, ?_⟩
          · intro place fromStart toStop
            rcases Nat.eq_or_lt_of_le fromStart with rfl | behind
            · exact acceptedAt_iff.mp accepted
            · exact others place behind toStop
          · intro atStop
            have := ended atStop
            omega
      · next refused =>
          refine ⟨Nat.le_refl _, Nat.le_add_right _ _, ?_, ?_⟩
          · intro place fromStart toStop
            omega
          · intro accepted
            exact absurd (acceptedAt_iff.mpr accepted) refused

theorem IsRun.stop_eq {bound start stop other : Nat}
    (run : IsRun text characters bound start stop)
    (others : IsRun text characters bound start other) : stop = other := by
  rcases Nat.lt_trichotomy stop other with before | same | behind
  · have atEnd := run.ended (others.accepted stop run.start_le before)
    have := others.stop_le
    omega
  · exact same
  · have atEnd := others.ended (run.accepted other others.start_le behind)
    have := run.stop_le
    omega

theorem le_size_of_accepted {start stop : Nat} (inside : start ≤ text.size)
    (accepted : ∀ place, start ≤ place → place < stop → AcceptedAt text characters place) :
    stop ≤ text.size := by
  by_contra outside
  have last := accepted text.size inside (by omega)
  exact Nat.lt_irrefl _ last.lt_size

theorem fits_run_iff {greatest : Option Nat} {least start stop : Nat} (inside : start ≤ text.size) :
    Fits text (.run least greatest characters) start stop ↔
      start + least ≤ stop ∧
        IsRun text characters (min (greatest.getD text.size) text.size) start stop := by
  constructor
  · intro ⟨enough, bounded, accepted, ended⟩
    have stopInside := le_size_of_accepted inside accepted
    refine ⟨enough, by omega, ?_, accepted, ?_⟩
    · cases greatest with
      | none =>
          rw [Option.getD_none]
          omega
      | some bound =>
          have := bounded bound rfl
          rw [Option.getD_some]
          omega
    · intro atStop
      have := atStop.lt_size
      rw [ended atStop, Option.getD_some]
      omega
  · intro ⟨enough, isRun⟩
    have stopLe := isRun.stop_le
    refine ⟨enough, ?_, isRun.accepted, ?_⟩
    · intro bound same
      cases same
      rw [Option.getD_some] at stopLe
      omega
    · intro atStop
      have stopInside := atStop.lt_size
      have startLe := isRun.start_le
      have ended := isRun.ended atStop
      cases greatest with
      | none =>
          rw [Option.getD_none] at ended
          omega
      | some bound =>
          rw [Option.getD_some] at ended
          exact congrArg some (by omega)

/-! ## Steps -/

theorem advances_fits (text : Array Char) (pattern : Pattern) :
    Advances text.size (Fits text pattern) := by
  induction pattern with
  | nothing =>
      intro start stop inside fits
      cases fits
      exact ⟨Nat.le_refl _, inside⟩
  | one characters =>
      intro start stop inside fits
      obtain ⟨rfl, accepted⟩ := fits
      exact ⟨Nat.le_succ _, accepted.lt_size⟩
  | anchor condition =>
      intro start stop inside fits
      obtain ⟨rfl, -⟩ := fits
      exact ⟨Nat.le_refl _, inside⟩
  | sequence first second firstIh secondIh =>
      intro start stop inside fits
      obtain ⟨between, firstFits, secondFits⟩ := fits
      obtain ⟨ahead, betweenInside⟩ := firstIh start between inside firstFits
      obtain ⟨further, stopInside⟩ := secondIh between stop betweenInside secondFits
      exact ⟨Nat.le_trans ahead further, stopInside⟩
  | choice first second firstIh secondIh =>
      intro start stop inside fits
      rcases fits with firstFits | secondFits
      · exact firstIh start stop inside firstFits
      · exact secondIh start stop inside secondFits
  | repeated least greatest body ih =>
      intro start stop inside fits
      obtain ⟨more, -, row⟩ := fits
      exact Advances.inRow ih _ start stop inside row
  | run least greatest characters =>
      intro start stop inside fits
      obtain ⟨ahead, -, accepted, -⟩ := fits
      exact ⟨by omega, le_size_of_accepted inside accepted⟩

theorem mem_eraseReps_iff {places : List Nat} {place : Nat} :
    place ∈ places.eraseReps ↔ place ∈ places := by
  have kept (last : Nat) (rest acc : List Nat) :
      place ∈ List.eraseRepsBy.loop (· == ·) last rest acc ↔
        place ∈ last :: rest ∨ place ∈ acc := by
    induction rest generalizing last acc with
    | nil => simp [List.eraseRepsBy.loop, or_comm]
    | cons next rest ih =>
        rw [List.eraseRepsBy.loop]
        split
        · next same =>
            cases eq_of_beq same
            simp [ih]
        · rw [ih]
          simp only [List.mem_cons]
          grind
  cases places with
  | nil => rfl
  | cons first rest =>
      rw [List.eraseReps, List.eraseRepsBy, kept]
      simp

theorem mem_union_iff {places others : List Nat} {place : Nat} :
    place ∈ union places others ↔ place ∈ places ∨ place ∈ others := by
  rw [union, mem_eraseReps_iff, List.mem_merge]

/-- Repeating a pattern with the numbers of parts cut off above the length of the text is enough. -/
theorem fits_repeated_iff {least start stop : Nat} {greatest : Option Nat} {body : Pattern}
    (inside : start ≤ text.size) :
    Fits text (.repeated least greatest body) start stop ↔
      ∃ between, InRow (Fits text body) (min least (text.size + 1)) start between ∧
        ∃ more ≤ (greatest.map fun bound => min (bound - least) (text.size + 1)).getD
            (text.size + 1),
          InRow (Fits text body) more between stop := by
  have advances := advances_fits text body
  constructor
  · intro ⟨more, allowed, row⟩
    obtain ⟨between, front, back⟩ := inRow_add_iff.mp row
    have betweenInside := (advances.inRow least start between inside front).2
    refine ⟨between, (advances.inRow_min_iff inside).mpr front, min more (text.size + 1), ?_,
      (advances.inRow_min_iff betweenInside).mpr back⟩
    cases greatest with
    | none => exact Nat.min_le_right _ _
    | some bound =>
        have := allowed bound rfl
        simp only [Option.map_some, Option.getD_some]
        omega
  · intro ⟨between, front, more, few, back⟩
    refine ⟨more, ?_, inRow_add_iff.mpr ⟨between, (advances.inRow_min_iff inside).mp front, back⟩⟩
    intro bound same
    cases same
    simp only [Option.map_some, Option.getD_some] at few
    omega

/-- A run has one place to end from an offset, if any. -/
theorem gathers_run (text : Array Char) (least : Nat) (greatest : Option Nat)
    (characters : CharClass) :
    Gathers text.size (Fits text (.run least greatest characters))
      (reach text (.run least greatest characters)) := by
  intro places inside stop
  simp only [reach, mem_eraseReps_iff, List.mem_filterMap]
  refine exists_congr fun start => and_congr_right fun listed => ?_
  rw [fits_run_iff (inside start listed)]
  have longest : IsRun text characters (min (greatest.getD text.size) text.size) start _ :=
    isRun_runEnd _ start
  constructor
  · intro found
    split at found
    · next enough =>
        cases found
        exact ⟨enough, longest⟩
    · cases found
  · intro ⟨enough, other⟩
    cases longest.stop_eq other
    rw [if_pos enough]

theorem gathers_reach (text : Array Char) (pattern : Pattern) :
    Gathers text.size (Fits text pattern) (reach text pattern) := by
  induction pattern with
  | nothing =>
      intro places inside stop
      simp [reach, Fits]
  | one characters =>
      intro places inside stop
      simp only [reach, List.mem_filterMap, Fits]
      refine exists_congr fun start => and_congr_right fun _ => ?_
      split
      · next accepted => simp [acceptedAt_iff.mp accepted, eq_comm]
      · next refused => simp [mt acceptedAt_iff.mpr refused]
  | anchor condition =>
      intro places inside stop
      simp only [reach, List.mem_filter, Fits]
      constructor
      · intro kept
        exact ⟨stop, kept.1, rfl, kept.2⟩
      · intro fitting
        obtain ⟨start, listed, rfl, holds⟩ := fitting
        exact ⟨listed, holds⟩
  | sequence first second firstIh secondIh =>
      exact firstIh.andThen (advances_fits text first) secondIh
  | choice first second firstIh secondIh =>
      intro places inside stop
      rw [reach, mem_union_iff, firstIh places inside, secondIh places inside, ← exists_or]
      exact exists_congr fun start => and_or_left.symm
  | repeated least greatest body ih =>
      have advances := advances_fits text body
      refine Gathers.congr ?_ fun start stop inside => (fits_repeated_iff inside).symm
      exact (gathers_times advances ih _).andThen (advances.inRow _) (gathers_upTo advances ih _)
  | run least greatest characters => exact gathers_run text least greatest characters

def FitsPartOf (pattern : Pattern) (text : Text) : Prop :=
  ∃ start ≤ text.length, ∃ stop, Fits text.toArray pattern start stop

/-- Searching finds a pattern in a text exactly if some part of the text fits it. -/
theorem occursIn_iff (pattern : Pattern) (text : Text) :
    pattern.occursIn text = true ↔ pattern.FitsPartOf text := by
  have inside : ∀ place ∈ List.range (text.length + 1), place ≤ text.toArray.size := by
    intro place member
    exact Nat.le_of_lt_succ (List.mem_range.mp member)
  have reached := gathers_reach text.toArray pattern _ inside
  rw [occursIn, Bool.not_eq_true', List.isEmpty_eq_false_iff_exists_mem]
  constructor
  · intro ⟨stop, member⟩
    obtain ⟨start, listed, fits⟩ := (reached stop).mp member
    exact ⟨start, Nat.le_of_lt_succ (List.mem_range.mp listed), stop, fits⟩
  · intro ⟨start, startInside, stop, fits⟩
    have listed := List.mem_range.mpr (Nat.lt_succ_of_le startInside)
    exact ⟨stop, (reached stop).mpr ⟨start, listed, fits⟩⟩

end Tessera.Pattern
