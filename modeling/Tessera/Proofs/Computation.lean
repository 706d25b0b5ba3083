/-!
# Computations and loops

Computations that may fail are taken apart step by step, and loops are told by their rounds.
-/

set_option autoImplicit false

/-! ## Computations that may fail

Calls and runs keep their state when they fail. What a successful computation has done is taken
apart step by step.
-/

namespace Tessera.Computation

variable {ε S α β : Type}

/-- How a computation ends, and the state that it leaves. -/
def outcome (computation : ExceptT ε (StateM S) α) (state : S) : Except ε α × S :=
  computation.run.run state

@[simp] theorem outcome_pure (value : α) (state : S) :
    outcome (pure value : ExceptT ε (StateM S) α) state = (.ok value, state) := rfl

@[simp] theorem outcome_throw (cause : ε) (state : S) :
    outcome (throw cause : ExceptT ε (StateM S) α) state = (.error cause, state) := rfl

@[simp] theorem outcome_get (state : S) :
    outcome (get : ExceptT ε (StateM S) S) state = (.ok state, state) := rfl

@[simp] theorem outcome_modify (change : S → S) (state : S) :
    outcome (modify change : ExceptT ε (StateM S) PUnit) state = (.ok ⟨⟩, change state) := rfl

theorem outcome_tryCatch (computation : ExceptT ε (StateM S) α)
    (handler : ε → ExceptT ε (StateM S) α) (state : S) :
    outcome (tryCatch computation handler) state =
      match outcome computation state with
      | (.ok value, between) => (.ok value, between)
      | (.error cause, between) => outcome (handler cause) between := by
  simp only [outcome, tryCatch, tryCatchThe, MonadExceptOf.tryCatch, ExceptT.tryCatch, ExceptT.run,
    ExceptT.mk, StateT.run_bind]
  generalize StateT.run computation state = ending
  rcases (ending : Except ε α × S) with ⟨result, between⟩
  cases result <;> rfl

theorem outcome_tryFinally (computation : ExceptT ε (StateM S) α) (change : S → S) (state : S) :
    outcome (tryFinally computation (modify change : ExceptT ε (StateM S) PUnit)) state =
      ((outcome computation state).1, change (outcome computation state).2) := by
  simp only [outcome, tryFinally, MonadFinally.tryFinally', ExceptT.run, ExceptT.mk, StateT.run,
    Functor.map, ExceptT.map, StateT.bind, bind]
  generalize (computation state : Id (Except ε α × S)) = ending
  rcases (ending : Except ε α × S) with ⟨result, between⟩
  cases result <;> rfl

theorem outcome_bind (computation : ExceptT ε (StateM S) α)
    (next : α → ExceptT ε (StateM S) β) (state : S) :
    outcome (computation >>= next) state =
      match outcome computation state with
      | (.ok value, between) => outcome (next value) between
      | (.error cause, between) => (.error cause, between) := by
  simp only [outcome, ExceptT.run_bind, StateT.run_bind]
  cases (computation.run.run state : Id (Except ε α × S)) with
  | mk result between => cases result <;> rfl

theorem tryCatch_throw (computation : ExceptT ε (StateM S) α) :
    tryCatch computation throw = computation := by
  funext state
  change outcome (tryCatch computation throw) state = outcome computation state
  rw [outcome_tryCatch]
  cases outcome computation state with
  | mk result after => cases result <;> rfl

/-- A sequence succeeds exactly if both parts do, one after the other. -/
theorem outcome_bind_eq_ok_iff {computation : ExceptT ε (StateM S) α}
    {next : α → ExceptT ε (StateM S) β} {state after : S} {result : β} :
    outcome (computation >>= next) state = (.ok result, after) ↔
      ∃ value between, outcome computation state = (.ok value, between) ∧
        outcome (next value) between = (.ok result, after) := by
  rw [outcome_bind]
  cases first : outcome computation state with
  | mk ending between =>
      cases ending with
      | error cause => simp
      | ok value =>
          constructor
          · exact fun second => ⟨value, between, rfl, second⟩
          · rintro ⟨_, _, same, second⟩
            cases same
            exact second

/-- The same for results alone. -/
theorem bind_eq_ok_iff {result : Except ε α} {next : α → Except ε β} {last : β} :
    (result >>= next) = .ok last ↔ ∃ value, result = .ok value ∧ next value = .ok last := by
  cases result with
  | error cause => simp [bind, Except.bind]
  | ok value => simp [bind, Except.bind]

/-- Whether a result is as wanted, or else the failure one that is allowed. -/
def Settles (wanted : α → Prop) (allowed : ε → Prop) : Except ε α → Prop
  | .ok value => wanted value
  | .error cause => allowed cause

namespace Settles

variable {wanted : α → Prop} {wantedLast : β → Prop} {allowed : ε → Prop} {result : Except ε α}

theorem bind {next : α → Except ε β} (first : Settles wanted allowed result)
    (second : ∀ value, wanted value → Settles wantedLast allowed (next value)) :
    Settles wantedLast allowed (result >>= next) := by
  cases result with
  | error cause => exact first
  | ok value => exact second value first

theorem foldlM {change : β → α → Except ε β} {values : List α}
    (step : ∀ value ∈ values, ∀ state, wantedLast state →
      Settles wantedLast allowed (change state value))
    {state : β} (start : wantedLast state) :
    Settles wantedLast allowed (values.foldlM change state) := by
  induction values generalizing state with
  | nil => exact start
  | cons value rest ih =>
      rw [List.foldlM_cons]
      exact (step value List.mem_cons_self state start).bind fun between kept =>
        ih (fun value listed => step value (List.mem_cons_of_mem _ listed)) kept

end Settles

theorem map_eq_ok_iff {f : α → β} {result : Except ε α} {value : β} :
    result.map f = .ok value ↔ ∃ made, result = .ok made ∧ f made = value := by
  cases result <;> simp [Except.map]

theorem map_eq_error_iff {f : α → β} {result : Except ε α} {cause : ε} :
    result.map f = .error cause ↔ result = .error cause := by
  cases result <;> simp [Except.map]

theorem exists_map_eq_ok {f : α → β} {first second : Except ε α} {value : β}
    (made : first.map f = .ok value)
    (follows : ∀ part, first = .ok part → ∃ other, second = .ok other) :
    ∃ other, second.map f = .ok other := by
  obtain ⟨part, partMade, -⟩ := map_eq_ok_iff.mp made
  obtain ⟨other, otherMade⟩ := follows part partMade
  exact ⟨f other, map_eq_ok_iff.mpr ⟨other, otherMade, rfl⟩⟩

end Tessera.Computation

/-! ## Loops

A loop is told by its rounds: what one more round makes of a state, where there is one. That alone
does not bring a loop to an end. Progress does: each round leaves less to do.
-/

namespace Tessera.Loop

variable {S : Type} {round? : S → Option S} {kept : S → Prop}

/-- After so many rounds there is no further one, and the loop leaves the last state. -/
inductive Ends (round? : S → Option S) : Nat → S → S → Prop where
  | done {state : S} : round? state = none → Ends round? 0 state state
  | round {rounds : Nat} {state next last : S} :
      round? state = some next → Ends round? rounds next last →
      Ends round? (rounds + 1) state last

def EndsWithin (round? : S → Option S) (bound : Nat) (state last : S) : Prop :=
  ∃ rounds, rounds ≤ bound ∧ Ends round? rounds state last

/-- Whether each round keeps a condition and leaves less to do. -/
structure Progresses (round? : S → Option S) (kept : S → Prop) (left : S → Nat) : Prop where
  keeps : ∀ {state next : S}, kept state → round? state = some next → kept next
  lowers : ∀ {state next : S}, kept state → round? state = some next → left next < left state

/-- A loop that progresses ends, and what its rounds keep holds at its end. -/
theorem Progresses.exists_endsWithin {left : S → Nat} (progresses : Progresses round? kept left)
    (state : S) (begun : kept state) :
    ∃ last, EndsWithin round? (left state) state last ∧ kept last ∧ round? last = none := by
  induction measure : left state using Nat.strongRecOn generalizing state with
  | ind amount ih =>
      subst measure
      cases more : round? state with
      | none => exact ⟨state, ⟨0, Nat.zero_le _, .done more⟩, begun, more⟩
      | some next =>
          have lower := progresses.lowers begun more
          obtain ⟨last, ⟨rounds, bounded, ended⟩, lastKept, noneLeft⟩ :=
            ih (left next) lower next (progresses.keeps begun more) rfl
          exact ⟨last, ⟨rounds + 1, by omega, .round more ended⟩, lastKept, noneLeft⟩

/-- A loop does not end as long as there is always one more round. -/
theorem not_ends_of_endless (kept : S → Prop)
    (endless : ∀ state, kept state → ∃ next, round? state = some next ∧ kept next)
    {rounds : Nat} {state last : S} (begun : kept state) : ¬ Ends round? rounds state last := by
  intro ended
  induction ended with
  | @done state noneLeft =>
      obtain ⟨next, more, -⟩ := endless state begun
      cases noneLeft.symm.trans more
  | @round _ state _ _ taken _ ih =>
      obtain ⟨next, more, nextKept⟩ := endless state begun
      cases taken.symm.trans more
      exact ih nextKept

end Tessera.Loop
