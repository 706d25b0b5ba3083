import Tessera.Compression.Basic
import Tessera.Proofs.Inspection.SeededSamples

/-!
# Failures that are taken up

A failure counts as a bad value, unless it comes of a length that cannot be compared: one that is no
number, or too large a number. Calls whose ideal length is in range have no such failures.
-/

set_option autoImplicit false

namespace Tessera

open Tessera.Computation

/-- Whether a failure counts as a bad value, so that a program is prepared for it. -/
def Failure.isTakenUp : Failure → Bool
  | .unmeasurable => false
  | .badOption (.unorderedIdealLength _) => false
  | _ => true

/-! ## Calls -/

namespace Call

variable {σ α β : Type}

/-- Whether a call ends as wanted at every desk, or else with a failure that is taken up. -/
def Settles (wanted : α → Prop) (call : Call σ α) : Prop :=
  ∀ desk, Computation.Settles wanted (fun failure => failure.isTakenUp = true) (call.runOn desk).1

variable {wanted : α → Prop} {wantedLast : β → Prop}

theorem settles_pure {value : α} (holds : wanted value) :
    (pure value : Call σ α).Settles wanted := fun _ => holds

theorem settles_throw {failure : Failure} (takenUp : failure.isTakenUp = true) :
    (throw failure : Call σ α).Settles wanted := fun _ => takenUp

theorem Settles.bind {call : Call σ α} {next : α → Call σ β} (first : call.Settles wanted)
    (second : ∀ value, wanted value → (next value).Settles wantedLast) :
    (call >>= next).Settles wantedLast := by
  intro desk
  have firstSettles := first desk
  change Computation.Settles _ _ (outcome call desk).1 at firstSettles
  change Computation.Settles _ _ (outcome (call >>= next) desk).1
  rw [outcome_bind]
  cases ended : outcome call desk with
  | mk result between =>
      rw [ended] at firstSettles
      cases result with
      | error failure => exact firstSettles
      | ok value => exact second value firstSettles between

theorem settles_note (notice : Notice) :
    (note notice : Call σ Unit).Settles fun _ => True := fun _ => trivial

theorem settles_take (walk : σ → Tokenizer.Walk σ) :
    (take walk).Settles fun _ => True := fun _ => trivial

theorem settles_start (supply : Supply σ) (seed : Option Int) :
    (start supply seed).Settles fun _ => True := by
  intro desk
  change Computation.Settles _ _ (outcome (start supply seed) desk).1
  rw [Tokenizer.outcome_start]
  cases supply.begin? seed desk.source <;> trivial

theorem settles_ofOptions {checked : Except Tokenizer.OptionError α}
    (settles : Computation.Settles wanted
      (fun cause => (Failure.badOption cause).isTakenUp = true) checked) :
    (ofOptions checked : Call σ α).Settles wanted := by
  cases checked with
  | error cause => exact settles_throw settles
  | ok value => exact settles_pure settles

end Call

namespace Tokenizer

/-! ## Options -/

namespace Options

/-- Whether an ideal length that is given, if it is one, is a number in range. -/
def Overrides.IsInRange (given : Overrides) : Prop :=
  ∀ length, given.idealLength = some length → ∃ number : Number,
    length = .number number ∧ number.inRange = true

variable {options : Options} {given : Overrides}

theorem isInRange_of_none (absent : given.idealLength = none) : given.IsInRange := by
  intro length present
  rw [absent] at present
  cases present

theorem settles_idealLengthUnder (inRange : options.idealLength.inRange = true)
    (givenInRange : given.IsInRange) :
    Settles (fun length : Number => length.inRange = true)
      (fun cause => (Failure.badOption cause).isTakenUp = true) (options.idealLengthUnder given) := by
  have numberGiven : ∃ number : Number,
      given.idealLength.getD (.number options.idealLength) = .number number ∧
        number.inRange = true := by
    cases chosen : given.idealLength with
    | none => exact ⟨_, rfl, inRange⟩
    | some length => exact givenInRange length chosen
  obtain ⟨number, same, numberInRange⟩ := numberGiven
  rw [idealLengthUnder, same, checkIdealLength]
  split
  · rfl
  · exact numberInRange

theorem settles_override (inRange : options.idealLength.inRange = true)
    (givenInRange : given.IsInRange) :
    Settles (fun chosen : Options => chosen.idealLength.inRange = true)
      (fun cause => (Failure.badOption cause).isTakenUp = true) (options.override given) := by
  have strategySettles : Settles (fun _ : Strategy => True)
      (fun cause => (Failure.badOption cause).isTakenUp = true) (options.strategyUnder given) := by
    unfold strategyUnder checkStrategy
    split
    · split <;> trivial
    · trivial
  have seedSettles : Settles (fun _ : Option Nat => True)
      (fun cause => (Failure.badOption cause).isTakenUp = true) (options.seedUnder given) := by
    unfold seedUnder checkSeed
    split
    · split
      · trivial
      · split <;> trivial
    · trivial
  rw [override_eq]
  refine strategySettles.bind fun strategy _ => ?_
  refine (settles_idealLengthUnder inRange givenInRange).bind fun length lengthInRange => ?_
  exact seedSettles.bind fun seed _ => lengthInRange

theorem isMeasurable_of_inRange (inRange : options.idealLength.inRange = true) :
    options.isMeasurable = true := by
  rw [isMeasurable, inRange, Bool.or_true]

theorem inRange_default : default.idealLength.inRange = true := by decide

end Options

variable {σ : Type} [RandomSource σ] {tokenizer : Tokenizer} {text : Text} {options : Options}
  {given : Options.Overrides} {supply : Supply σ}

/-! ## Tokenizing -/

omit [RandomSource σ] in
theorem isTakenUp_of_outcome {walk : Walk σ} {failure : Failure}
    (failed : tokenizer.outcome options text walk = .error failure) : failure.isTakenUp = true := by
  unfold outcome at failed
  split at failed
  · cases failed
    rfl
  · split at failed
    · next bos =>
      cases failed
      rw [mark_eq_error bos]
      rfl
    · split at failed
      · next eos =>
        cases failed
        rw [mark_eq_error eos]
        rfl
      · cases failed

theorem settles_tokenize (inRange : options.idealLength.inRange = true) :
    (tokenizer.tokenize options text supply).Settles fun _ => True := by
  have measurable := Options.isMeasurable_of_inRange inRange
  intro desk
  rw [fst_runOn_tokenize]
  cases supply.begin? (options.seed.map Int.ofNat) desk.source with
  | none => rfl
  | some source =>
      rw [endingOf, ending]
      change Computation.Settles _ _ (Computation.outcome (tokenizer.tokenizeHere options text) _).1
      rw [outcome_tokenizeHere, ended, measurable]
      change Computation.Settles _ _ (tokenizer.outcome options text _)
      cases ended : tokenizer.outcome options text
          (tokenizer.walk options text (Desk.fresh source).source) with
      | ok result => trivial
      | error failure => exact isTakenUp_of_outcome ended

theorem settles_samplesFrom (inRange : options.idealLength.inRange = true)
    (givenInRange : given.IsInRange) (seed : Option Int) (draw count : Nat) :
    (tokenizer.samplesFrom text options given seed supply draw count).Settles fun _ => True := by
  induction count generalizing draw with
  | zero => exact Call.settles_pure trivial
  | succ more ih =>
      have overriddenInRange : Options.Overrides.IsInRange
          { given with seed := some (drawSeed seed draw) } := givenInRange
      rw [samplesFrom]
      refine (Call.settles_ofOptions
        (Options.settles_override inRange overriddenInRange)).bind fun chosen chosenInRange => ?_
      have inspected : (tokenizer.inspect text chosen supply).Settles fun _ => True :=
        (settles_tokenize chosenInRange).bind fun _ _ => Call.settles_pure trivial
      exact inspected.bind fun _ _ => (ih (draw + 1)).bind fun _ _ => Call.settles_pure trivial

/-! ## Compressing -/

theorem settles_compressWith (givenInRange : given.IsInRange) :
    (tokenizer.compressWith text given supply).Settles fun _ => True := by
  refine (Call.settles_ofOptions
    (Options.settles_override Options.inRange_default givenInRange)).bind fun chosen inRange => ?_
  exact (settles_tokenize inRange).bind fun _ _ => Call.settles_pure trivial

theorem settles_compress (seed : Option Int) (preserveSpecial : Bool) :
    (tokenizer.compress text seed preserveSpecial supply).Settles fun _ => True :=
  settles_compressWith (Options.isInRange_of_none rfl)

theorem settles_compressByFactor (factor : Number) (seed : Option Int) (sample : Int) :
    (tokenizer.compressByFactor text factor seed sample supply).Settles fun _ => True := by
  have compressed (ideal : Float) : (tokenizer.compressWith text
      { Options.Overrides.none with
        strategy := some Strategy.idealLength.name
        idealLength := some (.number (.real ideal))
        seed := some seed } supply).Settles fun _ => True := by
    refine settles_compressWith ?_
    rintro _ ⟨⟩
    exact ⟨.real ideal, rfl, rfl⟩
  unfold compressByFactor
  dsimp only
  split
  · exact Call.settles_throw rfl
  · exact (Call.settles_note _).bind fun _ _ => compressed _

theorem settles_compressByGradient (gradient : Number) (seed : Option Int) :
    (tokenizer.compressByGradient text gradient seed supply).Settles fun _ => True := by
  unfold compressByGradient
  dsimp only
  split
  · exact Call.settles_throw rfl
  · exact (Call.settles_start supply seed).bind fun _ _ => (Call.settles_take _).bind fun _ _ =>
      Call.settles_pure trivial

theorem settles_compare (seed : Option Int) :
    (tokenizer.compare text seed supply).Settles fun _ => True :=
  (settles_compress seed true).bind fun _ _ =>
    (settles_compressWith (Options.isInRange_of_none rfl)).bind fun _ _ => Call.settles_pure trivial

/-- Statistics are those of some tokens. -/
theorem settles_statistics (seed : Option Int) :
    (tokenizer.statistics text seed supply).Settles fun figures =>
      ∃ longest shortest, figures = tokenizer.statisticsOf text longest shortest := by
  have tokensSettle (strategy : Strategy) :
      (statistics.tokens tokenizer text seed supply strategy).Settles fun _ => True :=
    (Call.settles_ofOptions (Options.settles_override Options.inRange_default
      (Options.isInRange_of_none rfl))).bind
      fun _ inRange => (settles_tokenize inRange).bind fun _ _ => Call.settles_pure trivial
  exact (tokensSettle .longest).bind fun longest _ => (tokensSettle .shortest).bind
    fun shortest _ => Call.settles_pure ⟨longest, shortest, rfl⟩

end Tokenizer

end Tessera
