import Tessera.Proofs.Computation
import Tessera.Tokenizer.Options
import Tessera.Tokenizer.Tokenization

/-!
# How calls begin and end

A call begins with the options that it is given, overridden or not, and ends as its walk does.
-/

set_option autoImplicit false

/-! ## Overridden options

Overriding checks the strategy, the ideal length and the seed, in this order. What comes of it passes
the checks, and bears the seed that is given.
-/

namespace Tessera.Tokenizer.Options

open Tessera.Computation

variable {options chosen : Options} {given : Overrides}

/-- The strategy that is given, if it is one, or else that of the options. -/
def strategyUnder (options : Options) (given : Overrides) : Except OptionError Strategy :=
  match given.strategy with
  | some name => checkStrategy name
  | none => .ok options.strategy

/-- The ideal length that is given, if it is one, or else that of the options. -/
def idealLengthUnder (options : Options) (given : Overrides) : Except OptionError Number :=
  checkIdealLength (given.idealLength.getD (.number options.idealLength))

/-- The seed that is given, if it is one, or else that of the options. -/
def seedUnder (options : Options) (given : Overrides) : Except OptionError (Option Nat) :=
  match given.seed with
  | some seed => checkSeed seed
  | none => .ok options.seed

theorem override_eq (options : Options) (given : Overrides) : options.override given = do
    let strategy ← options.strategyUnder given
    let idealLength ← options.idealLengthUnder given
    let seed ← options.seedUnder given
    return {
      strategy := strategy
      idealLength := idealLength
      seed := seed
      addBos := given.addBos.getD options.addBos
      addEos := given.addEos.getD options.addEos
      preserveSpecial := given.preserveSpecial.getD options.preserveSpecial
      strict := given.strict.getD options.strict } := by
  unfold override strategyUnder seedUnder
  cases given.strategy <;> cases given.seed <;> rfl

theorem checks_of_override (overridden : options.override given = .ok chosen) :
    options.strategyUnder given = .ok chosen.strategy ∧
      options.idealLengthUnder given = .ok chosen.idealLength ∧
      options.seedUnder given = .ok chosen.seed := by
  rw [override_eq] at overridden
  obtain ⟨strategy, first, rest⟩ := bind_eq_ok_iff.mp overridden
  obtain ⟨idealLength, second, rest⟩ := bind_eq_ok_iff.mp rest
  obtain ⟨seed, third, made⟩ := bind_eq_ok_iff.mp rest
  cases made
  exact ⟨first, second, third⟩

theorem checkSeed_eq_ok {seed : Option Int} {checked : Option Nat}
    (accepted : checkSeed seed = .ok checked) : checked.map Int.ofNat = seed := by
  cases seed with
  | none =>
      cases accepted
      rfl
  | some value =>
      simp only [checkSeed] at accepted
      split at accepted
      · cases accepted
      · next notNegative =>
          cases accepted
          exact congrArg some (Int.toNat_of_nonneg (Int.not_lt.mp notNegative))

/-- A seed that is overridden counts no more. -/
theorem override_of_seed (seed : Option Int) (other : Option Nat) :
    ({ options with seed := other } : Options).override { given with seed := some seed } =
      options.override { given with seed := some seed } := rfl

theorem seed_of_override {seed : Option Int}
    (overridden : options.override { given with seed := some seed } = .ok chosen) :
    chosen.seed.map Int.ofNat = seed :=
  checkSeed_eq_ok (checks_of_override overridden).2.2

end Tessera.Tokenizer.Options

/-! ## Endings

A call that is given a source is told by its walk: how it ends, how it leaves the source, and what it
has noted.
-/

namespace Tessera.Tokenizer

variable {σ : Type}

/-! ### What comes of a walk -/

theorem mark_eq_error {requested : Bool} {id : Option Nat} {absent failure : Failure}
    (refused : mark requested id absent = .error failure) : failure = absent := by
  unfold mark at refused
  split at refused
  · split at refused
    · cases refused
    · exact (Except.error.inj refused).symm
  · cases refused

theorem outcome_eq_uncovered_iff (tokenizer : Tokenizer) (options : Options) (text : Text)
    {walk : Walk σ} {position : Nat} {c : Char} :
    tokenizer.outcome options text walk = .error (.uncovered position c) ↔
      walk.uncovered = some (position, c) := by
  unfold outcome
  cases walk.uncovered with
  | some place =>
      obtain ⟨_, _⟩ := place
      simp
  | none =>
      cases bos : mark options.addBos tokenizer.vocabulary.bos .absentBos with
      | error failure =>
          cases mark_eq_error bos
          simp
      | ok first =>
          cases eos : mark options.addEos tokenizer.vocabulary.eos .absentEos with
          | error failure =>
              cases mark_eq_error eos
              simp
          | ok last => simp

/-- What is noted at last, if characters were left out. -/
def lastNotices : Except Failure Tokenization → List Notice
  | .error _ => []
  | .ok result => if result.isLossless then [] else [.dropped result.skipped.length]

/-- How a call ends whose walk is known, and how it leaves the desk. -/
def ended (tokenizer : Tokenizer) (options : Options) (text : Text) (desk : Desk σ)
    (walk : Walk σ) : Except Failure Tokenization × Desk σ :=
  if !options.isMeasurable && walk.decisions.any Decision.isEmit then
    (.error .unmeasurable,
      ⟨desk.source, desk.notices ++ Call.noticesOf walk.beforeSelection⟩)
  else
    (tokenizer.outcome options text walk,
      ⟨walk.source, desk.notices ++ Call.noticesOf walk.decisions ++
        lastNotices (tokenizer.outcome options text walk)⟩)

section

variable {tokenizer : Tokenizer} {options : Options} {text : Text} {desk : Desk σ} {walk : Walk σ}

theorem ended_eq_uncovered_iff {position : Nat} {c : Char} :
    (tokenizer.ended options text desk walk).1 = .error (.uncovered position c) ↔
      walk.uncovered = some (position, c) ∧
        (options.isMeasurable = true ∨ walk.decisions.any Decision.isEmit = false) := by
  rw [← outcome_eq_uncovered_iff tokenizer options text, ended]
  cases options.isMeasurable <;> cases walk.decisions.any Decision.isEmit <;> simp

theorem ended_of_blocked (unmeasurable : options.isMeasurable = false)
    (selects : walk.decisions.any Decision.isEmit = true) :
    tokenizer.ended options text desk walk =
      (.error .unmeasurable, ⟨desk.source, desk.notices ++ Call.noticesOf walk.beforeSelection⟩) := by
  simp only [ended, unmeasurable, selects, Bool.not_false, Bool.and_self, ↓reduceIte]

end

/-! ### Calls -/

theorem outcome_start (supply : Supply σ) (seed : Option Int) (desk : Desk σ) :
    Computation.outcome (Call.start supply seed) desk =
      match supply.begin? seed desk.source with
      | some source => (.ok (), { desk with source := source })
      | none => (.error .badSeed, desk) := by
  rw [Call.start, Computation.outcome_bind, Computation.outcome_get]
  dsimp only
  cases supply.begin? seed desk.source <;> rfl

theorem outcome_take (walk : σ → Walk σ) (desk : Desk σ) :
    Computation.outcome (Call.take walk) desk =
      (.ok (walk desk.source), ⟨(walk desk.source).source,
        desk.notices ++ Call.noticesOf (walk desk.source).decisions⟩) := rfl

variable [RandomSource σ]

theorem outcome_requireMeasure (tokenizer : Tokenizer) (options : Options) (text : Text)
    (desk : Desk σ) : Computation.outcome (tokenizer.requireMeasure options text) desk =
      if !options.isMeasurable &&
          (tokenizer.walk options text desk.source).decisions.any Decision.isEmit then
        (.error .unmeasurable, ⟨desk.source,
          desk.notices ++ Call.noticesOf (tokenizer.walk options text desk.source).beforeSelection⟩)
      else (.ok (), desk) := by
  rw [requireMeasure, Computation.outcome_bind, Computation.outcome_get]
  dsimp only
  split
  · rw [Computation.outcome_bind, Call.noteAll, Computation.outcome_modify]
    rfl
  · rfl

theorem outcome_tokenizeHere (tokenizer : Tokenizer) (options : Options) (text : Text)
    (desk : Desk σ) : Computation.outcome (tokenizer.tokenizeHere options text) desk =
      tokenizer.ended options text desk (tokenizer.walk options text desk.source) := by
  rw [tokenizeHere, Computation.outcome_bind, outcome_requireMeasure, ended]
  cases !options.isMeasurable &&
    (tokenizer.walk options text desk.source).decisions.any Decision.isEmit
  case true => rfl
  case false =>
    simp only [Bool.false_eq_true, ↓reduceIte]
    rw [Computation.outcome_bind, outcome_take]
    dsimp only
    rw [Computation.outcome_bind]
    cases tokenizer.outcome options text (tokenizer.walk options text desk.source) with
    | error failure => rfl
    | ok result =>
        simp only [Call.ofExcept, Computation.outcome_pure, lastNotices]
        by_cases lossless : result.isLossless = true
        · simp only [lossless, ↓reduceIte]
          rfl
        · simp only [lossless, Bool.false_eq_true, ↓reduceIte]
          rfl

section

variable {supply : Supply σ} {options : Options} {desk : Desk σ}

/-- A call that is given a source is told by its walk from there. -/
theorem runOn_tokenize_of_begun {source : σ}
    (begun : supply.begin? (options.seed.map Int.ofNat) desk.source = some source)
    (tokenizer : Tokenizer) (text : Text) :
    (tokenizer.tokenize options text supply).runOn desk =
      tokenizer.ended options text { desk with source := source }
        (tokenizer.walk options text source) := by
  change Computation.outcome (tokenizer.tokenize options text supply) desk = _
  rw [tokenize, Computation.outcome_bind, outcome_start, begun]
  exact outcome_tokenizeHere tokenizer options text _

theorem runOn_tokenize_of_not_begun
    (refused : supply.begin? (options.seed.map Int.ofNat) desk.source = none)
    (tokenizer : Tokenizer) (text : Text) :
    (tokenizer.tokenize options text supply).runOn desk = (.error .badSeed, desk) := by
  change Computation.outcome (tokenizer.tokenize options text supply) desk = _
  rw [tokenize, Computation.outcome_bind, outcome_start, refused]

end

/-- Calls with one seed either are all refused a source or are told by walks from the same one. -/
theorem runOn_tokenize_of_seed (tokenizer : Tokenizer) (options : Options) (text : Text)
    (supply : Supply σ) (desk : Desk σ) :
    (∀ given : Options, given.seed = options.seed →
      (tokenizer.tokenize given text supply).runOn desk = (.error .badSeed, desk)) ∨
    ∃ source, ∀ given : Options, given.seed = options.seed →
      (tokenizer.tokenize given text supply).runOn desk =
        tokenizer.ended given text { desk with source := source }
          (tokenizer.walk given text source) := by
  cases begun : supply.begin? (options.seed.map Int.ofNat) desk.source with
  | none =>
      refine .inl fun given sameSeed => ?_
      rw [← sameSeed] at begun
      exact runOn_tokenize_of_not_begun begun tokenizer text
  | some source =>
      refine .inr ⟨source, fun given sameSeed => ?_⟩
      rw [← sameSeed] at begun
      exact runOn_tokenize_of_begun begun tokenizer text

end Tessera.Tokenizer
