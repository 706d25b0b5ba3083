import Mathlib.Data.List.Basic
import Tessera.Compression.Basic
import Tessera.Inspection.Basic
import Tessera.Proofs.Tokenizer.ParallelWalks
import Tessera.Proofs.Tokenizer.RoundTrip
import Tessera.Random.Scripted

/-!
# Results of compressions

A compression is told by the tokenizations that it makes; by the longest or the shortest tokens, these do
not depend on the source of random numbers.
-/

set_option autoImplicit false

/-! ## What compressions give

A compression, a comparison, statistics and a count are made from tokenizations by the longest or by
the shortest tokens. What each of them gives is told by those.
-/

namespace Tessera.Tokenizer

/-! ### Pieces -/

theorem flatten_pieces_compressed (tokenizer : Tokenizer) (text : Text) (ids : List Nat) :
    (tokenizer.compressed text ids).pieces.flatten =
      tokenizer.vocabulary.decode (ids.map Int.ofNat) := by
  rw [compressed, Vocabulary.decode, List.flatMap_def, List.map_map]
  rfl

/-- Where decisions cover a text, their ids have tokens, none of them empty. -/
theorem Covers.piece_of_id {tokenizer : Tokenizer} {position : Nat} {text : Text}
    {decisions : List Decision} (covers : Covers tokenizer.vocabulary position text decisions)
    {id : Nat} (member : id ∈ decisions.filterMap Decision.id?) :
    tokenizer.vocabulary.token? id = some (tokenizer.piece id) ∧ tokenizer.piece id ≠ [] := by
  obtain ⟨token, held, nonempty⟩ := covers.isToken_of_id member
  have same : tokenizer.vocabulary.token? id = some token := held
  rw [piece, same]
  exact ⟨rfl, nonempty⟩

/-! ### Options by the name of a strategy -/

theorem checkStrategy_name (strategy : Strategy) :
    Options.checkStrategy strategy.name = .ok strategy := by
  cases strategy <;> rfl

theorem checkStrategy_eq_ok_iff {name : String} {strategy : Strategy} :
    Options.checkStrategy name = .ok strategy ↔ Strategy.ofName? name = some strategy := by
  unfold Options.checkStrategy
  cases Strategy.ofName? name <;> simp

theorem override_named (name : String) :
    Options.default.override { Options.Overrides.none with strategy := some name } =
      (Options.checkStrategy name).map Options.ofStrategy := by
  simp only [Options.override]
  cases Options.checkStrategy name <;> rfl

theorem override_strategy (strategy : Strategy) (seed : Option Nat)
    (preserveSpecial : Option Bool) :
    Options.default.override
        { Options.Overrides.none with
          strategy := some strategy.name
          seed := some (seed.map Int.ofNat)
          preserveSpecial := preserveSpecial } =
      .ok { Options.ofStrategy strategy with
        seed := seed
        preserveSpecial := preserveSpecial.getD true } := by
  have checked : Options.checkSeed (seed.map Int.ofNat) = .ok seed := by
    cases seed with
    | none => rfl
    | some value => simp [Options.checkSeed]
  simp only [Options.override, checked, checkStrategy_name]
  rfl

/-! ### Calls -/

variable {σ : Type} [RandomSource σ]

/-- A call with options that are overridden first goes on from the tokenization. -/
theorem outcome_overridden {α : Type} {tokenizer : Tokenizer} {text : Text}
    {given : Options.Overrides} {options : Options} {supply : Supply σ} {desk after : Desk σ}
    {result : Tokenization} (overridden : Options.default.override given = .ok options)
    (returned : (tokenizer.tokenize options text supply).runOn desk = (.ok result, after))
    (next : Tokenization → Call σ α) :
    Computation.outcome
        (do
          let options ← Call.ofOptions (Options.default.override given)
          let tokenization ← tokenizer.tokenize options text supply
          next tokenization)
        desk = Computation.outcome (next result) after := by
  have tokenized : Computation.outcome (tokenizer.tokenize options text supply) desk =
      (.ok result, after) := returned
  rw [overridden, Computation.outcome_bind]
  simp only [Call.ofOptions, Computation.outcome_pure]
  rw [Computation.outcome_bind, tokenized]

section

variable {tokenizer : Tokenizer} {text : Text} {supply : Supply σ}
  {desk between after : Desk σ} {longest shortest : Tokenization} (seed : Option Nat)

theorem runOn_compress (preserveSpecial : Bool)
    (byLongest : (tokenizer.tokenize
      { Options.ofStrategy .longest with seed := seed, preserveSpecial := preserveSpecial } text
      supply).runOn desk = (.ok longest, after)) :
    (tokenizer.compress text (seed.map Int.ofNat) preserveSpecial supply).runOn desk =
      (.ok (tokenizer.compressed text longest.ids), after) :=
  outcome_overridden (override_strategy .longest seed (some preserveSpecial)) byLongest _

theorem runOn_compare
    (byLongest : (tokenizer.tokenize { Options.ofStrategy .longest with seed := seed } text
      supply).runOn desk = (.ok longest, between))
    (byShortest : (tokenizer.tokenize { Options.ofStrategy .shortest with seed := seed } text
      supply).runOn between = (.ok shortest, after)) :
    (tokenizer.compare text (seed.map Int.ofNat) supply).runOn desk =
      (.ok ⟨text, tokenizer.compressed text longest.ids, tokenizer.compressed text shortest.ids⟩,
        after) := by
  refine Computation.outcome_bind_eq_ok_iff.mpr ⟨_, _, runOn_compress seed true byLongest, ?_⟩
  refine Computation.outcome_bind_eq_ok_iff.mpr ⟨_, _, ?_, rfl⟩
  exact outcome_overridden (override_strategy .shortest seed none) byShortest _

theorem runOn_statistics
    (byLongest : (tokenizer.tokenize { Options.ofStrategy .longest with seed := seed } text
      supply).runOn desk = (.ok longest, between))
    (byShortest : (tokenizer.tokenize { Options.ofStrategy .shortest with seed := seed } text
      supply).runOn between = (.ok shortest, after)) :
    (tokenizer.statistics text (seed.map Int.ofNat) supply).runOn desk =
      (.ok (tokenizer.statisticsOf text longest.ids shortest.ids), after) := by
  refine Computation.outcome_bind_eq_ok_iff.mpr ⟨longest.ids, between, ?_, ?_⟩
  · exact outcome_overridden (override_strategy .longest seed none) byLongest _
  refine Computation.outcome_bind_eq_ok_iff.mpr ⟨shortest.ids, after, ?_, rfl⟩
  exact outcome_overridden (override_strategy .shortest seed none) byShortest _

theorem runOn_countTokens {strategy : Strategy} {result : Tokenization}
    (counted : (tokenizer.tokenize (.ofStrategy strategy) text supply).runOn desk =
      (.ok result, after)) :
    (tokenizer.countTokens text strategy.name supply).runOn desk = (.ok result.count, after) := by
  have overridden : Options.default.override
      { Options.Overrides.none with strategy := some strategy.name } =
        .ok (.ofStrategy strategy) := by
    cases strategy <;> rfl
  exact outcome_overridden overridden counted _

end

end Tessera.Tokenizer

/-! ## Counts that do not depend on the source

A tokenization by the longest or by the shortest tokens gives the same texts from every source, and the
same ids where no text occurs twice. So whatever is counted after such a tokenization is the same with
any seed, and without one.
-/

namespace Tessera.Tokenizer

variable {σ τ : Type} [RandomSource σ] [RandomSource τ]

section

variable (options : Options) {supply : Supply σ} (byLength : options.strategy.IsByLength)
  (lenient : options.strict = false) (noBos : options.addBos = false)
  (noEos : options.addEos = false) (ready : supply.IsReady)

include byLength lenient noBos noEos ready

theorem exists_tokenization (seed : Option Nat) (tokenizer : Tokenizer) (text : Text)
    (desk : Desk σ) : ∃ result after,
      (tokenizer.tokenize { options with seed := seed } text supply).runOn desk =
        (.ok result, after) := by
  obtain ⟨source, begun⟩ := Option.isSome_iff_exists.mp (ready seed desk.source)
  have unfailing : ({ options with seed := seed } : Options).IsUnfailing :=
    ⟨isMeasurable_of_isByLength byLength, lenient, noBos, noEos⟩
  obtain ⟨notices, returned⟩ := runOn_tokenize_of_isUnfailing unfailing begun tokenizer text
  exact ⟨_, _, returned⟩

theorem exists_alike_tokenizations {other : Supply τ} (otherReady : other.IsReady)
    (seed otherSeed : Option Nat) (tokenizer : Tokenizer) (text : Text) (desk : Desk σ)
    (otherDesk : Desk τ) : ∃ result after otherResult otherAfter,
      (tokenizer.tokenize { options with seed := seed } text supply).runOn desk =
        (.ok result, after) ∧
      (tokenizer.tokenize { options with seed := otherSeed } text other).runOn otherDesk =
        (.ok otherResult, otherAfter) ∧
      result.ids.map tokenizer.piece = otherResult.ids.map tokenizer.piece := by
  obtain ⟨result, after, returned⟩ :=
    exists_tokenization options byLength lenient noBos noEos ready seed tokenizer text desk
  obtain ⟨otherResult, otherAfter, otherReturned⟩ :=
    exists_tokenization options byLength lenient noBos noEos otherReady otherSeed tokenizer text otherDesk
  have alike :=
    tokenize_alike byLength ready otherReady seed otherSeed tokenizer text desk otherDesk
  rw [returned, otherReturned] at alike
  cases alike with
  | ok _ _ pieces => exact ⟨result, after, otherResult, otherAfter, returned, otherReturned, pieces⟩

end

theorem statisticsOf_congr {tokenizer : Tokenizer} {longest shortest other otherShortest : List Nat}
    (same : longest.map tokenizer.piece = other.map tokenizer.piece)
    (sameShortest : shortest.map tokenizer.piece = otherShortest.map tokenizer.piece)
    (text : Text) :
    tokenizer.statisticsOf text longest shortest =
      tokenizer.statisticsOf text other otherShortest := by
  have count : longest.length = other.length := by
    simpa using congrArg List.length same
  have shortestCount : shortest.length = otherShortest.length := by
    simpa using congrArg List.length sameShortest
  simp only [statisticsOf, count, shortestCount, same]

theorem count_compressed_congr {tokenizer : Tokenizer} {ids others : List Nat}
    (same : ids.map tokenizer.piece = others.map tokenizer.piece) (text : Text) :
    (tokenizer.compressed text ids).count = (tokenizer.compressed text others).count := by
  simpa [Compressed.count, compressed] using congrArg List.length same

section

variable {supply : Supply σ} {other : Supply τ} (ready : supply.IsReady)
  (otherReady : other.IsReady) (seed otherSeed : Option Nat) (tokenizer : Tokenizer) (text : Text)
  (desk : Desk σ) (otherDesk : Desk τ)

include ready otherReady

/-- Tokenizations by the longest and then by the shortest tokens, from two sources. -/
theorem exists_alike_extremes : ∃ (longest shortest otherLongest otherShortest : Tokenization)
    (between after : Desk σ) (otherBetween otherAfter : Desk τ),
    ((tokenizer.tokenize { Options.ofStrategy .longest with seed := seed } text supply).runOn desk =
        (.ok longest, between) ∧
      (tokenizer.tokenize { Options.ofStrategy .shortest with seed := seed } text supply).runOn
        between = (.ok shortest, after)) ∧
    ((tokenizer.tokenize { Options.ofStrategy .longest with seed := otherSeed } text other).runOn
        otherDesk = (.ok otherLongest, otherBetween) ∧
      (tokenizer.tokenize { Options.ofStrategy .shortest with seed := otherSeed } text other).runOn
        otherBetween = (.ok otherShortest, otherAfter)) ∧
    longest.ids.map tokenizer.piece = otherLongest.ids.map tokenizer.piece ∧
      shortest.ids.map tokenizer.piece = otherShortest.ids.map tokenizer.piece := by
  obtain ⟨longest, between, otherLongest, otherBetween, byLongest, otherByLongest, pieces⟩ :=
    exists_alike_tokenizations (.ofStrategy .longest) (.inl rfl) rfl rfl rfl ready
      otherReady seed otherSeed tokenizer text desk otherDesk
  obtain ⟨shortest, after, otherShortest, otherAfter, byShortest, otherByShortest, shortPieces⟩ :=
    exists_alike_tokenizations (.ofStrategy .shortest) (.inr rfl) rfl rfl rfl ready
      otherReady seed otherSeed tokenizer text between otherBetween
  exact ⟨longest, shortest, otherLongest, otherShortest, between, after, otherBetween, otherAfter,
    ⟨byLongest, byShortest⟩, ⟨otherByLongest, otherByShortest⟩, pieces, shortPieces⟩

end

/-- Tokenizations by the longest or by the shortest tokens do not depend on the source, but for the ids
of texts that occur twice: they come to the same end, with the same texts and the same characters left
out. Compressions, comparisons, statistics and counts report the same numbers. -/
theorem steady_of_isByLength (tokenizer : Tokenizer) (options : Options) (text : Text)
    (byLength : options.strategy.IsByLength) (supply : Supply σ) (other : Supply τ)
    (ready : supply.IsReady) (otherReady : other.IsReady) (seed otherSeed : Option Nat)
    (desk : Desk σ) (otherDesk : Desk τ) :
    tokenizer.AlikeEndings
      ((tokenizer.tokenize { options with seed := seed } text supply).runOn desk).1
      ((tokenizer.tokenize { options with seed := otherSeed } text other).runOn otherDesk).1 ∧
    (tokenizer.vocabulary.IsDistinct →
      ((tokenizer.tokenize { options with seed := seed } text supply).runOn desk).1 =
        ((tokenizer.tokenize { options with seed := otherSeed } text other).runOn otherDesk).1) ∧
    (∀ preserveSpecial, ∃ result otherResult,
      ((tokenizer.compress text (seed.map Int.ofNat) preserveSpecial supply).runOn desk).1 =
        .ok result ∧
      ((tokenizer.compress text (otherSeed.map Int.ofNat) preserveSpecial other).runOn otherDesk).1 =
        .ok otherResult ∧
      result.count = otherResult.count ∧ result.pieces = otherResult.pieces) ∧
    (∃ comparison otherComparison,
      ((tokenizer.compare text (seed.map Int.ofNat) supply).runOn desk).1 = .ok comparison ∧
      ((tokenizer.compare text (otherSeed.map Int.ofNat) other).runOn otherDesk).1 =
        .ok otherComparison ∧
      comparison.most.count = otherComparison.most.count ∧
      comparison.least.count = otherComparison.least.count) ∧
    (∃ statistics,
      ((tokenizer.statistics text (seed.map Int.ofNat) supply).runOn desk).1 = .ok statistics ∧
      ((tokenizer.statistics text (otherSeed.map Int.ofNat) other).runOn otherDesk).1 =
        .ok statistics) ∧
    ∃ count,
      ((tokenizer.countTokens text options.strategy.name supply).runOn desk).1 = .ok count ∧
      ((tokenizer.countTokens text options.strategy.name other).runOn otherDesk).1 = .ok count := by
  refine ⟨tokenize_alike byLength ready otherReady seed otherSeed tokenizer text desk otherDesk,
    tokenize_eq_of_isDistinct byLength ready otherReady seed otherSeed tokenizer text desk otherDesk,
    fun preserveSpecial => ?_, ?_, ?_, ?_⟩
  · obtain ⟨result, after, otherResult, otherAfter, returned, otherReturned, pieces⟩ :=
      exists_alike_tokenizations
        { Options.ofStrategy .longest with preserveSpecial := preserveSpecial }
        (.inl rfl) rfl rfl rfl ready otherReady seed otherSeed tokenizer text desk otherDesk
    refine ⟨_, _, congrArg Prod.fst (runOn_compress seed preserveSpecial returned),
      congrArg Prod.fst (runOn_compress otherSeed preserveSpecial otherReturned),
      count_compressed_congr pieces text, pieces⟩
  · obtain ⟨longest, shortest, otherLongest, otherShortest, _, _, _, _, ⟨byLongest, byShortest⟩,
      ⟨otherByLongest, otherByShortest⟩, pieces, shortPieces⟩ :=
      exists_alike_extremes ready otherReady seed otherSeed tokenizer text desk otherDesk
    exact ⟨_, _, congrArg Prod.fst (runOn_compare seed byLongest byShortest),
      congrArg Prod.fst (runOn_compare otherSeed otherByLongest otherByShortest),
      count_compressed_congr pieces text, count_compressed_congr shortPieces text⟩
  · obtain ⟨longest, shortest, otherLongest, otherShortest, _, _, _, _, ⟨byLongest, byShortest⟩,
      ⟨otherByLongest, otherByShortest⟩, pieces, shortPieces⟩ :=
      exists_alike_extremes ready otherReady seed otherSeed tokenizer text desk otherDesk
    refine ⟨_, congrArg Prod.fst (runOn_statistics seed byLongest byShortest), ?_⟩
    rw [runOn_statistics otherSeed otherByLongest otherByShortest,
      statisticsOf_congr pieces shortPieces]
  · obtain ⟨result, after, otherResult, otherAfter, returned, otherReturned, pieces⟩ :=
      exists_alike_tokenizations (.ofStrategy options.strategy) byLength rfl rfl rfl ready
        otherReady none none tokenizer text desk otherDesk
    have count : result.count = otherResult.count := by
      simpa [Tokenization.count] using congrArg List.length pieces
    refine ⟨result.count, congrArg Prod.fst (runOn_countTokens returned), ?_⟩
    rw [count]
    exact congrArg Prod.fst (runOn_countTokens otherReturned)

/-- Two sources select different ids of a text that occurs three times, of which a special id is out of
play; where each text occurs once they select the same. -/
theorem steady_of_isByLength_with_duplicates :
    let tokenizer := ofVocabulary {
      tokens := #["ab".toList, "ab".toList, "ab".toList, ['a']]
      merges := none
      bos := none
      eos := none
      modelType := none
      specialIds := [0]
      bos_lt_size := by decide
      eos_lt_size := by decide
      specialIds_lt_size := by decide }
    let plain := ofVocabulary {
      tokens := #[[], "ab".toList, [], ['a']]
      merges := none
      bos := none
      eos := none
      modelType := none
      specialIds := []
      bos_lt_size := by decide
      eos_lt_size := by decide
      specialIds_lt_size := by decide }
    let options := { Options.ofStrategy .longest with preserveSpecial := false }
    let first : Desk Script := Desk.fresh ⟨[], [0], 0, 0⟩
    let second : Desk Script := Desk.fresh ⟨[], [1], 0, 0⟩
    let text : Text := "a?ab".toList
    options.strategy.IsByLength ∧ (Supply.current : Supply Script).IsReady ∧
    (∃ after, (tokenizer.tokenize options text .current).runOn first =
      (.ok ⟨text, [3, 1], [1]⟩, after)) ∧
    (∃ after, (tokenizer.tokenize options text .current).runOn second =
      (.ok ⟨text, [3, 2], [1]⟩, after)) ∧
    tokenizer.AlikeEndings ((tokenizer.tokenize options text .current).runOn first).1
      ((tokenizer.tokenize options text .current).runOn second).1 ∧
    plain.vocabulary.IsDistinct ∧
    ((plain.tokenize options text .current).runOn first).1 =
      ((plain.tokenize options text .current).runOn second).1 := by
  -- The runs are evaluated before names stand for their texts.
  refine ⟨.inl rfl, fun _ _ => rfl, ⟨_, rfl⟩, ⟨_, rfl⟩, ?_⟩
  have ready : (Supply.current : Supply Script).IsReady := fun _ _ => rfl
  have steady (tokenizer : Tokenizer) (text : Text) (first second : Desk Script) :=
    steady_of_isByLength tokenizer { Options.ofStrategy .longest with preserveSpecial := false } text
      (.inl rfl) .current .current ready ready none none first second
  refine ⟨(steady _ _ _ _).1, ?distinct, (steady _ _ _ _).2.1 ?distinct⟩
  unfold Vocabulary.IsDistinct
  decide

end Tessera.Tokenizer
