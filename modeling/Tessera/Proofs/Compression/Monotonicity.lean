import Tessera.Proofs.Compression.Results
import Tessera.Proofs.Number.FloatOrder
import Tessera.Proofs.Tokenizer.StaysAhead
import Tessera.Proofs.Tokenizer.Uncovered

/-!
# Numbers of tokens

How the numbers of tokens compare: those of the longest tokens with those of the shortest, and with those
of any other way to make up a text.
-/

set_option autoImplicit false

/-! ## Compression by the longest and by the shortest tokens

The longest tokens give no more ids than the shortest ones where they keep up with them. Walking
without lookahead, they do not keep up everywhere.
-/

namespace Tessera

theorem Comparison.one_le_improvement {comparison : Comparison}
    (fewer : comparison.most.count ≤ comparison.least.count) : 1 ≤ comparison.improvement := by
  unfold improvement
  split
  · decide
  · next someIds => exact one_le_ratio (Nat.pos_of_ne_zero someIds) fewer

namespace Tokenizer

/-- Whether a walk by the longest tokens keeps up with the pieces that one by the shortest tokens takes
off each plain segment. -/
def KeepsUpIn (tokenizer : Tokenizer) (text : Text) : Prop :=
  ∀ segment ∈ tokenizer.segments .default text, segment.special = none →
    ∀ pieces, tokenizer.vocabulary.ShortestPieces segment.text pieces →
      tokenizer.vocabulary.KeepsUp [] pieces

theorem keepsUpIn_of_characters {tokenizer : Tokenizer} {text : Text}
    (characters : ∀ c ∈ text, [c] ∈ tokenizer.vocabulary.tokens) : tokenizer.KeepsUpIn text := by
  intro segment member _ pieces shortest
  have inside : ∀ c ∈ segment.text, [c] ∈ tokenizer.vocabulary.tokens := fun c listed =>
    characters c (List.mem_of_mem_drop ((prefix_of_mem_segments member).subset listed))
  exact shortest.keepsUp_of_characters inside []

theorem keepsUpIn_of_endings {tokenizer : Tokenizer} {text : Text}
    (closed : ∀ token ∈ tokenizer.vocabulary.tokens, ∀ ending, ending ≠ [] → ending <:+ token →
      ending ∈ tokenizer.vocabulary.tokens) : tokenizer.KeepsUpIn text :=
  fun _ _ _ _ shortest => Vocabulary.keepsUp_of_endings closed shortest.listed []

theorem segments_of_preserveSpecial {options : Options} (whole : options.preserveSpecial = true)
    (tokenizer : Tokenizer) (text : Text) :
    tokenizer.segments options text = tokenizer.segments .default text := by
  simp only [segments, whole]
  rfl

variable {σ : Type} [RandomSource σ]

theorem length_ids_le {tokenizer : Tokenizer} {text : Text} {longest shortest : Options}
    {source other : σ} (keepsUp : tokenizer.KeepsUpIn text)
    (byLongest : longest.strategy = .longest) (byShortest : shortest.strategy = .shortest)
    (whole : longest.preserveSpecial = true) (whole' : shortest.preserveSpecial = true)
    (finished : (tokenizer.walk longest text source).uncovered = none)
    (finished' : (tokenizer.walk shortest text other).uncovered = none)
    (lossless : (tokenizer.walk longest text source).skipped = [])
    (lossless' : (tokenizer.walk shortest text other).skipped = []) :
    (tokenizer.walk longest text source).ids.length ≤
      (tokenizer.walk shortest text other).ids.length := by
  have traces := walk_traces finished
  have traces' := walk_traces finished'
  rw [segments_of_preserveSpecial whole] at traces
  rw [segments_of_preserveSpecial whole'] at traces'
  rw [Walk.ids, Walk.ids, length_ids_of_lossless lossless, length_ids_of_lossless lossless']
  exact traces.length_le (choose_longest tokenizer byLongest whole)
    (choose_shortest tokenizer byShortest whole') keepsUp traces' lossless lossless'

/-! ### Calls -/

/-- If the longest tokens keep up and neither walk leaves anything out, the strongest compression takes
no more ids than the weakest one, in a comparison as in the statistics. They keep up if each character of
the text is a token, and if each end of a token is one. -/
theorem compression_monotone (tokenizer : Tokenizer) (text : Text) (seed : Option Nat)
    (supply : Supply σ) (desk between after : Desk σ) (longest shortest : Tokenization)
    (byLongest : (tokenizer.tokenize { Options.ofStrategy .longest with seed := seed } text
      supply).runOn desk = (.ok longest, between))
    (byShortest : (tokenizer.tokenize { Options.ofStrategy .shortest with seed := seed } text
      supply).runOn between = (.ok shortest, after))
    (lossless : longest.skipped = []) (lossless' : shortest.skipped = []) :
    (tokenizer.KeepsUpIn text →
      (∃ comparison, (tokenizer.compare text (seed.map Int.ofNat) supply).runOn desk =
          (.ok comparison, after) ∧
        comparison.most.count ≤ comparison.least.count ∧ 1 ≤ comparison.improvement) ∧
      ∃ statistics, (tokenizer.statistics text (seed.map Int.ofNat) supply).runOn desk =
          (.ok statistics, after) ∧
        statistics.minTokens ≤ statistics.maxTokens) ∧
    ((∀ c ∈ text, [c] ∈ tokenizer.vocabulary.tokens) → tokenizer.KeepsUpIn text) ∧
    ((∀ token ∈ tokenizer.vocabulary.tokens, ∀ ending, ending ≠ [] → ending <:+ token →
      ending ∈ tokenizer.vocabulary.tokens) → tokenizer.KeepsUpIn text) := by
  refine ⟨?_, keepsUpIn_of_characters, keepsUpIn_of_endings⟩
  intro keepsUp
  have fewer : longest.ids.length ≤ shortest.ids.length := by
    obtain ⟨source, finished, _, _, bos, eos, rfl⟩ := exists_walk_of_tokenize byLongest
    obtain ⟨source', finished', _, _, bos', eos', rfl⟩ := exists_walk_of_tokenize byShortest
    cases mark_of_not_requested rfl bos
    cases mark_of_not_requested rfl eos
    cases mark_of_not_requested rfl bos'
    cases mark_of_not_requested rfl eos'
    simp only [List.nil_append, List.append_nil]
    exact length_ids_le keepsUp rfl rfl rfl rfl finished finished' lossless lossless'
  have fewerCounted : (tokenizer.compressed text longest.ids).count ≤
      (tokenizer.compressed text shortest.ids).count := by
    simpa [Compressed.count, compressed] using fewer
  exact ⟨⟨_, runOn_compare seed byLongest byShortest, fewerCounted,
      Comparison.one_le_improvement fewerCounted⟩,
    ⟨_, runOn_statistics seed byLongest byShortest, Int.ofNat_le.mpr fewer⟩⟩

/-- Each end of a token is a token, though one of the characters is not; a special text counts once in
both compressions. -/
theorem compression_monotone_of_endings :
    let tokenizer := ofVocabulary {
      tokens := #[['#'], ['b'], "ab".toList, "bab".toList]
      merges := none
      bos := none
      eos := none
      modelType := none
      specialIds := [0]
      bos_lt_size := by decide
      eos_lt_size := by decide
      specialIds_lt_size := by decide }
    let desk : Desk Script := Desk.fresh ⟨[], [], 0, 0⟩
    let text : Text := "bab#ab".toList
    let longest : Tokenization := ⟨text, [3, 0, 2], []⟩
    let shortest : Tokenization := ⟨text, [1, 2, 0, 2], []⟩
    ∃ between after,
      (tokenizer.tokenize (.ofStrategy .longest) text .current).runOn desk =
        (.ok longest, between) ∧
      (tokenizer.tokenize (.ofStrategy .shortest) text .current).runOn between =
        (.ok shortest, after) ∧
      tokenizer.KeepsUpIn text ∧
      (∃ comparison, (tokenizer.compare text none .current).runOn desk = (.ok comparison, after) ∧
        comparison.most.count ≤ comparison.least.count ∧ 1 ≤ comparison.improvement) ∧
      ∃ statistics, (tokenizer.statistics text none .current).runOn desk =
          (.ok statistics, after) ∧
        statistics.minTokens ≤ statistics.maxTokens := by
  intro tokenizer desk text longest shortest
  let between : Desk Script := ⟨⟨[], [], 0, 2⟩, #[]⟩
  let after : Desk Script := ⟨⟨[], [], 0, 5⟩, #[]⟩
  have byLongest : (tokenizer.tokenize (.ofStrategy .longest) text .current).runOn desk =
      (.ok longest, between) := rfl
  have byShortest : (tokenizer.tokenize (.ofStrategy .shortest) text .current).runOn between =
      (.ok shortest, after) := rfl
  obtain ⟨monotone, -, ofEndings⟩ := compression_monotone tokenizer text none .current desk _ _
    longest shortest byLongest byShortest rfl rfl
  have keepsUp : tokenizer.KeepsUpIn text := by
    apply ofEndings
    simp +contextual [tokenizer, ofVocabulary, List.suffix_cons_iff, or_imp]
  exact ⟨_, _, byLongest, byShortest, keepsUp, monotone keepsUp⟩

/-- The first token that is taken may be longer, and all others shorter. -/
theorem compression_not_monotone :
    let tokenizer := ofVocabulary {
      tokens := #[['a'], "ab".toList, "bcd".toList, ['c'], ['d']]
      merges := none
      bos := none
      eos := none
      modelType := none
      specialIds := []
      bos_lt_size := by decide
      eos_lt_size := by decide
      specialIds_lt_size := by decide }
    let desk : Desk Script := Desk.fresh ⟨[], [], 0, 0⟩
    let text : Text := "abcd".toList
    ∃ between after,
      (tokenizer.tokenize (.ofStrategy .longest) text .current).runOn desk =
        (.ok ⟨text, [1, 3, 4], []⟩, between) ∧
      (tokenizer.tokenize (.ofStrategy .shortest) text .current).runOn between =
        (.ok ⟨text, [0, 2], []⟩, after) ∧
      (∃ comparison, (tokenizer.compare text none .current).runOn desk = (.ok comparison, after) ∧
        ¬ comparison.most.count ≤ comparison.least.count ∧ ¬ 1 ≤ comparison.improvement) ∧
      ∃ statistics, (tokenizer.statistics text none .current).runOn desk =
          (.ok statistics, after) ∧
        ¬ statistics.minTokens ≤ statistics.maxTokens := by
  intro tokenizer desk text
  let between : Desk Script := ⟨⟨[], [], 0, 3⟩, #[]⟩
  let after : Desk Script := ⟨⟨[], [], 0, 5⟩, #[]⟩
  have byLongest : (tokenizer.tokenize (.ofStrategy .longest) text .current).runOn desk =
      (.ok ⟨text, [1, 3, 4], []⟩, between) := rfl
  have byShortest : (tokenizer.tokenize (.ofStrategy .shortest) text .current).runOn between =
      (.ok ⟨text, [0, 2], []⟩, after) := rfl
  refine ⟨_, _, byLongest, byShortest, ⟨_, runOn_compare none byLongest byShortest, ?_, ?_⟩,
    ⟨_, runOn_statistics none byLongest byShortest, ?_⟩⟩
  · decide
  · decide
  · decide

end Tokenizer

/-! ## Where the longest tokens are the fewest

Walking without lookahead may take more tokens than there need be. It does not where each end of a
token is a token: then a walk by the longest tokens leaves nothing out of a text that tokens make up,
and no ids of the text are fewer than its own.
-/

namespace Vocabulary

variable {vocabulary : Vocabulary}

/-- Whether each end of a token that is not empty is a token. -/
def HoldsEndings (vocabulary : Vocabulary) : Prop :=
  ∀ token ∈ vocabulary.tokens, ∀ ending, ending ≠ [] → ending <:+ token →
    ending ∈ vocabulary.tokens

/-- The texts that ids contribute. -/
def contributions (vocabulary : Vocabulary) (ids : List Int) : List Text :=
  (ids.map fun id => (vocabulary.token? id).getD []).filter fun piece => !piece.isEmpty

theorem flatten_contributions (vocabulary : Vocabulary) (ids : List Int) :
    (vocabulary.contributions ids).flatten = vocabulary.decode ids := by
  rw [contributions, List.flatten_filter_not_isEmpty, decode, List.flatMap_def]

theorem length_contributions_le (vocabulary : Vocabulary) (ids : List Int) :
    (vocabulary.contributions ids).length ≤ ids.length := by
  have fewer := List.length_filter_le (fun piece : Text => !piece.isEmpty)
    (ids.map fun id => (vocabulary.token? id).getD [])
  rwa [List.length_map] at fewer

theorem mem_tokens_of_mem_contributions {ids : List Int} {piece : Text}
    (member : piece ∈ vocabulary.contributions ids) : piece ∈ vocabulary.tokens := by
  obtain ⟨listed, nonempty⟩ := List.mem_filter.mp member
  obtain ⟨id, -, rfl⟩ := List.mem_map.mp listed
  cases id with
  | negSucc => simp [token?] at nonempty
  | ofNat id =>
      cases held : vocabulary.tokens[id]? with
      | none => simp [token?, held] at nonempty
      | some token => simpa [token?, held] using Array.mem_of_getElem? held

/-- Wherever a text made of tokens is divided, a token starts what is behind. -/
theorem HoldsEndings.matches (closed : vocabulary.HoldsEndings) {pieces : List Text}
    (listed : ∀ piece ∈ pieces, piece ∈ vocabulary.tokens) {front rest : Text}
    (stands : front ++ rest = pieces.flatten) (nonempty : rest ≠ []) : vocabulary.Matches rest := by
  induction pieces generalizing front with
  | nil => exact absurd (List.append_eq_nil_iff.mp stands).2 nonempty
  | cons piece pieces ih =>
      obtain ⟨first, others⟩ := List.forall_mem_cons.mp listed
      rcases past_or_within stands with ⟨beyond, -, behind⟩ | ⟨ending, someLeft, rfl, rfl⟩
      · exact ih others behind
      · have ends : ending <:+ front ++ ending := List.suffix_append _ _
        exact ⟨ending, closed _ first ending someLeft ends, someLeft, List.prefix_append _ _⟩

end Vocabulary

namespace Tokenizer

variable {tokenizer : Tokenizer} {options : Options} {text : Text}

/-! ### Without special ids -/

section

variable (plain : tokenizer.vocabulary.registeredIds = [])

include plain

theorem not_uncoveredIn_of_holdsEndings (closed : tokenizer.vocabulary.HoldsEndings)
    {pieces : List Text} (listed : ∀ piece ∈ pieces, piece ∈ tokenizer.vocabulary.tokens)
    (made : pieces.flatten = text) (place : Nat) (segment : Segment Nat) :
    ¬ tokenizer.UncoveredIn options text place segment := by
  intro uncovered
  have member := uncovered.member
  rw [segments_of_no_special plain] at member
  split at member
  · cases member
  obtain rfl := List.mem_singleton.mp member
  have inside : place < text.length := by simpa [Segment.stop] using uncovered.lt_stop
  have stands : text.take place ++ text.drop place = pieces.flatten :=
    (List.take_append_drop _ _).trans made.symm
  exact uncovered.unmatched
    (closed.matches listed stands fun empty =>
      Nat.not_le_of_lt inside (List.drop_eq_nil_iff.mp empty))

variable {σ : Type} [RandomSource σ]

theorem choose_longest_of_no_special (strategy : options.strategy = .longest) :
    LongestChoice tokenizer.vocabulary (tokenizer.choose (σ := σ) options) where
  sound := choose_sound tokenizer options
  isLongest text source token next chosen := by
    -- There are no special texts, so the choice is one that preserves them.
    let preserving : Options := { options with preserveSpecial := true }
    have byLongest : preserving.strategy = .longest := strategy
    have same : tokenizer.choose preserving text source = some (token, next) := by
      rw [← chosen, choose, choose, eligible_of_no_special plain, eligible_of_no_special plain]
    exact isLongest_of_choose byLongest rfl same

theorem Traces.trace_of_no_special {source last : σ} {decisions : List Decision}
    (traces : Traces (tokenizer.choose options) (tokenizer.segments options text) source decisions
      last) :
    Trace (tokenizer.choose options) 0 text source decisions last := by
  rw [segments_of_no_special plain] at traces
  split at traces
  · next empty =>
      subst empty
      cases traces
      exact .done
  · cases traces with
    | special special => cases special
    | plain _ trace further =>
        cases further
        rwa [List.append_nil]

end

/-! ### Calls -/

variable {σ : Type} [RandomSource σ]

/-- Where there are no special ids and each end of a token is a token, compression by the longest tokens
leaves nothing out of a text that some ids decode to, and takes no more ids than those. -/
theorem compress_is_least (tokenizer : Tokenizer) (text : Text) (seed : Option Nat)
    (preserveSpecial : Bool) (supply : Supply σ) (desk : Desk σ)
    (plain : tokenizer.vocabulary.registeredIds = [])
    (closed : tokenizer.vocabulary.HoldsEndings)
    (supplied : (supply.begin? (seed.map Int.ofNat) desk.source).isSome = true)
    (ids : List Int) (made : tokenizer.detokenize ids = text) :
    ∃ tokenization after,
      (tokenizer.tokenize
          { Options.ofStrategy .longest with seed := seed, preserveSpecial := preserveSpecial } text
          supply).runOn desk = (.ok tokenization, after) ∧
        tokenization.skipped = [] ∧
      ∃ result, (tokenizer.compress text (seed.map Int.ofNat) preserveSpecial supply).runOn desk =
          (.ok result, after) ∧
        tokenizer.detokenize result.ids = text ∧ result.count ≤ ids.length := by
  let options : Options :=
    { Options.ofStrategy .longest with seed := seed, preserveSpecial := preserveSpecial }
  obtain ⟨source, begun⟩ := Option.isSome_iff_exists.mp supplied
  have unfailing : options.IsUnfailing := ⟨rfl, rfl, rfl, rfl⟩
  obtain ⟨notices, returned⟩ := runOn_tokenize_of_isUnfailing unfailing begun tokenizer text
  have finished := walk_finished_of_lenient unfailing.lenient tokenizer text source
  have listed : ∀ piece ∈ tokenizer.vocabulary.contributions ids,
      piece ∈ tokenizer.vocabulary.tokens :=
    fun _ member => Vocabulary.mem_tokens_of_mem_contributions member
  have whole : (tokenizer.vocabulary.contributions ids).flatten = text :=
    (Vocabulary.flatten_contributions _ ids).trans made
  have lossless := walk_skipped_eq_nil finished
    (not_uncoveredIn_of_holdsEndings plain closed listed whole)
  have trace := Traces.trace_of_no_special plain (walk_traces finished)
  have few : (tokenizer.walk options text source).ids.length ≤ ids.length := by
    rw [Walk.ids, length_ids_of_lossless lossless]
    have spells : tokenizer.vocabulary.Spells [] ([] ++ []) := ⟨by simp, rfl⟩
    have keepsUp := Vocabulary.keepsUp_of_endings closed listed []
    have byLongest : options.strategy = .longest := rfl
    have longest := choose_longest_of_no_special (σ := σ) plain byLongest
    have stands : [] ++ text = (tokenizer.vocabulary.contributions ids).flatten := whole.symm
    exact Nat.le_trans (trace.length_le_of_keepsUp longest keepsUp lossless stands spells)
      (Vocabulary.length_contributions_le _ ids)
  have covers := walk_covers tokenizer options text source finished
  refine ⟨_, _, returned, lossless, _, runOn_compress seed preserveSpecial returned,
    covers.decode_eq_self lossless, ?_⟩
  simpa [Compressed.count, compressed] using few

/-- One of the characters is no token. The text is told in three ids as well as in two; an empty token
and an unknown id add nothing to it. -/
theorem compress_is_least_of_endings :
    let tokenizer := ofVocabulary {
      tokens := #[[], ['b'], "ab".toList, "bab".toList]
      merges := none
      bos := none
      eos := none
      modelType := none
      specialIds := []
      bos_lt_size := by decide
      eos_lt_size := by decide
      specialIds_lt_size := by decide }
    let desk : Desk Script := Desk.fresh ⟨[], [], 0, 0⟩
    let text : Text := "babab".toList
    tokenizer.vocabulary.registeredIds = [] ∧ tokenizer.vocabulary.HoldsEndings ∧
    ∀ ids ∈ [[1, 2, 2], [3, 0, 2, 9], [(3 : Int), 2]], tokenizer.detokenize ids = text ∧
      ∃ result after, (tokenizer.compress text none true .current).runOn desk =
          (.ok result, after) ∧
        result.ids = [3, 2] ∧ result.count ≤ ids.length := by
  intro tokenizer desk text
  have closed : tokenizer.vocabulary.HoldsEndings := by
    unfold Vocabulary.HoldsEndings
    simp +contextual [tokenizer, ofVocabulary, List.suffix_cons_iff, or_imp]
  refine ⟨rfl, closed, fun ids member => ?_⟩
  have made : tokenizer.detokenize ids = text := by
    simp only [List.mem_cons, List.not_mem_nil, or_false] at member
    rcases member with rfl | rfl | rfl <;> rfl
  obtain ⟨_, after, _, _, result, returned, _, few⟩ :=
    compress_is_least tokenizer text none true .current desk rfl closed rfl ids made
  refine ⟨made, result, after, returned, ?_, few⟩
  cases returned
  rfl

end Tokenizer

end Tessera
