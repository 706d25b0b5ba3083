import Mathlib.Data.List.Nodup
import Mathlib.Data.List.NodupEquivFin
import Mathlib.Data.List.Sigma
import Tessera.Proofs.Random.ProportionalChoice
import Tessera.Proofs.Tokenizer.SpecialIds
import Tessera.Proofs.Vocabulary.TrieLookup

/-!
# Candidates in play

At a place of a text the tokens that match are narrowed down: a special id is passed over where special
texts are broken up and another id will do, and a strategy may ask for the shortest or the longest. One
number drawn from the source then decides among the tokens that are left. Where all are as likely, each
number that can be drawn stands for one of them.
-/

set_option autoImplicit false

namespace Tessera

namespace Selection

variable {σ α : Type}

/-- The candidates among which a strategy has one drawn. -/
def pool (strategy : Strategy) (length : α → Int) (candidates : List α) : List α :=
  match strategy with
  | .random => candidates
  | .shortest => shortestOf length candidates
  | .longest => longestOf length candidates
  | .idealLength => candidates

theorem mem_pool_iff {strategy : Strategy} {length : α → Int} {candidates : List α}
    {candidate : α} : candidate ∈ pool strategy length candidates ↔
      candidate ∈ candidates ∧
      (strategy = .shortest → ∀ other ∈ candidates, length candidate ≤ length other) ∧
      (strategy = .longest → ∀ other ∈ candidates, length other ≤ length candidate) := by
  cases strategy with
  | random => simp [pool]
  | shortest => simp [pool, mem_shortestOf_iff]
  | longest => simp [pool, mem_longestOf_iff]
  | idealLength => simp [pool]

theorem pool_eq_nil_iff {strategy : Strategy} {length : α → Int} {candidates : List α} :
    pool strategy length candidates = [] ↔ candidates = [] := by
  cases strategy with
  | random => exact Iff.rfl
  | shortest => exact shortestOf_eq_nil_iff
  | longest => exact longestOf_eq_nil_iff
  | idealLength => exact Iff.rfl

theorem nodup_pool {strategy : Strategy} {length : α → Int} {candidates : List α}
    (nodup : candidates.Nodup) : (pool strategy length candidates).Nodup := by
  cases strategy with
  | random => exact nodup
  | shortest => exact nodup.filter _
  | longest => exact nodup.filter _
  | idealLength => exact nodup

variable [RandomSource σ]

/-- Where all elements are as likely, the number that is drawn is the place of the one selected. -/
theorem uniform_eq {elements : List α} (positive : 0 < elements.length) (source : σ) :
    uniform elements source =
      some (elements.get (RandomSource.below elements.length positive source).1,
        (RandomSource.below elements.length positive source).2) := by
  cases elements with
  | nil => cases positive
  | cons first rest => rfl

/-- Where elements are weighted, the draw falls on the place of the one selected. -/
theorem weighted_eq {weight : α → Float} {elements : List α} {place : Nat} {element : α} {source : σ}
    (falls : Weighted.index? (elements.map weight) (RandomSource.fraction source).1 = some place)
    (placed : elements[place]? = some element) :
    weighted weight elements source = some (element, (RandomSource.fraction source).2) := by
  cases elements with
  | nil => cases placed
  | cons first rest => simp only [weighted, falls, Option.getD_some, placed]

/-- A strategy other than the weighted one draws a place in its pool. -/
theorem select_eq_of_uniform {strategy : Strategy} (unweighted : strategy ≠ .idealLength)
    {ideal : Float} {length : α → Int} {candidates : List α} (source : σ) :
    select strategy ideal length candidates source =
      uniform (pool strategy length candidates) source := by
  cases strategy with
  | random => rfl
  | shortest => rfl
  | longest => rfl
  | idealLength => exact absurd rfl unweighted

end Selection

/-! ## Matches at a place -/

namespace Trie

/-- No two matches of a text bear one id. -/
theorem nodup_matchesOf_ofTokens (tokens : List Text) (text : Text) :
    ((ofTokens tokens).matchesOf text).Nodup := by
  have distinct : tokens.zipIdx.Nodup := .of_map Prod.snd (List.nodup_zipIdx_map_snd tokens)
  rw [ofTokens, insertAll_eq_insertEach, matchesOf_insertEach, matchesAmong,
    (List.mergeSort_perm _ _).nodup_iff]
  refine (distinct.filter _).map fun entry other same => ?_
  obtain ⟨idsEq, -, textsEq⟩ := (Match.mk.injEq ..).mp same
  exact Prod.ext textsEq idsEq

end Trie

namespace Tokenizer

variable {tokenizer : Tokenizer} {options : Options} {rest : Text} {found : Match Nat}

/-- Whether a match may be selected where a text starts: it bears a token that the text starts with, and
where special texts are broken up, its id is not a special one unless all that match are. -/
structure IsEligible (tokenizer : Tokenizer) (options : Options) (rest : Text) (found : Match Nat) :
    Prop where
  isToken : found.IsToken tokenizer.vocabulary
  starts : found.text <+: rest
  lastResort : options.preserveSpecial = false →
    tokenizer.vocabulary.isSpecial found.id = true → ¬ tokenizer.vocabulary.MatchesPlain rest

/-- Whether a match is one of those among which one is drawn: of the eligible ones, all, the shortest or
the longest. -/
structure InPlay (tokenizer : Tokenizer) (options : Options) (rest : Text) (found : Match Nat) :
    Prop where
  eligible : tokenizer.IsEligible options rest found
  shortest : options.strategy = .shortest → ∀ other, tokenizer.IsEligible options rest other →
    found.text.length ≤ other.text.length
  longest : options.strategy = .longest → ∀ other, tokenizer.IsEligible options rest other →
    other.text.length ≤ found.text.length

theorem mem_matchesOf_iff : found ∈ tokenizer.trie.matchesOf rest ↔
    found.IsToken tokenizer.vocabulary ∧ found.text <+: rest := by
  constructor
  · exact matchesOf_isToken tokenizer
  · intro ⟨isToken, starts⟩
    rw [tokenizer.trie_eq, Trie.mem_matchesOf_ofTokens_iff]
    exact ⟨by simpa using isToken.token_eq, isToken.nonempty, starts, isToken.length_eq⟩

theorem exists_plain_iff : (∃ other ∈ tokenizer.trie.matchesOf rest,
      tokenizer.vocabulary.isSpecial other.id = false) ↔ tokenizer.vocabulary.MatchesPlain rest := by
  constructor
  · intro ⟨other, member, plain⟩
    obtain ⟨isToken, starts⟩ := mem_matchesOf_iff.mp member
    exact ⟨other.id, other.text, isToken.token_eq, plain, isToken.nonempty, starts⟩
  · intro ⟨id, token, held, plain, nonempty, starts⟩
    exact ⟨_, mem_matchesOf held nonempty starts, plain⟩

theorem mem_eligible_iff : found ∈ tokenizer.eligible options (tokenizer.trie.matchesOf rest) ↔
    tokenizer.IsEligible options rest found := by
  have eligibleIff : tokenizer.IsEligible options rest found ↔
      found ∈ tokenizer.trie.matchesOf rest ∧ (options.preserveSpecial = false →
        tokenizer.vocabulary.isSpecial found.id = true → ¬ tokenizer.vocabulary.MatchesPlain rest) := by
    rw [mem_matchesOf_iff]
    exact ⟨fun all => ⟨⟨all.isToken, all.starts⟩, all.lastResort⟩,
      fun all => ⟨all.1.1, all.1.2, all.2⟩⟩
  rw [eligibleIff, ← exists_plain_iff]
  unfold eligible
  cases options.preserveSpecial with
  | true => simp
  | false =>
      simp only [Bool.false_eq_true, ↓reduceIte, List.isEmpty_iff, List.filter_eq_nil_iff]
      split
      · next nonePlain =>
          refine (and_iff_left fun _ _ => ?_).symm
          intro ⟨other, member, plain⟩
          exact nonePlain other member (by rw [plain, Bool.not_false])
      · next somePlain =>
          have plainMatch : ∃ other ∈ tokenizer.trie.matchesOf rest,
              tokenizer.vocabulary.isSpecial other.id = false := by simpa using somePlain
          simp [plainMatch]

/-- The matches among which one is drawn where a text starts. -/
def pool (tokenizer : Tokenizer) (options : Options) (rest : Text) : List (Match Nat) :=
  Selection.pool options.strategy Match.extent
    (tokenizer.eligible options (tokenizer.trie.matchesOf rest))

theorem mem_pool_iff : found ∈ tokenizer.pool options rest ↔ tokenizer.InPlay options rest found := by
  have extentLe {first second : Match Nat} (isToken : first.IsToken tokenizer.vocabulary)
      (other : second.IsToken tokenizer.vocabulary) :
      first.extent ≤ second.extent ↔ first.text.length ≤ second.text.length := by
    rw [← isToken.length_eq, ← other.length_eq]
    exact Int.ofNat_le
  rw [pool, Selection.mem_pool_iff]
  simp only [mem_eligible_iff]
  constructor
  · intro ⟨eligible, shortest, longest⟩
    refine ⟨eligible, fun strategy other also => ?_, fun strategy other also => ?_⟩
    · exact (extentLe eligible.isToken also.isToken).mp (shortest strategy other also)
    · exact (extentLe also.isToken eligible.isToken).mp (longest strategy other also)
  · intro ⟨eligible, shortest, longest⟩
    refine ⟨eligible, fun strategy other also => ?_, fun strategy other also => ?_⟩
    · exact (extentLe eligible.isToken also.isToken).mpr (shortest strategy other also)
    · exact (extentLe also.isToken eligible.isToken).mpr (longest strategy other also)

theorem pool_eq_nil_iff : tokenizer.pool options rest = [] ↔ ¬ tokenizer.vocabulary.Matches rest :=
  Selection.pool_eq_nil_iff.trans (eligible_eq_nil_iff.trans matchesOf_eq_nil_iff)

theorem nodup_pool (tokenizer : Tokenizer) (options : Options) (rest : Text) :
    (tokenizer.pool options rest).Nodup := by
  have distinct : (tokenizer.trie.matchesOf rest).Nodup :=
    tokenizer.trie_eq ▸ Trie.nodup_matchesOf_ofTokens _ rest
  refine Selection.nodup_pool ?_
  unfold eligible
  split
  · exact distinct
  · dsimp only
    split
    · exact distinct
    · exact distinct.filter _

end Tokenizer

end Tessera
