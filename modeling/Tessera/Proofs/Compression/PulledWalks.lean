import Tessera.Proofs.Compression.Results
import Tessera.Proofs.Tokenizer.StrictWalks
import Tessera.Proofs.Tokenizer.Uncovered

/-!
# Compression by a gradient

A walk under a pull towards long or short tokens is not cut at special texts, and its choice differs
from that of other walks. It covers its text all the same: whatever the pull and the random numbers
make of the weights, the pieces follow each other without a gap but for characters where no token
matches.
-/

set_option autoImplicit false

namespace Tessera.Tokenizer

variable {σ : Type}

/-! ## Tokens at a place -/

theorem tokensAt_eq_matchesOf (tokenizer : Tokenizer) {text : Text} {place : Nat}
    (inside : place < text.length) :
    tokenizer.tokensAt text place = tokenizer.trie.matchesOf (text.drop place) := if_pos inside

theorem ne_nil_tokensAt_of_character {tokenizer : Tokenizer} {text : Text} {place : Nat}
    (inside : place < text.length) (character : [text[place]] ∈ tokenizer.vocabulary.tokens) :
    tokenizer.tokensAt text place ≠ [] := by
  intro noneMatches
  rw [tokensAt_eq_matchesOf tokenizer inside, matchesOf_eq_nil_iff] at noneMatches
  apply noneMatches
  refine ⟨[text[place]], character, List.cons_ne_nil _ _, ?_⟩
  rw [List.drop_eq_getElem_cons inside]
  exact List.prefix_append [text[place]] _

/-! ## Walks under a pull -/

section

variable [RandomSource σ]

theorem choosePulled_sound (tokenizer : Tokenizer) (pull : Float) :
    SoundChoice tokenizer.vocabulary (tokenizer.choosePulled (σ := σ) pull) := by
  intro text source token next selected
  exact matchesOf_isToken tokenizer (Selection.mem_of_weighted selected)

variable (tokenizer : Tokenizer) (pull : Float) (text : Text) (source : σ)

theorem walkPulled_trace :
    Trace (tokenizer.choosePulled pull) 0 text source
      (tokenizer.walkPulled pull text source).decisions
      (tokenizer.walkPulled pull text source).source :=
  along_trace (choosePulled_sound tokenizer pull) false 0 text source
    (along_finished (tokenizer.choosePulled pull) 0 0 text source)

theorem walkPulled_covers :
    Covers tokenizer.vocabulary 0 text (tokenizer.walkPulled pull text source).decisions :=
  (walkPulled_trace tokenizer pull text source).covers (choosePulled_sound tokenizer pull)

variable {tokenizer pull text source}

/-- Nothing matches where a character is left out. -/
theorem tokensAt_of_walkPulled_skipped {place : Nat}
    (skipped : place ∈ (tokenizer.walkPulled pull text source).skipped) :
    place < text.length ∧ tokenizer.tokensAt text place = [] := by
  obtain ⟨decision, made, leftOut⟩ := List.mem_filterMap.mp skipped
  obtain ⟨offset, state, positionEq, inside, follows⟩ :=
    (walkPulled_trace tokenizer pull text source).follows (choosePulled_sound tokenizer pull) made
  cases decision with
  | emit => cases leftOut
  | preserve => cases leftOut
  | skip position c =>
      cases leftOut
      have same : place = offset := positionEq.trans (Nat.zero_add offset)
      subst same
      have absent : tokenizer.choosePulled pull (text.drop place) state = none := follows
      rw [choosePulled, Selection.pulled, Selection.weighted_eq_none_iff] at absent
      exact ⟨inside, (tokensAt_eq_matchesOf tokenizer inside).trans absent⟩

end

/-! ## What stands for a text -/

/-- Whether a compressed text stands for a text but for the characters at some places, where nothing
matches. The pieces are the texts of the ids, and none is empty. -/
structure StandsForAllBut (tokenizer : Tokenizer) (deleted : List Nat) (text : Text)
    (result : Compressed) : Prop where
  text_eq : result.text = text
  token_eq : result.ids.map tokenizer.vocabulary.token? = result.pieces.map some
  nonempty : ∀ piece ∈ result.pieces, piece ≠ []
  flatten_eq : result.pieces.flatten = text.without deleted
  increasing : deleted.Pairwise (· < ·)
  unmatched : ∀ place ∈ deleted, place < text.length ∧ tokenizer.tokensAt text place = []

section

variable {tokenizer : Tokenizer} {deleted : List Nat} {text : Text} {result : Compressed}

theorem StandsForAllBut.deleted_eq_nil (stands : tokenizer.StandsForAllBut deleted text result)
    (characters : ∀ c ∈ text, [c] ∈ tokenizer.vocabulary.tokens) : deleted = [] := by
  rw [List.eq_nil_iff_forall_not_mem]
  intro place member
  obtain ⟨inside, noneMatches⟩ := stands.unmatched place member
  have character := characters text[place] (List.getElem_mem inside)
  exact ne_nil_tokensAt_of_character inside character noneMatches

theorem StandsForAllBut.detokenize_eq (stands : tokenizer.StandsForAllBut deleted text result) :
    tokenizer.detokenize result.ids = text.without deleted := by
  have texts : result.ids.map (fun id => (tokenizer.vocabulary.token? id).getD []) =
      result.pieces := by
    have same := congrArg (List.map (Option.getD · [])) stands.token_eq
    simpa [Function.comp_def] using same
  rw [detokenize, Vocabulary.decode, List.flatMap_def, texts, stands.flatten_eq]

variable [RandomSource σ]

theorem walkPulled_standsForAllBut (tokenizer : Tokenizer) (pull : Float) (text : Text)
    (source : σ) :
    tokenizer.StandsForAllBut (tokenizer.walkPulled pull text source).skipped text
      (tokenizer.compressed text (tokenizer.walkPulled pull text source).ids) := by
  have covers := walkPulled_covers tokenizer pull text source
  refine ⟨rfl, ?_, ?_, ?_, covers.skipped_increasing, ?_⟩
  · simp only [compressed, List.map_map]
    apply List.map_congr_left
    intro id member
    exact (covers.piece_of_id member).1
  · intro piece member
    obtain ⟨id, idMember, rfl⟩ := List.mem_map.mp member
    exact (covers.piece_of_id idMember).2
  · rw [flatten_pieces_compressed]
    exact covers.decode_eq
  · intro place skipped
    exact tokensAt_of_walkPulled_skipped skipped

end

/-! ## Calls -/

variable [RandomSource σ]

theorem runOn_compressByGradient {gradient : Number}
    (within : -1 ≤ gradient.toFloat ∧ gradient.toFloat ≤ 1) {seed : Option Int}
    {supply : Supply σ} {desk : Desk σ} {source : σ}
    (begun : supply.begin? seed desk.source = some source) (tokenizer : Tokenizer) (text : Text) :
    ∃ after, (tokenizer.compressByGradient text gradient seed supply).runOn desk =
      (.ok (tokenizer.compressed text (tokenizer.walkPulled gradient.toFloat text source).ids),
        after) := by
  change ∃ after, Computation.outcome (tokenizer.compressByGradient text gradient seed supply) desk =
    (_, after)
  simp only [compressByGradient, within, decide_true, Bool.and_self, Bool.not_true,
    Bool.false_eq_true, ↓reduceIte]
  rw [Computation.outcome_bind, outcome_start, begun]
  dsimp only
  rw [Computation.outcome_bind, outcome_take]
  exact ⟨_, rfl⟩

/-- A compression by a gradient gives the texts of tokens, none of them empty, which make up the text
without some characters. None of these stands where a token matches, so nothing is lost of a text
whose characters are all tokens. -/
theorem compressByGradient_stands_for_text (tokenizer : Tokenizer) (text : Text)
    (gradient : Number) (within : -1 ≤ gradient.toFloat ∧ gradient.toFloat ≤ 1)
    (seed : Option Int) (supply : Supply σ) (desk : Desk σ)
    (begun : (supply.begin? seed desk.source).isSome = true) :
    ∃ result after deleted,
      (tokenizer.compressByGradient text gradient seed supply).runOn desk = (.ok result, after) ∧
      tokenizer.StandsForAllBut deleted text result ∧
      ((∀ c ∈ text, [c] ∈ tokenizer.vocabulary.tokens) →
        deleted = [] ∧ tokenizer.detokenize result.ids = text) := by
  obtain ⟨source, begun⟩ := Option.isSome_iff_exists.mp begun
  obtain ⟨after, returned⟩ := runOn_compressByGradient within begun tokenizer text
  have stands := walkPulled_standsForAllBut tokenizer gradient.toFloat text source
  refine ⟨_, after, _, returned, stands, ?_⟩
  intro characters
  have nothing := stands.deleted_eq_nil characters
  refine ⟨nothing, ?_⟩
  rw [stands.detokenize_eq, nothing]
  exact Text.withoutFrom_eq_self _ _ (by simp)

/-- A special text may be taken whole or broken up, and a mark that no token has is left out. -/
theorem compressByGradient_stands_for_text_with_special :
    let tokenizer := ofVocabulary {
      tokens := #["<s>".toList, ['<'], ['s'], ['>'], ['a'], ['a', 'b'], ['b'], []]
      merges := none
      bos := some 0
      eos := none
      modelType := none
      specialIds := [0]
      bos_lt_size := by decide
      eos_lt_size := by decide
      specialIds_lt_size := by decide }
    let desk := Desk.fresh (⟨[0.5], [], 0, 0⟩ : Script)
    (∃ result after deleted,
      (tokenizer.compressByGradient "<s>a?b".toList (.real (-0.5)) none .current).runOn desk =
        (.ok result, after) ∧
      tokenizer.StandsForAllBut deleted "<s>a?b".toList result ∧ ∀ place ∈ deleted, place = 4) ∧
    ∃ result after,
      (tokenizer.compressByGradient "<s>ab".toList (.real 1) none .current).runOn desk =
        (.ok result, after) ∧
      tokenizer.detokenize result.ids = "<s>ab".toList := by
  intro tokenizer desk
  constructor
  · obtain ⟨result, after, deleted, returned, stands, -⟩ :=
      compressByGradient_stands_for_text tokenizer "<s>a?b".toList (.real (-0.5)) (by decide) none
        .current desk rfl
    refine ⟨result, after, deleted, returned, stands, ?_⟩
    intro place member
    obtain ⟨inside, noneMatches⟩ := stands.unmatched place member
    have onlyMark : ∀ place < 6, tokenizer.tokensAt "<s>a?b".toList (place : Nat) = [] →
        place = 4 := by decide +kernel
    exact onlyMark place inside noneMatches
  · obtain ⟨result, after, deleted, returned, -, whole⟩ :=
      compressByGradient_stands_for_text tokenizer "<s>ab".toList (.real 1) (by decide) none
        .current desk rfl
    have characters : ∀ c ∈ "<s>ab".toList, [c] ∈ tokenizer.vocabulary.tokens := by
      simp [tokenizer, ofVocabulary]
    exact ⟨result, after, returned, (whole characters).2⟩

end Tessera.Tokenizer
