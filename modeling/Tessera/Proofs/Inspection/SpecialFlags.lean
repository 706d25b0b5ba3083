import Tessera.Proofs.Computation
import Tessera.Proofs.Vocabulary.SplitProperties
import Tessera.Vocabulary.Search

/-!
# Tokens that are shown as special

A tokenizer goes by the special ids of its vocabulary, an inspector by the ids that the special texts
are registered under. A text is registered once, and an empty one is not registered at all; so a listed
id that has no text of its own is not shown as special, unless it marks the beginning or the end.
-/

set_option autoImplicit false

namespace Tessera

open Tessera.Computation

namespace Vocabulary

variable {vocabulary : Vocabulary} {id : Nat}

/-- Whether an id marks the beginning or the end. -/
def IsMark (vocabulary : Vocabulary) (id : Nat) : Prop :=
  vocabulary.bos = some id ∨ vocabulary.eos = some id

/-- Whether an id is the first of the special ones with its text, which is not empty. -/
def LeadsText (vocabulary : Vocabulary) (id : Nat) : Prop :=
  ∃ text, text ≠ [] ∧ vocabulary.firstSpecial? text = some id

theorem isSpecial_iff : vocabulary.isSpecial id = true ↔
    id ∈ vocabulary.specialIds ∨ vocabulary.IsMark id := by
  simp [isSpecial, registeredIds, IsMark]

theorem LeadsText.isSpecial (leads : vocabulary.LeadsText id) : vocabulary.isSpecial id = true := by
  obtain ⟨text, -, first⟩ := leads
  exact List.contains_iff_mem.mpr (List.mem_of_find?_eq_some first)

end Vocabulary

namespace Tokenizer

variable {tokenizer : Tokenizer} {id : Nat}

theorem mem_special_iff : id ∈ tokenizer.special.map Prod.snd ↔ tokenizer.vocabulary.LeadsText id := by
  rw [tokenizer.special_eq, List.mem_map]
  constructor
  · intro registered
    obtain ⟨entry, member, rfl⟩ := registered
    exact ⟨entry.1, SpecialIndex.mem_ofVocabulary_iff.mp member⟩
  · intro leads
    obtain ⟨text, first⟩ := leads
    exact ⟨(text, id), SpecialIndex.mem_ofVocabulary_iff.mpr first, rfl⟩

theorem isSpecial_info_iff : (tokenizer.info id).isSpecial = true ↔
    tokenizer.vocabulary.LeadsText id ∨ tokenizer.vocabulary.IsMark id := by
  have shownIff : (tokenizer.info id).isSpecial = true ↔ id ∈ tokenizer.shownSpecialIds :=
    List.contains_iff_mem
  rw [shownIff, shownSpecialIds, List.mem_append, List.mem_append, mem_special_iff, or_assoc]
  simp [Vocabulary.IsMark]

/-! ## What is shown -/

/-- The tokens that an inspector shows, in an inspection, a series of them or what a search finds. -/
inductive Shows (tokenizer : Tokenizer) (shown : TokenInfo) : Prop
  | inspected {σ : Type} [RandomSource σ] {text : Text} {options : Options} {supply : Supply σ}
      {desk after : Desk σ} {inspection : Inspection}
      (returned : (tokenizer.inspect text options supply).runOn desk = (.ok inspection, after))
      (listed : shown ∈ inspection.tokens)
  | sampled {σ : Type} [RandomSource σ] {text : Text} {draws : Int} {options : Options}
      {given : Options.Overrides} {seed : Option Int} {supply : Supply σ} {desk after : Desk σ}
      {inspections : List Inspection} {inspection : Inspection}
      (returned : (tokenizer.sample text draws options given seed supply).runOn desk =
        (.ok inspections, after))
      (drawn : inspection ∈ inspections) (listed : shown ∈ inspection.tokens)
  | found {query : Text} {limit : Int} (listed : shown ∈ tokenizer.findTokens query limit)
  | fitting {query : Text} {limit : Int} {results : List TokenInfo}
      (searched : tokenizer.searchPattern query limit = .ok results) (listed : shown ∈ results)

section

variable {σ : Type} [RandomSource σ] {text : Text} {options : Options} {supply : Supply σ}
  {desk after : Desk σ}

theorem exists_tokenization_of_inspect {inspection : Inspection}
    (returned : (tokenizer.inspect text options supply).runOn desk = (.ok inspection, after)) :
    ∃ result, inspection = tokenizer.inspectionOf result := by
  obtain ⟨result, between, -, given⟩ := outcome_bind_eq_ok_iff.mp returned
  cases given
  exact ⟨result, rfl⟩

theorem exists_tokenization_of_samplesFrom {given : Options.Overrides} {seed : Option Int}
    {draw count : Nat} {inspections : List Inspection}
    (returned : (tokenizer.samplesFrom text options given seed supply draw count).runOn desk =
      (.ok inspections, after)) :
    ∀ inspection ∈ inspections, ∃ result, inspection = tokenizer.inspectionOf result := by
  induction count generalizing draw desk inspections with
  | zero =>
      cases returned
      simp
  | succ more ih =>
      obtain ⟨chosen, first, -, rest⟩ := outcome_bind_eq_ok_iff.mp returned
      obtain ⟨inspection, second, inspected, others⟩ := outcome_bind_eq_ok_iff.mp rest
      obtain ⟨further, last, sampled, given⟩ := outcome_bind_eq_ok_iff.mp others
      cases given
      exact List.forall_mem_cons.mpr ⟨exists_tokenization_of_inspect inspected, ih sampled⟩

end

theorem exists_info_of_mem_search {holds : Text → Bool} {limit : Int} {shown : TokenInfo}
    (listed : shown ∈ tokenizer.search holds limit) : ∃ id : Nat, shown = tokenizer.info id := by
  rw [search_eq] at listed
  obtain ⟨id, -, rfl⟩ := List.mem_map.mp listed
  exact ⟨id, rfl⟩

theorem exists_info_of_mem_inspectionOf {result : Tokenization} {shown : TokenInfo}
    (listed : shown ∈ (tokenizer.inspectionOf result).tokens) :
    ∃ id : Nat, shown = tokenizer.info id := by
  obtain ⟨id, -, rfl⟩ := List.mem_map.mp listed
  exact ⟨id, rfl⟩

theorem Shows.exists_info {shown : TokenInfo} (showsIt : tokenizer.Shows shown) :
    ∃ id : Nat, shown = tokenizer.info id := by
  cases showsIt with
  | inspected returned listed =>
      obtain ⟨result, rfl⟩ := exists_tokenization_of_inspect returned
      exact exists_info_of_mem_inspectionOf listed
  | sampled returned drawn listed =>
      obtain ⟨result, rfl⟩ := exists_tokenization_of_samplesFrom returned _ drawn
      exact exists_info_of_mem_inspectionOf listed
  | found listed => exact exists_info_of_mem_search listed
  | fitting searched listed =>
      obtain ⟨pattern, -, rfl⟩ := map_eq_ok_iff.mp searched
      exact exists_info_of_mem_search listed

/-! ## Searching for everything -/

theorem idsWhere_eq_range' {holds : Text → Bool} {texts : List Text}
    (all : ∀ text ∈ texts, holds text = true) (start : Nat) :
    idsWhere holds start texts = List.range' start texts.length := by
  induction texts generalizing start with
  | nil => rfl
  | cons first rest ih =>
      obtain ⟨firstHolds, restHold⟩ := List.forall_mem_cons.mp all
      rw [idsWhere, if_pos firstHolds, ih restHold, List.length_cons, List.range'_succ]

theorem occursIn_nil (text : Text) : Text.occursIn [] text = true := by
  cases text with
  | nil => rfl
  | cons c rest => rfl

/-- The empty query finds each token that is looked at. -/
theorem shows_info (inside : id < tokenizer.vocabulary.size) (near : id < searchLimit) :
    tokenizer.Shows (tokenizer.info id) := by
  have allFound : tokenizer.info id ∈ tokenizer.findTokens [] tokenizer.vocabulary.size := by
    rw [findTokens, search_eq]
    apply List.mem_map_of_mem
    rw [idsWhere_eq_range' (fun text _ => occursIn_nil text), List.length_take,
      Array.length_toList, List.take_of_length_le, List.mem_range'_1]
    · have lookedAt : id < min searchLimit tokenizer.vocabulary.tokens.size :=
        Nat.lt_min.mpr ⟨near, inside⟩
      exact ⟨Nat.zero_le id, (Nat.zero_add _).symm ▸ lookedAt⟩
    · rw [List.length_range', Int.toNat_natCast]
      exact Nat.le_trans (Nat.min_le_right _ _) (Nat.le_max_right _ _)
  exact .found allFound

/-- A token is shown as special if its id marks the beginning or the end or is the first special one with
its text. If that is so for all listed ids, the flags are right; a listed id for which it is not has a
wrong one. -/
theorem flags_of_shown (tokenizer : Tokenizer) :
    (∀ shown, tokenizer.Shows shown → ∃ id : Nat, shown.id = id ∧
      (shown.isSpecial = true ↔
        tokenizer.vocabulary.LeadsText id ∨ tokenizer.vocabulary.IsMark id)) ∧
    ((∀ id ∈ tokenizer.vocabulary.specialIds,
        tokenizer.vocabulary.LeadsText id ∨ tokenizer.vocabulary.IsMark id) →
      ∀ shown, tokenizer.Shows shown → ∃ id : Nat, shown.id = id ∧
        shown.isSpecial = tokenizer.vocabulary.isSpecial id) ∧
    (∀ id ∈ tokenizer.vocabulary.specialIds,
      ¬ (tokenizer.vocabulary.LeadsText id ∨ tokenizer.vocabulary.IsMark id) → id < searchLimit →
      ∃ shown, tokenizer.Shows shown ∧ shown.id = id ∧ shown.isSpecial = false ∧
        tokenizer.vocabulary.isSpecial id = true) := by
  refine ⟨?_, ?_, ?_⟩
  · intro shown showsIt
    obtain ⟨id, rfl⟩ := showsIt.exists_info
    exact ⟨id, rfl, isSpecial_info_iff⟩
  · intro allLead shown showsIt
    obtain ⟨id, rfl⟩ := showsIt.exists_info
    refine ⟨id, rfl, Bool.eq_iff_iff.mpr ?_⟩
    rw [isSpecial_info_iff, Vocabulary.isSpecial_iff]
    constructor
    · intro either
      rcases either with leads | mark
      · exact Vocabulary.isSpecial_iff.mp leads.isSpecial
      · exact .inr mark
    · intro either
      rcases either with listed | mark
      · exact allLead id listed
      · exact .inr mark
  · intro id listed neither near
    have inside := tokenizer.vocabulary.specialIds_lt_size id listed
    refine ⟨_, shows_info inside near, rfl, ?_, Vocabulary.isSpecial_iff.mpr (.inl listed)⟩
    rw [← Bool.not_eq_true, isSpecial_info_iff]
    exact neither

/-- Two special ids with one text, and a special id without a text: a search shows the second of the two
and the third one as plain tokens. -/
theorem findTokens_hides_special_ids :
    let vocabulary : Vocabulary := {
      tokens := #["<s>".toList, "<s>".toList, []]
      merges := none
      bos := none
      eos := none
      modelType := none
      specialIds := [0, 1, 2]
      bos_lt_size := by decide
      eos_lt_size := by decide
      specialIds_lt_size := by decide }
    (ofVocabulary vocabulary).findTokens [] defaultLimit =
        [⟨"<s>".toList, 0, 3, true⟩, ⟨"<s>".toList, 1, 3, false⟩, ⟨[], 2, 0, false⟩] ∧
      vocabulary.isSpecial 1 = true ∧ vocabulary.isSpecial 2 = true := by
  refine ⟨?_, ?_, ?_⟩
  · decide
  · decide
  · decide

end Tokenizer

end Tessera
