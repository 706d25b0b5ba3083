import Tessera.Proofs.Pattern.Fitting
import Tessera.Vocabulary.Search

/-!
# What a search finds

A search lists the first tokens with a text that is searched for, in order of their ids. As the limit
is looked at once a token has been found, at least one is listed if there is any. So the limit is kept
where at least one token is asked for, and elsewhere only if there is nothing to find.
-/

set_option autoImplicit false

namespace Tessera

theorem Text.occursIn_iff {needle text : Text} : needle.occursIn text = true ↔ needle <:+: text := by
  induction text with
  | nil => simp [occursIn]
  | cons c rest ih =>
      rw [occursIn, Bool.or_eq_true, ih, List.isPrefixOf_iff_prefix, List.infix_cons_iff]

namespace Tokenizer

variable {tokenizer : Tokenizer} {wanted : Text → Prop}

/-! ## Ids that are wanted -/

theorem mem_idsWhere_iff {holds : Text → Bool} {first id : Nat} {texts : List Text} :
    id ∈ idsWhere holds first texts ↔
      ∃ place text, id = first + place ∧ texts[place]? = some text ∧ holds text = true := by
  induction texts generalizing first with
  | nil => simp [idsWhere]
  | cons text rest ih =>
      have restIff : id ∈ idsWhere holds (first + 1) rest ↔
          ∃ place other, id = first + (place + 1) ∧ (text :: rest)[place + 1]? = some other ∧
            holds other = true := by
        rw [ih]
        simp only [List.getElem?_cons_succ, Nat.add_assoc, Nat.add_comm 1]
      rw [idsWhere]
      split
      · next held =>
          rw [List.mem_cons, restIff]
          constructor
          · intro found
            rcases found with rfl | ⟨place, found⟩
            · exact ⟨0, text, rfl, rfl, held⟩
            · exact ⟨place + 1, found⟩
          · intro found
            obtain ⟨place, other, same, further⟩ := found
            cases place with
            | zero => exact .inl same
            | succ place => exact .inr ⟨place, other, same, further⟩
      · next refused =>
          rw [restIff]
          constructor
          · intro found
            obtain ⟨place, further⟩ := found
            exact ⟨place + 1, further⟩
          · intro found
            obtain ⟨place, other, same, stands, held⟩ := found
            cases place with
            | zero =>
                cases stands
                exact absurd held refused
            | succ place => exact ⟨place, other, same, stands, held⟩

theorem pairwise_idsWhere (holds : Text → Bool) (first : Nat) (texts : List Text) :
    (idsWhere holds first texts).Pairwise (· < ·) := by
  induction texts generalizing first with
  | nil => exact .nil
  | cons text rest ih =>
      rw [idsWhere]
      split
      · refine .cons ?_ (ih (first + 1))
        intro id member
        obtain ⟨place, -, rfl, -, -⟩ := mem_idsWhere_iff.mp member
        omega
      · exact ih (first + 1)

/-- Whether a token is among those that a search looks at, and its text is wanted. -/
def IsFound (tokenizer : Tokenizer) (wanted : Text → Prop) (id : Nat) : Prop :=
  id < searchLimit ∧ ∃ text, tokenizer.vocabulary.tokens[id]? = some text ∧ wanted text

/-- Whether tokens are the first ones whose texts are wanted, in order of their ids and as many as the
limit says, or all of them if there are not so many. -/
def ListsFirst (tokenizer : Tokenizer) (wanted : Text → Prop) (limit : Int)
    (listed : List TokenInfo) : Prop :=
  ∃ ids : List Nat, ids.Pairwise (· < ·) ∧ (∀ id, id ∈ ids ↔ tokenizer.IsFound wanted id) ∧
    listed = (ids.take limit.toNat).map tokenizer.info

theorem mem_idsWhere_leading_iff {holds : Text → Bool}
    (holdsIff : ∀ text, holds text = true ↔ wanted text) {id : Nat} :
    id ∈ idsWhere holds 0 (tokenizer.vocabulary.tokens.toList.take searchLimit) ↔
      tokenizer.IsFound wanted id := by
  rw [mem_idsWhere_iff, IsFound]
  simp only [Nat.zero_add, List.getElem?_take, Array.getElem?_toList, holdsIff]
  constructor
  · intro found
    obtain ⟨place, text, rfl, stands, isWanted⟩ := found
    split at stands
    · next leading => exact ⟨leading, text, stands, isWanted⟩
    · cases stands
  · intro found
    obtain ⟨leading, text, stands, isWanted⟩ := found
    exact ⟨id, text, rfl, by rw [if_pos leading]; exact stands, isWanted⟩

theorem ListsFirst.length_le {limit : Int} {listed : List TokenInfo}
    (lists : tokenizer.ListsFirst wanted limit listed) : listed.length ≤ limit.toNat := by
  obtain ⟨ids, -, -, rfl⟩ := lists
  rw [List.length_map, List.length_take]
  exact Nat.min_le_left _ _

theorem search_listsFirst {holds : Text → Bool}
    (holdsIff : ∀ text, holds text = true ↔ wanted text) (limit : Int) :
    tokenizer.ListsFirst wanted (max 1 limit) (tokenizer.search holds limit) := by
  refine ⟨_, pairwise_idsWhere holds 0 _, fun id => mem_idsWhere_leading_iff holdsIff, ?_⟩
  have same : (max 1 limit).toNat = max 1 limit.toNat := by omega
  rw [search_eq, same]

/-- A search keeps to its limit if at least one token is asked for, and else if there is none. -/
theorem search_listsFirst_iff {holds : Text → Bool}
    (holdsIff : ∀ text, holds text = true ↔ wanted text) (limit : Int) :
    tokenizer.ListsFirst wanted limit (tokenizer.search holds limit) ↔
      1 ≤ limit ∨ ∀ id, ¬ tokenizer.IsFound wanted id := by
  have listsOne : tokenizer.ListsFirst wanted (max 1 limit) (tokenizer.search holds limit) :=
    search_listsFirst holdsIff limit
  constructor
  · intro lists
    rcases Int.lt_or_le limit 1 with noneAsked | someAsked
    · obtain ⟨ids, -, foundIff, listedEq⟩ := listsOne
      have short := lists.length_le
      rw [listedEq, List.length_map, List.length_take] at short
      have nothing : ids = [] := List.length_eq_zero_iff.mp (by omega)
      refine .inr fun id found => ?_
      rw [← foundIff, nothing] at found
      cases found
    · exact .inl someAsked
  · intro kept
    rcases kept with someAsked | noneFound
    · rwa [Int.max_eq_right someAsked] at listsOne
    · obtain ⟨ids, increasing, foundIff, listedEq⟩ := listsOne
      have nothing : ids = [] := by
        rw [List.eq_nil_iff_forall_not_mem]
        exact fun id member => noneFound id ((foundIff id).mp member)
      refine ⟨ids, increasing, foundIff, ?_⟩
      rw [listedEq, nothing, List.take_nil, List.take_nil]

/-! ## Searches -/

/-- A search for a text or by a pattern lists the first tokens that contain the text, or a part that
fits the pattern, one of them at least if there is any. So what it lists are the first ones up to the
limit exactly if at least one is asked for or there is none. -/
theorem searches_listFirst_iff (tokenizer : Tokenizer) (limit : Int) :
    (∀ query : Text,
      tokenizer.ListsFirst (query <:+: ·) (max 1 limit) (tokenizer.findTokens query limit) ∧
      (tokenizer.ListsFirst (query <:+: ·) limit (tokenizer.findTokens query limit) ↔
        1 ≤ limit ∨ ∀ id, ¬ tokenizer.IsFound (query <:+: ·) id)) ∧
    ∀ (query : Text) (pattern : Pattern), Pattern.ofText query = .ok pattern →
      ∃ listed, tokenizer.searchPattern query limit = .ok listed ∧
        tokenizer.ListsFirst pattern.FitsPartOf (max 1 limit) listed ∧
        (tokenizer.ListsFirst pattern.FitsPartOf limit listed ↔
          1 ≤ limit ∨ ∀ id, ¬ tokenizer.IsFound pattern.FitsPartOf id) := by
  constructor
  · intro query
    have containsIff : ∀ text, Text.occursIn query text = true ↔ query <:+: text :=
      fun _ => Text.occursIn_iff
    exact ⟨search_listsFirst containsIff limit, search_listsFirst_iff containsIff limit⟩
  · intro query pattern read
    refine ⟨tokenizer.search pattern.occursIn limit, by rw [searchPattern, read]; rfl, ?_⟩
    exact ⟨search_listsFirst pattern.occursIn_iff limit,
      search_listsFirst_iff pattern.occursIn_iff limit⟩

/-- A text in four of six tokens and a pattern that three of them fit, with two asked for. -/
theorem searches_listFirst_iff_of_two :
    let tokenizer := ofVocabulary {
      tokens := #["ab".toList, "b".toList, "cab".toList, [], "abb".toList, "abab".toList]
      merges := none
      bos := none
      eos := none
      modelType := none
      specialIds := []
      bos_lt_size := by decide
      eos_lt_size := by decide
      specialIds_lt_size := by decide }
    tokenizer.ListsFirst ("ab".toList <:+: ·) 2 (tokenizer.findTokens "ab".toList 2) ∧
    ∃ pattern listed, Pattern.ofText "^(ab){1,}b?$".toList = .ok pattern ∧
      tokenizer.searchPattern "^(ab){1,}b?$".toList 2 = .ok listed ∧
      tokenizer.ListsFirst pattern.FitsPartOf 2 listed ∧ listed.map TokenInfo.id = [0, 4] := by
  intro tokenizer
  obtain ⟨containing, fitting⟩ := searches_listFirst_iff tokenizer 2
  have read : ∃ pattern, Pattern.ofText "^(ab){1,}b?$".toList = .ok pattern := ⟨_, rfl⟩
  obtain ⟨pattern, read⟩ := read
  obtain ⟨listed, searched, -, keptIff⟩ := fitting _ pattern read
  refine ⟨(containing _).2.mpr (.inl (by decide)), pattern, listed, read, searched,
    keptIff.mpr (.inl (by decide)), ?_⟩
  have found : (tokenizer.searchPattern "^(ab){1,}b?$".toList 2).map
      (List.map TokenInfo.id) = .ok [0, 4] := rfl
  rw [searched] at found
  exact Except.ok.inj found

/-- One token is listed where none is asked for. -/
theorem searches_exceed_no_limit :
    let tokenizer := ofVocabulary {
      tokens := #[['a']]
      merges := none
      bos := none
      eos := none
      modelType := none
      specialIds := []
      bos_lt_size := by decide
      eos_lt_size := by decide
      specialIds_lt_size := by decide }
    ¬ tokenizer.ListsFirst (['a'] <:+: ·) 0 (tokenizer.findTokens ['a'] 0) ∧
      ∃ pattern listed, Pattern.ofText ['a'] = .ok pattern ∧
        tokenizer.searchPattern ['a'] 0 = .ok listed ∧
        ¬ tokenizer.ListsFirst pattern.FitsPartOf 0 listed := by
  intro tokenizer
  constructor
  · intro lists
    exact absurd lists.length_le (by decide)
  · refine ⟨_, _, rfl, rfl, ?_⟩
    intro lists
    exact absurd lists.length_le (by decide)

end Tokenizer

end Tessera
