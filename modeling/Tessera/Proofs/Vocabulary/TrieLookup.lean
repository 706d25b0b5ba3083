import Mathlib.Data.List.Basic
import Mathlib.Data.Nat.Basic
import Tessera.Proofs.Order.StableSort
import Tessera.Proofs.Vocabulary.TrieProperties
import Tessera.Tokenizer.Tokenization

/-!
# Lookups

A walk through a trie finds what going through all entries finds, and so do the other ways to look up a text.
-/

set_option autoImplicit false

/-! ## Looking up every entry

Without a trie, the matches of a text are found by trying every entry, and sorting those that the
text starts with by their lengths. A walk through a trie of the entries finds the same matches in the
same order.
-/

namespace Tessera

variable {ι : Type}

namespace Trie

/-- The entries that a text starts with, the shortest first, and equally long ones in the order in which
they came. The empty text does not count. -/
def matchesAmong (entries : List (Text × ι)) (text : Text) : List (Match ι) :=
  ((entries.filter fun (key, _) => !key.isEmpty && key.isPrefixOf text).map
    fun (key, id) => (⟨id, key.length, key⟩ : Match ι)).mergeSort
      fun a b => decide (a.length ≤ b.length)

/-! ### The order of matches -/

theorem sorted_matchesAmong (entries : List (Text × ι)) (text : Text) :
    (matchesAmong entries text).Pairwise fun a b => a.length ≤ b.length :=
  (List.pairwise_mergeSort (key_le_trans Match.length) (key_le_total Match.length) _).imp
    of_decide_eq_true

theorem length_of_mem_matchesAmong {entries : List (Text × ι)} {text : Text} {found : Match ι}
    (member : found ∈ matchesAmong entries text) :
    0 < found.length ∧ found.length ≤ text.length := by
  obtain ⟨⟨key, id⟩, listed, rfl⟩ := List.mem_map.mp (List.mem_mergeSort.mp member)
  have starts : key ≠ [] ∧ key <+: text := by simpa using (List.mem_filter.mp listed).2
  exact ⟨List.length_pos_iff.mpr starts.1, starts.2.length_le⟩

/-! ### Matches of one length -/

theorem starts_and_long_iff {key text : Text} {k : Nat} (inside : k < text.length) :
    (key ≠ [] ∧ key <+: text) ∧ key.length = k + 1 ↔ key = text.take (k + 1) := by
  constructor
  · rintro ⟨⟨-, starts⟩, long⟩
    rw [List.prefix_iff_eq_take.mp starts, long]
  · rintro rfl
    have long : (text.take (k + 1)).length = k + 1 := by
      rw [List.length_take]
      omega
    exact ⟨⟨List.ne_nil_of_length_pos (by omega), List.take_prefix _ _⟩, long⟩

/-- Of one length there are the entries with one key, in the order in which they came. -/
theorem filter_length_matchesAmong (entries : List (Text × ι)) {text : Text} {k : Nat}
    (inside : k < text.length) :
    ((matchesAmong entries text).filter fun m => m.length = k + 1) =
      Node.matchesFor (text.take (k + 1))
        ((entries.filter fun entry => entry.1 = text.take (k + 1)).map Prod.snd) := by
  have sameKeys : ∀ entry ∈ entries,
      ((!entry.1.isEmpty && entry.1.isPrefixOf text) && decide (entry.1.length = k + 1)) =
        decide (entry.1 = text.take (k + 1)) := by
    intro entry _
    rw [Bool.eq_iff_iff, decide_eq_true_iff, ← starts_and_long_iff inside]
    simp
  rw [matchesAmong, filter_mergeSort (key_le_trans Match.length) (key_le_total Match.length)]
  · rw [List.filter_map, List.filter_filter]
    simp only [Function.comp_def, Bool.and_comm (decide _)]
    rw [List.filter_congr sameKeys, Node.matchesFor, List.map_map]
    refine List.map_congr_left fun entry member => ?_
    have same : entry.1 = text.take (k + 1) := by simpa using (List.mem_filter.mp member).2
    simp only [Function.comp_apply, same]
  · refine List.pairwise_of_forall_mem_list fun a aLong b bLong => ?_
    simp only [List.mem_filter, decide_eq_true_eq] at aLong bLong
    simp only [aLong.2, bLong.2, decide_eq_true_eq, Nat.le_refl]

/-- A walk through a trie of some entries finds what is found by trying each of them. -/
theorem matchesOf_insertEach (entries : List (Text × ι)) (text : Text) :
    (empty.insertEach entries).matchesOf text = matchesAmong entries text := by
  have bounded : ∀ m ∈ matchesAmong entries text, m.length < text.length + 1 :=
    fun m member => Nat.lt_succ_of_le (length_of_mem_matchesAmong member).2
  have noneEmpty : ((matchesAmong entries text).filter fun m => m.length = 0) = [] := by
    refine List.filter_eq_nil_iff.mpr fun m member => ?_
    have := (length_of_mem_matchesAmong member).1
    simp only [decide_eq_true_eq]
    omega
  rw [← flatMap_filter_key (sorted_matchesAmong entries text) bounded, List.range_succ_eq_map,
    List.flatMap_cons, noneEmpty, List.nil_append, List.flatMap_map, matchesOf_eq_flatMap]
  refine List.flatMap_congr fun k member => ?_
  have inside := List.mem_range.mp member
  have nonempty : text.take (k + 1) ≠ [] := ((starts_and_long_iff inside).mpr rfl).1.1
  rw [held_insertEach _ _ nonempty, filter_length_matchesAmong entries inside]
  exact congrArg (fun held => Node.matchesFor _ (held ++ _)) (Node.held_empty _)

/-! ### Depth -/

theorem maxDepth_insert (trie : Trie ι) (text : Text) (id : ι) :
    (trie.insert text id).maxDepth = max trie.maxDepth text.length := by
  unfold insert
  split
  · next empty => simp [List.isEmpty_iff.mp empty]
  · rfl

theorem maxDepth_insertEach (trie : Trie ι) (entries : List (Text × ι)) :
    (trie.insertEach entries).maxDepth =
      (entries.map fun entry => entry.1.length).foldl max trie.maxDepth := by
  induction entries generalizing trie with
  | nil => rfl
  | cons entry rest ih => rw [insertEach_cons, ih, maxDepth_insert, List.map_cons, List.foldl_cons]

/-- A trie is as deep as the longest of its texts is long. -/
theorem maxDepth_insertEach_empty (entries : List (Text × ι)) :
    ((empty : Trie ι).insertEach entries).maxDepth =
      ((entries.map fun entry => entry.1.length).max?).getD 0 := by
  rw [maxDepth_insertEach]
  cases entries with
  | nil => rfl
  | cons entry rest =>
      rw [List.map_cons, List.foldl_cons, List.max?_cons', Option.getD_some]
      exact congrArg (List.foldl max · _) (Nat.zero_max _)

/-! ### Lookups -/

/-- Looking up an offset of a text gives each entry that the rest of the text starts with, once, by
length and then in the order of insertion. For a tokenizer the entries are its tokens under their ids,
and there are no matches at an offset that is not inside the text. -/
theorem lookup_eq_matchesAmong (entries : List (Text × ι)) (tokenizer : Tokenizer) (text : Text) :
    (∀ start : Nat, (empty.insertEach entries).matchesAt text start =
      .ok (matchesAmong entries (text.drop start))) ∧
    ((empty : Trie ι).insertEach entries).maxDepth =
      ((entries.map fun entry => entry.1.length).max?).getD 0 ∧
    ∀ start : Int, tokenizer.tokensAt text start =
      if 0 ≤ start ∧ start < text.length then
        matchesAmong tokenizer.vocabulary.tokens.toList.zipIdx (text.drop start.toNat)
      else [] := by
  refine ⟨fun start => ?_, maxDepth_insertEach_empty entries, fun start => ?_⟩
  · exact congrArg Except.ok (matchesOf_insertEach entries (text.drop start))
  · have tokens := matchesOf_insertEach tokenizer.vocabulary.tokens.toList.zipIdx
    rw [← insertAll_eq_insertEach, ← ofTokens, ← tokenizer.trie_eq] at tokens
    cases start with
    | ofNat offset => simp [Tokenizer.tokensAt, tokens]
    | negSucc back => simp [Tokenizer.tokensAt]

end Trie

end Tessera

/-! ## Ways to look up a text

A text can be looked up as a token in three ways: the trie says whether it holds the text, a walk along
the text finds the ids held for the whole of it, and an index has the first id of each text. They agree
for every text but the empty one, which a trie does not hold.
-/

namespace Tessera

variable {ι : Type}

/-- The ids of the matches of a certain length. -/
def Match.idsOfLength (length : Nat) (found : List (Match ι)) : List ι :=
  (found.filter fun m => m.length = length).map Match.id

namespace Trie

/-! ### The whole of a text -/

theorem idsOfLength_matchesFor (text : Text) (ids : List ι) (length : Nat) :
    Match.idsOfLength length (Node.matchesFor text ids) =
      if text.length = length then ids else [] := by
  rw [Match.idsOfLength, Node.matchesFor, List.filter_map, List.map_map]
  by_cases same : text.length = length
  · simp [same, Function.comp_def]
  · simp [same, Function.comp_def]

theorem idsOfLength_flatMap {α : Type} (length : Nat) (parts : List α) (found : α → List (Match ι)) :
    Match.idsOfLength length (parts.flatMap found) =
      parts.flatMap fun part => Match.idsOfLength length (found part) := by
  rw [Match.idsOfLength, List.filter_flatMap, List.map_flatMap]
  rfl

/-- The walk along a text finds the ids that are held for the whole of it. -/
theorem idsOfLength_matchesOf (trie : Trie ι) {text : Text} (nonempty : text ≠ []) :
    Match.idsOfLength text.length (trie.matchesOf text) = trie.root.held text := by
  obtain ⟨last, long⟩ : ∃ last, text.length = last + 1 :=
    Nat.exists_eq_succ_of_ne_zero (Nat.ne_of_gt (List.length_pos_iff.mpr nonempty))
  have shorter : ∀ k ∈ List.range last, Match.idsOfLength text.length
      (Node.matchesFor (text.take (k + 1)) (trie.root.held (text.take (k + 1)))) = [] := by
    intro k listed
    have before := List.mem_range.mp listed
    rw [idsOfLength_matchesFor, if_neg]
    rw [List.length_take]
    omega
  have whole : text.take (last + 1) = text := by rw [← long, List.take_length]
  rw [matchesOf_eq_flatMap, idsOfLength_flatMap, congrArg List.range long, List.range_succ,
    List.flatMap_append, List.flatMap_eq_nil_iff.mpr shorter, List.flatMap_singleton, whole,
    idsOfLength_matchesFor, if_pos rfl, List.nil_append]

theorem contains_iff {trie : Trie ι} {text : Text} :
    trie.contains text = true ↔ text ≠ [] ∧ trie.root.held text ≠ [] := by
  rw [contains, Node.held]
  cases Node.descend? text trie.root <;> simp

/-! ### Ids of a text -/

theorem pairwise_idsFrom (id : Nat) (path : Text) (tokens : List Text) :
    (idsFrom id path tokens).Pairwise (· < ·) := by
  have increasing : ((tokens.zipIdx id).map Prod.snd).Pairwise (· < ·) := by
    rw [List.zipIdx_map_snd]
    exact List.pairwise_lt_range'
  rw [idsFrom_eq_map_filter]
  exact increasing.sublist (List.filter_sublist.map Prod.snd)

theorem head?_idsFrom (id : Nat) (path : Text) (tokens : List Text) :
    (idsFrom id path tokens).head? = (tokens.findIdx? (· = path)).map (· + id) := by
  induction tokens generalizing id with
  | nil => rfl
  | cons token rest ih =>
      rw [List.findIdx?_cons]
      by_cases same : token = path
      · simp [idsFrom, List.zipIdx_cons, same]
      · have later : idsFrom id path (token :: rest) = idsFrom (id + 1) path rest := by
          simp [idsFrom, List.zipIdx_cons, same]
        rw [later, ih]
        simp only [same, decide_false, Bool.false_eq_true, ↓reduceIte, Option.map_map]
        congr 1
        funext place
        simp only [Function.comp_apply]
        omega

end Trie

namespace Vocabulary

/-! ### The index of first ids -/

/-- Notes the id of a text, unless an id has been noted for it before. -/
def noteFirst (index : List (Text × Nat)) (entry : Text × Nat) : List (Text × Nat) :=
  if (index.lookup entry.1).isSome then index else index ++ [entry]

/-- The first id of each text, as it is noted token by token. -/
def firstIds (vocabulary : Vocabulary) : List (Text × Nat) :=
  vocabulary.tokens.toList.zipIdx.foldl noteFirst []

theorem lookup_noteFirst (index : List (Text × Nat)) (entry : Text × Nat) (text : Text) :
    (noteFirst index entry).lookup text =
      (index.lookup text).or (if entry.1 = text then some entry.2 else none) := by
  obtain ⟨key, id⟩ := entry
  rw [noteFirst]
  by_cases same : key = text
  · subst same
    rw [if_pos rfl]
    cases noted : index.lookup key with
    | some first => simp [noted]
    | none => simp [List.lookup_append, noted]
  · have apart : (text == key) = false := by simpa using Ne.symm same
    rw [if_neg same, Option.or_none]
    split
    · rfl
    · simp [List.lookup_append, List.lookup_cons, apart]

theorem lookup_foldl_noteFirst (index entries : List (Text × Nat)) (text : Text) :
    (entries.foldl noteFirst index).lookup text =
      (index.lookup text).or ((entries.filter fun entry => entry.1 = text).map Prod.snd).head? := by
  induction entries generalizing index with
  | nil => simp
  | cons entry rest ih =>
      rw [List.foldl_cons, ih, lookup_noteFirst, Option.or_assoc]
      by_cases same : entry.1 = text <;> simp [same]

theorem head?_idsFrom_eq_id? (vocabulary : Vocabulary) (text : Text) :
    (Trie.idsFrom 0 text vocabulary.tokens.toList).head? = vocabulary.id? text := by
  rw [Trie.head?_idsFrom, id?, ← List.findIdx?_toArray]
  simp

theorem lookup_firstIds (vocabulary : Vocabulary) (text : Text) :
    vocabulary.firstIds.lookup text = vocabulary.id? text := by
  rw [firstIds, lookup_foldl_noteFirst, ← Trie.idsFrom_eq_map_filter, head?_idsFrom_eq_id?]
  rfl

end Vocabulary

namespace Tokenizer

/-- The three ways to look a text up agree: the trie holds the text exactly if it has an id, and exactly if
a walk along it finds a match as long as the text. The ids of such matches are the ids of all tokens with
this text in increasing order, and the first of them is the one in the index. The empty text is never held,
whether it is a token or not. -/
theorem lookups_agree (tokenizer : Tokenizer) (text : Text) :
    (text ≠ [] → ∃ found, tokenizer.trie.matchesAt text 0 = .ok found ∧
      (tokenizer.trie.contains text = true ↔ ∃ id, tokenizer.vocabulary.id? text = some id) ∧
      (tokenizer.trie.contains text = true ↔ ∃ m ∈ found, m.length = text.length) ∧
      (∀ id, id ∈ Match.idsOfLength text.length found ↔
        tokenizer.vocabulary.tokens[id]? = some text) ∧
      (Match.idsOfLength text.length found).Pairwise (· < ·) ∧
      (Match.idsOfLength text.length found).head? = tokenizer.vocabulary.id? text) ∧
    tokenizer.vocabulary.firstIds.lookup text = tokenizer.vocabulary.id? text ∧
    tokenizer.trie.contains [] = false := by
  refine ⟨?_, tokenizer.vocabulary.lookup_firstIds text, rfl⟩
  intro nonempty
  have heldEq : tokenizer.trie.root.held text =
      Trie.idsFrom 0 text tokenizer.vocabulary.tokens.toList := by
    rw [tokenizer.trie_eq, Trie.held_ofTokens _ nonempty]
  have idsEq := (tokenizer.trie.idsOfLength_matchesOf nonempty).trans heldEq
  have firstEq := tokenizer.vocabulary.head?_idsFrom_eq_id? text
  have containedIff : tokenizer.trie.contains text = true ↔
      Trie.idsFrom 0 text tokenizer.vocabulary.tokens.toList ≠ [] := by
    rw [Trie.contains_iff, heldEq]
    exact and_iff_right nonempty
  refine ⟨tokenizer.trie.matchesOf text, rfl, ?_, ?_, ?_, ?_, ?_⟩
  · rw [containedIff, ← firstEq, ← Option.isSome_iff_exists, List.isSome_head?]
  · rw [containedIff, ← idsEq, Match.idsOfLength]
    simp
  · intro id
    rw [idsEq, Trie.mem_idsFrom_iff, Array.getElem?_toList]
  · rw [idsEq]
    exact Trie.pairwise_idsFrom _ _ _
  · rw [idsEq]
    exact firstEq

/-- A text with two ids, a longer token and an empty one: the second id is found by the walk alone. -/
theorem lookups_agree_of_duplicates :
    let tokenizer := ofVocabulary {
      tokens := #["ab".toList, [], "abc".toList, "a".toList, "ab".toList]
      merges := none
      bos := none
      eos := none
      modelType := none
      specialIds := []
      bos_lt_size := by decide
      eos_lt_size := by decide
      specialIds_lt_size := by decide }
    "ab".toList ≠ [] ∧ tokenizer.vocabulary.id? [] = some 1 ∧ tokenizer.trie.contains [] = false ∧
    ∃ found, tokenizer.trie.matchesAt "ab".toList 0 = .ok found ∧
      found.map Match.id = [3, 0, 4] ∧ Match.idsOfLength 2 found = [0, 4] ∧
      (Match.idsOfLength 2 found).head? = tokenizer.vocabulary.id? "ab".toList ∧
      tokenizer.trie.contains "ab".toList = true := by
  intro tokenizer
  have nonempty : "ab".toList ≠ [] := by decide
  obtain ⟨found, lookedUp, containedIff, -, -, -, first⟩ :=
    (lookups_agree tokenizer "ab".toList).1 nonempty
  have whole : tokenizer.trie.matchesAt "ab".toList 0 =
      .ok [⟨3, 1, ['a']⟩, ⟨0, 2, ['a', 'b']⟩, ⟨4, 2, ['a', 'b']⟩] := by decide
  cases whole.symm.trans lookedUp
  obtain ⟨-, indexed, notHeld⟩ := lookups_agree tokenizer []
  have emptyId : tokenizer.vocabulary.firstIds.lookup [] = some 1 := by decide
  have firstId : tokenizer.vocabulary.id? "ab".toList = some 0 := first.symm.trans (by decide)
  exact ⟨nonempty, indexed.symm.trans emptyId, notHeld, _, lookedUp, by decide, by decide, first,
    containedIff.mpr ⟨0, firstId⟩⟩

end Tokenizer

end Tessera
