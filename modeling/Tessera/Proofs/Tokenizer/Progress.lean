import Mathlib.Data.List.Basic
import Tessera.Proofs.Compression.PulledWalks
import Tessera.Proofs.Computation
import Tessera.Proofs.Tokenizer.Passages
import Tessera.Proofs.Vocabulary.SplitProperties

/-!
# Searches and walks that come to an end

Every search for a needle that is not empty ends, and so does every passage through a text.
-/

set_option autoImplicit false

/-! ## Searching for occurrences

A needle is looked for from the end of its last occurrence on, until it does not occur any more. The
empty needle occurs there again and again, so that a search for it never ends. Every other search
ends, and what it has found are the occurrences without overlap.
-/

namespace Tessera

/-- The first place at or behind `start` where a needle occurs. The empty needle occurs everywhere, at
the end of the text too. -/
def firstPlace? (needle text : Text) (start : Nat) : Option Nat :=
  (List.range (text.length + 1)).find? fun place =>
    decide (start ≤ place) && needle.isPrefixOf (text.drop place)

/-- What a search has found so far, and where it has found the needle once more. -/
structure OccurrenceSearch where
  found : List Nat
  next? : Option Nat

namespace OccurrenceSearch

def start (needle text : Text) : OccurrenceSearch := ⟨[], firstPlace? needle text 0⟩

/-- Keeps the place where the needle was found, and looks for it behind that occurrence. -/
def round? (needle text : Text) (search : OccurrenceSearch) : Option OccurrenceSearch :=
  search.next?.map fun place =>
    ⟨search.found ++ [place], firstPlace? needle text (place + needle.length)⟩

end OccurrenceSearch

section

variable {needle text : Text} {position place : Nat}

/-! ### The first place -/

theorem firstPlace?_eq_some (found : firstPlace? needle text position = some place) :
    position ≤ place ∧ needle <+: text.drop place := by
  obtain ⟨holds, -, -⟩ := List.find?_range_eq_some.mp found
  simpa using holds

theorem firstPlace?_of_occurs (inside : position ≤ text.length) (occurs : needle <+: text.drop position) :
    firstPlace? needle text position = some position := by
  refine List.find?_range_eq_some.mpr ⟨?_, List.mem_range.mpr (by omega), ?_⟩
  · simpa using occurs
  · intro earlier before
    simp [Nat.not_le.mpr before]

theorem firstPlace?_of_absent (absent : ¬ needle <+: text.drop position) :
    firstPlace? needle text position = firstPlace? needle text (position + 1) := by
  have same : ∀ place, (decide (position ≤ place) && needle.isPrefixOf (text.drop place)) =
      (decide (position + 1 ≤ place) && needle.isPrefixOf (text.drop place)) := by
    intro place
    by_cases here : position = place
    · subst here
      have notStarting : needle.isPrefixOf (text.drop position) = false := by
        simpa [← List.isPrefixOf_iff_prefix] using absent
      simp [notStarting]
    · have alike : position ≤ place ↔ position + 1 ≤ place := by omega
      simp only [alike]
  simp only [firstPlace?, same]

theorem firstPlace?_eq_none_of_end (nonempty : needle ≠ []) (ended : text.length ≤ position) :
    firstPlace? needle text position = none := by
  refine List.find?_range_eq_none.mpr ?_
  intro place _
  by_cases ahead : position ≤ place
  · have nothingLeft : text.drop place = [] := List.drop_eq_nil_of_le (by omega)
    have notStarting : needle.isPrefixOf [] = false := by
      rw [← Bool.not_eq_true, List.isPrefixOf_iff_prefix, List.prefix_nil]
      exact nonempty
    simp [nothingLeft, notStarting]
  · simp [ahead]

theorem lt_length_of_firstPlace? (nonempty : needle ≠ [])
    (found : firstPlace? needle text position = some place) : place < text.length :=
  lt_length_of_occurs nonempty (firstPlace?_eq_some found).2

/-! ### Occurrences from a place on -/

theorem occurrencesFrom_covered (needle : Text) (position : Nat) (front text : Text) :
    occurrencesFrom needle front.length position (front ++ text) =
      occurrencesFrom needle 0 (position + front.length) text := by
  induction front generalizing position with
  | nil => rfl
  | cons c rest ih =>
      rw [add_length_cons, List.cons_append, List.length_cons, occurrencesFrom, ih]

theorem occurrencesFrom_of_prefix (nonempty : needle ≠ []) (position : Nat) (after : Text) :
    occurrencesFrom needle 0 position (needle ++ after) =
      position :: occurrencesFrom needle 0 (position + needle.length) after := by
  have starts : needle.isPrefixOf (needle ++ after) = true := by simp
  cases characters : needle with
  | nil => exact absurd characters nonempty
  | cons c rest =>
      rw [characters, List.cons_append] at starts
      rw [add_length_cons, List.cons_append, occurrencesFrom, if_pos starts, List.length_cons,
        Nat.add_sub_cancel, occurrencesFrom_covered]

namespace OccurrenceSearch

/-- What a search will find that has found the needle once more, or has not. -/
def ahead (needle text : Text) : Option Nat → List Nat
  | none => []
  | some place =>
    place :: occurrencesFrom needle 0 (place + needle.length) (text.drop (place + needle.length))

theorem ahead_firstPlace? (nonempty : needle ≠ []) (position : Nat) (rest : Text)
    (here : text.drop position = rest) :
    ahead needle text (firstPlace? needle text position) =
      occurrencesFrom needle 0 position rest := by
  induction rest generalizing position with
  | nil =>
      have ended : text.length ≤ position := List.drop_eq_nil_iff.mp here
      rw [firstPlace?_eq_none_of_end nonempty ended, ahead, occurrencesFrom]
  | cons c rest ih =>
      by_cases occurs : needle <+: text.drop position
      · have inside : position ≤ text.length := Nat.le_of_lt (lt_length_of_occurs nonempty occurs)
        rw [firstPlace?_of_occurs inside occurs, ahead, ← here]
        obtain ⟨after, divided⟩ := occurs
        have behind : text.drop (position + needle.length) = after := by
          rw [← List.drop_drop, ← divided, List.drop_left]
        rw [← divided, occurrencesFrom_of_prefix nonempty, behind]
      · have next : text.drop (position + 1) = rest := by
          rw [← List.drop_drop, here, List.drop_one, List.tail_cons]
        have notHere : ¬ needle.isPrefixOf (c :: rest) = true := by
          rwa [List.isPrefixOf_iff_prefix, ← here]
        rw [firstPlace?_of_absent occurs, ih (position + 1) next, occurrencesFrom,
          if_neg notHere]

/-! ### Searches -/

/-- A search that will have found all occurrences, and is at a place inside the text, if at any. -/
structure OnTrack (needle text : Text) (search : OccurrenceSearch) : Prop where
  inside : ∀ place ∈ search.next?, place < text.length
  total : search.found ++ ahead needle text search.next? = occurrences needle text

theorem onTrack_start (nonempty : needle ≠ []) : OnTrack needle text (start needle text) where
  inside _ found := lt_length_of_firstPlace? nonempty found
  total := ahead_firstPlace? nonempty 0 text rfl

/-- How much of the text is left at the place where the needle was found. -/
def left (text : Text) (search : OccurrenceSearch) : Nat :=
  match search.next? with
  | none => 0
  | some place => text.length - place

theorem progresses_round? (nonempty : needle ≠ []) :
    Loop.Progresses (round? needle text) (OnTrack needle text) (left text) where
  keeps {search next} onTrack more := by
    obtain ⟨place, found, rfl⟩ := Option.map_eq_some_iff.mp more
    refine ⟨fun _ further => lt_length_of_firstPlace? nonempty further, ?_⟩
    rw [← onTrack.total, found, ahead_firstPlace? nonempty _ _ rfl, List.append_assoc]
    rfl
  lowers {search next} onTrack more := by
    obtain ⟨place, found, rfl⟩ := Option.map_eq_some_iff.mp more
    have inside := onTrack.inside place found
    have positive : 0 < needle.length := List.length_pos_iff.mpr nonempty
    simp only [left, found]
    cases further : firstPlace? needle text (place + needle.length) with
    | none => exact Nat.sub_pos_of_lt inside
    | some later =>
        have behind := (firstPlace?_eq_some further).1
        dsimp only
        omega

/-- A search for a needle that is not empty ends, and has found the occurrences without overlap. -/
theorem endsWithin_length (nonempty : needle ≠ []) :
    Loop.EndsWithin (round? needle text) text.length (start needle text)
      ⟨occurrences needle text, none⟩ := by
  obtain ⟨⟨found, next?⟩, ⟨rounds, bounded, ended⟩, onTrack, stopped⟩ :=
    (progresses_round? nonempty).exists_endsWithin (start needle text) (onTrack_start nonempty)
  have nothingAhead : next? = none := Option.map_eq_none_iff.mp stopped
  subst nothingAhead
  have complete : found = occurrences needle text := by simpa [ahead] using onTrack.total
  rw [← complete]
  refine ⟨rounds, Nat.le_trans bounded ?_, ended⟩
  unfold left
  split <;> omega

/-- A search for the empty needle finds it at the same place again and again. -/
theorem not_ends_of_empty (text : Text) {rounds : Nat} {last : OccurrenceSearch} :
    ¬ Loop.Ends (round? [] text) rounds (start [] text) last := by
  apply Loop.not_ends_of_endless fun search => search.next? = some 0
  · intro search found
    refine ⟨_, congrArg (Option.map _) found, ?_⟩
    exact firstPlace?_of_occurs (Nat.zero_le _) List.nil_prefix
  · exact firstPlace?_of_occurs (Nat.zero_le _) List.nil_prefix

end OccurrenceSearch

end

end Tessera

/-! ## Progress

Whatever a vocabulary holds, no empty text is looked for and no token without length is selected. So
every search for a special text ends, and so does every passage through a span. The tokens of a text
and the characters that are left out are together no more than its characters.
-/

namespace Tessera.Tokenizer

variable {σ : Type}

/-! ### How many decisions there are -/

/-- Each decision covers a character or more. -/
theorem Covers.length_le {vocabulary : Vocabulary} {position : Nat} {text : Text}
    {decisions : List Decision} (covers : Covers vocabulary position text decisions) :
    decisions.length ≤ text.length := by
  induction covers with
  | done => exact Nat.le_refl 0
  | emit isToken _ ih =>
      have positive : 0 < _ := List.length_pos_iff.mpr isToken.nonempty
      simp only [List.length_cons, List.length_append]
      omega
  | preserve _ nonempty _ ih =>
      have positive : 0 < _ := List.length_pos_iff.mpr nonempty
      simp only [List.length_cons, List.length_append]
      omega
  | skip _ ih => exact Nat.succ_le_succ ih

theorem length_ids_add_length_skipped (decisions : List Decision) :
    (decisions.filterMap Decision.id?).length + (decisions.filterMap Decision.skipped?).length =
      decisions.length := by
  induction decisions with
  | nil => rfl
  | cons decision rest ih =>
      -- A decision either has an id or leaves a character out.
      cases decision <;>
        simp only [List.filterMap_cons, Decision.id?, Decision.skipped?, List.length_cons] <;>
        omega

theorem Covers.length_ids_add_length_skipped_le {vocabulary : Vocabulary} {position : Nat}
    {text : Text} {decisions : List Decision}
    (covers : Covers vocabulary position text decisions) :
    (decisions.filterMap Decision.id?).length + (decisions.filterMap Decision.skipped?).length ≤
      text.length :=
  Nat.le_trans (Nat.le_of_eq (length_ids_add_length_skipped decisions)) covers.length_le

theorem length_of_mark {requested : Bool} {id : Option Nat} {absent : Failure} {ids : List Nat}
    (marked : mark requested id absent = .ok ids) : ids.length = requested.toNat := by
  cases requested with
  | false =>
      cases marked
      rfl
  | true =>
      cases id with
      | none => cases marked
      | some id =>
          cases marked
          rfl

/-! ### Candidates -/

theorem one_le_length_of_mem_matchesOf {tokenizer : Tokenizer} {text : Text} {found : Match Nat}
    (member : found ∈ tokenizer.trie.matchesOf text) : 1 ≤ found.length := by
  have isToken := (matchesOf_isToken tokenizer member).1
  rw [isToken.length_eq]
  exact List.length_pos_iff.mpr isToken.nonempty

theorem ne_nil_of_mem_special {tokenizer : Tokenizer} {entry : Text × Nat}
    (member : entry ∈ tokenizer.special) : entry.1 ≠ [] := by
  rw [tokenizer.special_eq] at member
  exact (SpecialIndex.ofVocabulary_registers tokenizer.vocabulary entry member).1

/-! ### Searches and passages -/

variable [RandomSource σ]

/-- How spans are gone through under some options. -/
def mannerOf (tokenizer : Tokenizer) (options : Options) : Manner σ :=
  ⟨tokenizer.choose options, options.isMeasurable, options.strict⟩

/-- How a text is gone through under a pull towards long or short tokens. -/
def mannerOfPull (tokenizer : Tokenizer) (pull : Float) : Manner σ :=
  ⟨tokenizer.choosePulled pull, true, false⟩

theorem count_add_length_skipped_le {tokenizer : Tokenizer} {options : Options} {text : Text}
    {supply : Supply σ} {desk after : Desk σ} {result : Tokenization}
    (returned : (tokenizer.tokenize options text supply).runOn desk = (.ok result, after)) :
    result.count + result.skipped.length ≤
      text.length + options.addBos.toNat + options.addEos.toNat := by
  obtain ⟨source, finished, first, last, bos, eos, rfl⟩ := exists_walk_of_tokenize returned
  have between := (walk_covers tokenizer options text source finished).length_ids_add_length_skipped_le
  simp only [Tokenization.count, List.length_append, length_of_mark bos, length_of_mark eos,
    Walk.ids, Walk.skipped]
  omega

/-- Going through a text comes to an end, however it is done and whatever numbers are drawn: no
candidate is without length, each special text is searched to the end of the text, and each passage
through a span completes, under all options and under a pull. Besides the marks that were asked for,
a tokenization has no more tokens and left-out characters than the text has characters. -/
theorem scans_make_progress (tokenizer : Tokenizer) (text : Text) :
    (∀ candidate ∈ tokenizer.trie.matchesOf text, 1 ≤ candidate.length) ∧
    (∀ entry ∈ tokenizer.special,
      Loop.EndsWithin (OccurrenceSearch.round? entry.1 text) text.length
        (OccurrenceSearch.start entry.1 text) ⟨occurrences entry.1 text, none⟩) ∧
    (∀ (options : Options) (start : Nat) (span : Text) (source : σ),
      Passage.Completes (tokenizer.mannerOf options) start span source) ∧
    (∀ (pull : Float) (source : σ),
      Passage.Completes (tokenizer.mannerOfPull pull) 0 text source ∧
      (tokenizer.walkPulled pull text source).ids.length +
        (tokenizer.walkPulled pull text source).skipped.length ≤ text.length) ∧
    (∀ (options : Options) (supply : Supply σ) (desk after : Desk σ) (result : Tokenization),
      (tokenizer.tokenize options text supply).runOn desk = (.ok result, after) →
      result.count + result.skipped.length ≤
        text.length + options.addBos.toNat + options.addEos.toNat) := by
  refine ⟨?_, ?_, ?_, ?_, ?_⟩
  · intro candidate member
    exact one_le_length_of_mem_matchesOf member
  · intro entry member
    exact OccurrenceSearch.endsWithin_length (ne_nil_of_mem_special member)
  · intro options start span source
    exact Passage.completes (choose_sound tokenizer options) start span source
  · intro pull source
    constructor
    · exact Passage.completes (choosePulled_sound tokenizer pull) 0 text source
    · exact (walkPulled_covers tokenizer pull text source).length_ids_add_length_skipped_le
  · intro options supply desk after result returned
    exact count_add_length_skipped_le returned

/-- A vocabulary of which two tokens are empty, one of them a special one and both of them marks. -/
theorem scans_make_progress_past_empty_tokens :
    let tokenizer := ofVocabulary {
      tokens := #[[], ['a'], ['a', 'a'], "<s>".toList, []]
      merges := none
      bos := some 0
      eos := some 4
      modelType := none
      specialIds := [0, 3]
      bos_lt_size := by decide
      eos_lt_size := by decide
      specialIds_lt_size := by decide }
    let text : Text := "aa<s>?a".toList
    let options := { Options.ofStrategy .longest with addBos := true, addEos := true }
    let result : Tokenization := ⟨text, [0, 2, 3, 1, 4], [5]⟩
    (⟨2, 2, ['a', 'a']⟩ ∈ tokenizer.trie.matchesOf text ∧ 1 ≤ 2) ∧
    (("<s>".toList, 3) ∈ tokenizer.special ∧
      Loop.EndsWithin (OccurrenceSearch.round? "<s>".toList text) 7
        (OccurrenceSearch.start "<s>".toList text) ⟨[2], none⟩) ∧
    ∃ after, (tokenizer.tokenize options text .current).runOn
        (Desk.fresh (⟨[], [], 0, 0⟩ : Script)) = (.ok result, after) ∧
      result.count + result.skipped.length ≤ text.length + 1 + 1 := by
  intro tokenizer text options result
  obtain ⟨extended, searched, -, -, counted⟩ := scans_make_progress (σ := Script) tokenizer text
  have candidate : ⟨2, 2, ['a', 'a']⟩ ∈ tokenizer.trie.matchesOf text := by decide +kernel
  have special : ("<s>".toList, 3) ∈ tokenizer.special := by decide +kernel
  refine ⟨⟨candidate, extended _ candidate⟩, ⟨special, searched _ special⟩, _, rfl, ?_⟩
  exact counted options .current (Desk.fresh ⟨[], [], 0, 0⟩) _ result rfl

end Tessera.Tokenizer
