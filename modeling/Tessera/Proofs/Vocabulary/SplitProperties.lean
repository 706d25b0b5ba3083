import Mathlib.Data.List.Basic
import Tessera.Proofs.Vocabulary.CursorPass

/-!
# Cutting a text at its special texts

The spans that a text is cut into make up the whole text, and those that count as special are occurrences
that were found.
-/

set_option autoImplicit false

namespace Tessera

variable {ι : Type}

/-! ## Segments -/

/-- How a text is cut from an offset on, whose plain characters just before it are waiting, latest
first. A special text is cut out as a whole. -/
inductive Cut (candidates : List (Candidate ι)) :
    Nat → Text → Text → List (Segment ι) → Prop where
  | done {position : Nat} {plain : Text} :
      Cut candidates position plain [] (plainSegment position plain)
  | plain {position : Nat} {c : Char} {plain rest : Text} {segments : List (Segment ι)} :
      longestAt position candidates = none →
      Cut candidates (position + 1) (c :: plain) rest segments →
      Cut candidates position plain (c :: rest) segments
  | special {position : Nat} {plain after : Text} {found : Candidate ι}
      {segments : List (Segment ι)} :
      longestAt position candidates = some found →
      Cut candidates (position + found.text.length) [] after segments →
      Cut candidates position plain (found.text ++ after)
        (plainSegment position plain ++ ⟨found.text, position, some found.id⟩ :: segments)

theorem splitFrom_cut {whole : Text} {candidates : List (Candidate ι)}
    (sound : Candidates.Sound whole candidates) (position : Nat) (plain text : Text)
    (here : whole.drop position = text) :
    Cut candidates position plain text (splitFrom candidates 0 position plain text) := by
  -- A special text is passed over as a whole, so the induction is on the length of what is left.
  induction measure : text.length using Nat.strongRecOn
    generalizing position plain text with
  | ind length ih =>
      subst measure
      cases text with
      | nil => exact .done
      | cons c rest =>
          cases longest : longestAt position candidates with
          | none =>
              have next : whole.drop (position + 1) = rest := by
                rw [← List.drop_drop, here, List.drop_one, List.tail_cons]
              have further := ih rest.length (by simp) (position + 1) (c :: plain) rest next rfl
              simp only [splitFrom, longest]
              exact .plain longest further
          | some found =>
              obtain ⟨member, held⟩ := longestAt_mem longest
              obtain ⟨nonempty, occurs⟩ := sound found member
              obtain ⟨after, wholeEq⟩ := occurs position held
              rw [here] at wholeEq
              have next : whole.drop (position + found.text.length) = after := by
                rw [← List.drop_drop, here, ← wholeEq, List.drop_left]
              have shorter : after.length < (c :: rest).length := by
                have positive : 0 < found.text.length := List.length_pos_iff.mpr nonempty
                rw [← wholeEq, List.length_append]
                omega
              rw [← wholeEq, splitFrom_found longest nonempty]
              exact .special longest (ih after.length shorter _ [] after next rfl)

theorem SpecialIndex.split_cut (index : SpecialIndex ι) (text : Text)
    (nonempty : ∀ entry ∈ index, entry.1 ≠ []) :
    Cut (index.candidates text) 0 [] text (index.split text) := by
  rw [split_eq_splitFrom nonempty]
  exact splitFrom_cut (index.candidates_sound text nonempty) 0 [] text rfl

/-! ## What the segments are -/

/-- Segments that make up a text which starts at an offset, one behind the other. -/
inductive Tiles : Nat → Text → List (Segment ι) → Prop where
  | nil {start : Nat} : Tiles start [] []
  | cons {start : Nat} {text rest : Text} {special : Option ι} {segments : List (Segment ι)} :
      Tiles (start + text.length) rest segments →
      Tiles start (text ++ rest) (⟨text, start, special⟩ :: segments)

theorem Tiles.plainSegment_append {position : Nat} {plain text : Text}
    {segments : List (Segment ι)} (tiles : Tiles position text segments)
    (before : plain.length ≤ position) :
    Tiles (position - plain.length) (plain.reverse ++ text)
      (plainSegment position plain ++ segments) := by
  by_cases empty : plain = []
  · simpa [plainSegment, empty] using tiles
  · have behind : position - plain.length + plain.reverse.length = position := by
      simp only [List.length_reverse]
      omega
    have further : Tiles (position - plain.length + plain.reverse.length) text segments := by
      rwa [behind]
    simpa [plainSegment, empty] using further.cons

theorem Cut.tiles {candidates : List (Candidate ι)} {position : Nat} {plain text : Text}
    {segments : List (Segment ι)} (cut : Cut candidates position plain text segments)
    (before : plain.length ≤ position) :
    Tiles (position - plain.length) (plain.reverse ++ text) segments := by
  induction cut with
  | done => simpa using Tiles.nil.plainSegment_append before
  | plain absent further ih => simpa using ih (by simpa using before)
  | special longest further ih =>
      have behind := ih (Nat.zero_le _)
      exact (Tiles.cons behind).plainSegment_append before

theorem SpecialIndex.split_tiles (index : SpecialIndex ι) (text : Text)
    (nonempty : ∀ entry ∈ index, entry.1 ≠ []) : Tiles 0 text (index.split text) :=
  (index.split_cut text nonempty).tiles (Nat.le_refl _)

theorem special_eq_none_of_mem_plainSegment {position : Nat} {plain : Text}
    {segment : Segment ι} (member : segment ∈ plainSegment position plain) :
    segment.special = none := by
  unfold plainSegment at member
  split at member
  · simp at member
  · rw [List.mem_singleton.mp member]

/-- A special span is a candidate, and stands where that was found. -/
theorem Cut.candidate_of_mem {candidates : List (Candidate ι)} {position : Nat} {plain text : Text}
    {segments : List (Segment ι)} (cut : Cut candidates position plain text segments)
    {segment : Segment ι} (member : segment ∈ segments) {id : ι}
    (special : segment.special = some id) :
    ∃ candidate ∈ candidates, candidate.id = id ∧ candidate.text = segment.text ∧
      segment.start ∈ candidate.offsets := by
  induction cut with
  | done =>
      rw [special_eq_none_of_mem_plainSegment member] at special
      cases special
  | plain absent further ih => exact ih member
  | special longest further ih =>
      simp only [List.mem_append, List.mem_cons] at member
      rcases member with member | rfl | member
      · rw [special_eq_none_of_mem_plainSegment member] at special
        cases special
      · obtain ⟨listed, held⟩ := longestAt_mem longest
        exact ⟨_, listed, by simpa using special, rfl, held⟩
      · exact ih member

/-- A special span bears a registered text with its id, at an offset found for that text. -/
theorem SpecialIndex.mem_of_special {index : SpecialIndex ι} {text : Text} {segment : Segment ι}
    {id : ι} (nonempty : ∀ entry ∈ index, entry.1 ≠ []) (member : segment ∈ index.split text)
    (special : segment.special = some id) :
    (segment.text, id) ∈ index ∧ segment.start ∈ occurrences segment.text text := by
  obtain ⟨candidate, listed, sameId, sameText, held⟩ :=
    (index.split_cut text nonempty).candidate_of_mem member special
  obtain ⟨⟨key, other⟩, registered, rfl⟩ := List.mem_map.mp listed
  cases sameId
  cases sameText
  exact ⟨registered, held⟩

/-! ## Registration -/

/-- Each registered text is a token under its id, and not empty. -/
def SpecialIndex.Registers (vocabulary : Vocabulary) (index : SpecialIndex Nat) : Prop :=
  ∀ entry ∈ index, entry.1 ≠ [] ∧ vocabulary.tokens[entry.2]? = some entry.1

/-- The first special id with a text. -/
def Vocabulary.firstSpecial? (vocabulary : Vocabulary) (text : Text) : Option Nat :=
  vocabulary.registeredIds.find? fun id => decide (vocabulary.tokens[id]? = some text)

namespace SpecialIndex

variable {vocabulary : Vocabulary} {index : SpecialIndex Nat} {ids : List Nat} {entry : Text × Nat}

/-- What is registered after an id: nothing new if its text is empty or known. -/
theorem register_eq {text : Text} {id : Nat} (held : vocabulary.tokens[id]? = some text) :
    register vocabulary index id =
      if text ≠ [] ∧ index.lookup text = none then index ++ [(text, id)] else index := by
  cases text with
  | nil => simp [register, held]
  | cons c rest =>
      cases known : index.lookup (c :: rest) with
      | none => simp [register, held, known]
      | some old => simp [register, held, known]

theorem lookup_append_singleton_eq_none_iff {text added : Text} {id : Nat} :
    List.lookup text (index ++ [(added, id)]) = none ↔ index.lookup text = none ∧ text ≠ added := by
  rw [List.lookup_append, Option.or_eq_none_iff]
  refine and_congr_right fun _ => ?_
  rw [List.lookup_cons]
  by_cases same : text = added
  · simp [same]
  · rw [beq_eq_false_iff_ne.mpr same]
    simp [same]

/-- What is registered after some ids: what was before, and the first id with a text that is neither
empty nor registered before. -/
theorem mem_foldl_register_iff : entry ∈ ids.foldl (register vocabulary) index ↔
    entry ∈ index ∨ entry.1 ≠ [] ∧ index.lookup entry.1 = none ∧
      ids.find? (fun id => decide (vocabulary.tokens[id]? = some entry.1)) = some entry.2 := by
  induction ids generalizing index with
  | nil => simp
  | cons id rest ih =>
      rw [List.foldl_cons, ih, List.find?_cons]
      obtain ⟨text, other⟩ := entry
      cases held : vocabulary.tokens[id]? with
      | none => simp [register, held]
      | some added =>
          rw [register_eq held]
          by_cases fresh : added ≠ [] ∧ index.lookup added = none
          · rw [if_pos fresh, List.mem_append, List.mem_singleton, or_assoc]
            refine or_congr_right ?_
            rw [lookup_append_singleton_eq_none_iff, Prod.mk.injEq]
            by_cases same : added = text
            · subst same
              simp only [ne_eq, not_true_eq_false, and_false, false_and, or_false, true_and, fresh.1,
                not_false_eq_true, fresh.2, decide_true, Option.some.injEq]
              exact eq_comm
            · simp only [Ne.symm same, false_and, false_or, Option.some.injEq, same, decide_false,
                ne_eq, not_false_eq_true, and_true]
          · rw [if_neg fresh]
            by_cases same : added = text
            · subst same
              have passedOver : ∀ further, ¬ (added ≠ [] ∧ index.lookup added = none ∧ further) :=
                fun further all => fresh ⟨all.1, all.2.1⟩
              simp only [passedOver]
            · simp [same]

theorem mem_ofVocabulary_iff : entry ∈ ofVocabulary vocabulary ↔
    entry.1 ≠ [] ∧ vocabulary.firstSpecial? entry.1 = some entry.2 := by
  rw [ofVocabulary, mem_foldl_register_iff]
  simp [Vocabulary.firstSpecial?]

/-- The index of a vocabulary registers texts of special ids only. -/
theorem of_mem_ofVocabulary (member : entry ∈ ofVocabulary vocabulary) :
    entry.2 ∈ vocabulary.registeredIds ∧ entry.1 ≠ [] ∧
      vocabulary.tokens[entry.2]? = some entry.1 := by
  obtain ⟨nonempty, first⟩ := mem_ofVocabulary_iff.mp member
  have held := List.find?_some first
  exact ⟨List.mem_of_find?_eq_some first, nonempty, of_decide_eq_true held⟩

end SpecialIndex

theorem SpecialIndex.ofVocabulary_registers (vocabulary : Vocabulary) :
    Registers vocabulary (ofVocabulary vocabulary) :=
  fun _ member => (of_mem_ofVocabulary member).2

end Tessera
