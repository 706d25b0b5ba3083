import Mathlib
import Tessera.Proofs.Vocabulary.SpecialSelection
import Tessera.Proofs.Vocabulary.SplitProperties

/-!
# Segments of a text

The segments that a text is cut into divide it, whatever the order of registration.
-/

set_option autoImplicit false

/-! ## Cutting a text leaves nothing out

The segments that a text is cut into are parts of it that are not empty, one behind the other, and
together they are the whole text. Plain segments are as long as they can be: no two of them touch.
-/

namespace Tessera

variable {ι : Type}

/-! ### Segments behind each other -/

section

variable {start : Nat} {text : Text} {segments : List (Segment ι)}

theorem Tiles.flatten (tiles : Tiles start text segments) :
    (segments.map (·.text)).flatten = text := by
  induction tiles with
  | nil => rfl
  | cons _ ih => rw [List.map_cons, List.flatten_cons, ih]

theorem Tiles.start_eq {before after : List (Segment ι)} {segment : Segment ι}
    (tiles : Tiles start text (before ++ segment :: after)) :
    segment.start = start + (before.map (·.text.length)).sum := by
  induction before generalizing start text with
  | nil =>
      cases tiles
      rfl
  | cons first rest ih =>
      cases tiles with
      | cons behind =>
          rw [List.map_cons, List.sum_cons, ← Nat.add_assoc]
          exact ih behind

end

/-! ### Segments of a cut -/

/-- Whether, of any two segments that follow each other, at least one is special. -/
def Alternates (segments : List (Segment ι)) : Prop :=
  segments.IsChain fun first second => first.isSpecial ∨ second.isSpecial

section

variable {whole plain text : Text} {candidates : List (Candidate ι)} {position : Nat}
  {segments : List (Segment ι)}

theorem filled_of_mem_plainSegment {segment : Segment ι}
    (member : segment ∈ plainSegment position plain) : segment.text ≠ [] := by
  unfold plainSegment at member
  split at member
  · cases member
  · next somePlain =>
      rw [List.mem_singleton.mp member]
      simpa using somePlain

theorem Cut.filled (cut : Cut candidates position plain text segments)
    (nonempty : ∀ candidate ∈ candidates, candidate.text ≠ []) :
    ∀ segment ∈ segments, segment.text ≠ [] := by
  intro segment member
  induction cut with
  | done => exact filled_of_mem_plainSegment member
  | plain _ _ ih => exact ih member
  | special longest _ ih =>
      rcases List.mem_append.mp member with member | member
      · exact filled_of_mem_plainSegment member
      · rcases List.mem_cons.mp member with rfl | member
        · exact nonempty _ (longestAt_mem longest).1
        · exact ih member

theorem Alternates.cons_special {first : Segment ι} (alternates : Alternates segments)
    (special : first.isSpecial) : Alternates (first :: segments) :=
  alternates.cons fun _ _ => .inl special

theorem Alternates.plainSegment_append {first : Segment ι}
    (alternates : Alternates (first :: segments)) (special : first.isSpecial) (position : Nat)
    (plain : Text) : Alternates (plainSegment position plain ++ first :: segments) := by
  unfold plainSegment
  split
  · exact alternates
  · refine alternates.cons fun second following => .inr ?_
    cases following
    exact special

/-- Plain characters are held back until a special text follows or the text ends. -/
theorem Cut.alternates (cut : Cut candidates position plain text segments) :
    Alternates segments := by
  induction cut with
  | done =>
      unfold plainSegment
      split
      · exact .nil
      · exact .singleton _
  | plain _ _ ih => exact ih
  | special _ _ ih => exact (ih.cons_special rfl).plainSegment_append rfl _ _

end

namespace SpecialIndex

/-- A special segment is cut out exactly if some special text occurs. -/
theorem exists_special_iff {index : SpecialIndex ι} {text : Text}
    (nonempty : ∀ entry ∈ index, entry.1 ≠ []) :
    (∃ segment ∈ index.split text, segment.isSpecial) ↔ ∃ entry ∈ index, entry.1 <:+: text := by
  constructor
  · rintro ⟨segment, member, special⟩
    have found := finds_of_mem_cutOut nonempty ⟨member, special⟩
    obtain ⟨id, -, registered⟩ := found.mem
    exact ⟨_, registered, found.taken.occurs.isInfix.trans (List.drop_suffix _ _).isInfix⟩
  · rintro ⟨entry, listed, before, after, rfl⟩
    have occurs : entry.1 <+: (before ++ entry.1 ++ after).drop before.length := by
      rw [List.append_assoc, List.drop_left]
      exact List.prefix_append _ _
    obtain ⟨offset, taken⟩ := Text.exists_takenAt occurs
    obtain ⟨id, registered⟩ : ∃ id, index.lookup entry.1 = some id :=
      Option.isSome_iff_exists.mp (List.lookup_isSome_iff.mpr ⟨entry, listed, by simp⟩)
    have found : index.Finds (before ++ entry.1 ++ after) ⟨entry.1, offset, some id⟩ :=
      ⟨rfl, registered, taken⟩
    obtain ⟨winner, ⟨member, special⟩, -⟩ := exists_winner_of_finds nonempty found
    exact ⟨winner, member, special⟩

/-- A text is cut into segments that are not empty and make it up, each starting where those before it
end. A special one bears a special text with its id, and there is one if any occurs; no two plain ones
touch. -/
theorem split_divides (index : SpecialIndex ι) (nonempty : ∀ entry ∈ index, entry.1 ≠ [])
    (text : Text) :
    ((index.split text).map (·.text)).flatten = text ∧
    (∀ before segment after, index.split text = before ++ segment :: after →
      segment.start = (before.map (·.text.length)).sum) ∧
    (∀ segment ∈ index.split text, segment.text ≠ []) ∧
    (∀ segment ∈ index.split text, ∀ id, segment.special = some id →
      index.lookup segment.text = some id) ∧
    Alternates (index.split text) ∧
    ((∃ segment ∈ index.split text, segment.isSpecial) ↔ ∃ entry ∈ index, entry.1 <:+: text) := by
  have tiles := index.split_tiles text nonempty
  have cut := index.split_cut text nonempty
  refine ⟨tiles.flatten, ?_, cut.filled ?_, ?_, cut.alternates, exists_special_iff nonempty⟩
  · intro before segment after divided
    rw [divided] at tiles
    rw [tiles.start_eq, Nat.zero_add]
  · exact fun candidate member => (index.candidates_sound text nonempty candidate member).1
  · intro segment member id special
    have found := finds_of_mem_cutOut nonempty ⟨member, Option.isSome_iff_exists.mpr ⟨id, special⟩⟩
    exact found.registered.trans special

/-- Special texts one right behind the other, before the first plain character and at the end, one of
them registered twice. -/
theorem split_divides_between_neighbours :
    let index : SpecialIndex Nat := [("ab".toList, 1), ("ab".toList, 2), ("c".toList, 3)]
    (∀ entry ∈ index, entry.1 ≠ []) ∧
    index.split "abcxxab".toList =
      [⟨"ab".toList, 0, some 1⟩, ⟨"c".toList, 2, some 3⟩, ⟨"xx".toList, 3, none⟩,
        ⟨"ab".toList, 5, some 1⟩] ∧
    ((index.split "abcxxab".toList).map (·.text)).flatten = "abcxxab".toList ∧
    Alternates (index.split "abcxxab".toList) := by
  intro index
  have nonempty : ∀ entry ∈ index, entry.1 ≠ [] := by decide
  obtain ⟨whole, -, -, -, alternates, -⟩ := split_divides index nonempty "abcxxab".toList
  exact ⟨nonempty, by decide, whole, alternates⟩

end SpecialIndex

end Tessera

/-! ## The order of registration

Special texts that start at one place and are equally long are the same text. So occurrences are told
apart by where they start and how long they are, and the order in which the texts were registered makes
no difference to how a text is cut.
-/

namespace Tessera

variable {ι : Type}

namespace Occurrence

/-- An occurrence without the place of its text among those registered. -/
def bare (found : Occurrence ι) : Nat × Text × ι := (found.start, found.text, found.id)

theorem cutFrom_congr {whole : Text} {first second : List (Occurrence ι)}
    (same : first.map bare = second.map bare) (cursor : Nat) :
    cutFrom whole cursor first = cutFrom whole cursor second := by
  induction first generalizing second cursor with
  | nil => rw [List.map_eq_nil_iff.mp same.symm]
  | cons found rest ih =>
      cases second with
      | nil => cases same
      | cons other others =>
          obtain ⟨foundSame, restSame⟩ := List.cons_eq_cons.mp same
          simp only [bare, Prod.mk.injEq] at foundSame
          obtain ⟨starts, texts, ids⟩ := foundSame
          simp only [cutFrom, starts, texts, ids, ih restSame]

end Occurrence

namespace SpecialIndex

variable {index other : SpecialIndex ι}

/-! ### Texts that are registered once -/

/-- Whether no text is registered twice. -/
def IsDistinct (index : SpecialIndex ι) : Prop := (index.map Prod.fst).Nodup

theorem mem_of_lookup {key : Text} {id : ι} (registered : index.lookup key = some id) :
    (key, id) ∈ index := by
  obtain ⟨front, back, rfl, -⟩ := List.lookup_eq_some_iff.mp registered
  exact List.mem_append_right _ List.mem_cons_self

namespace IsDistinct

theorem lookup_eq_some_iff (distinct : index.IsDistinct) {key : Text} {id : ι} :
    index.lookup key = some id ↔ (key, id) ∈ index := by
  constructor
  · exact mem_of_lookup
  · intro member
    obtain ⟨front, back, rfl⟩ := List.append_of_mem member
    rw [IsDistinct, List.map_append, List.map_cons, List.nodup_append] at distinct
    have before : ∀ entry ∈ front, entry.1 ≠ key := fun entry listed =>
      distinct.2.2 _ (List.mem_map_of_mem listed) _ List.mem_cons_self
    apply List.lookup_eq_some_iff.mpr
    exact ⟨front, back, rfl, fun entry listed => bne_iff_ne.mpr (before entry listed).symm⟩

theorem register {vocabulary : Vocabulary} {index : SpecialIndex Nat}
    (distinct : index.IsDistinct) (id : Nat) : (register vocabulary index id).IsDistinct := by
  cases held : vocabulary.tokens[id]? with
  | none => simpa only [SpecialIndex.register, held] using distinct
  | some text =>
      rw [register_eq held]
      split
      · next fresh =>
          have absent : text ∉ index.map Prod.fst := by
            intro listed
            obtain ⟨entry, member, rfl⟩ := List.mem_map.mp listed
            exact absurd fresh.2 (by simp [distinct.lookup_eq_some_iff.mpr member])
          rw [IsDistinct, List.map_append, List.map_singleton, List.nodup_append]
          refine ⟨distinct, List.nodup_singleton text, ?_⟩
          intro key listed added here same
          rw [same, List.mem_singleton.mp here] at listed
          exact absent listed
      · exact distinct

end IsDistinct

/-- No text of a vocabulary is registered twice. -/
theorem isDistinct_ofVocabulary (vocabulary : Vocabulary) : (ofVocabulary vocabulary).IsDistinct := by
  have registered (ids : List Nat) (index : SpecialIndex Nat) (distinct : index.IsDistinct) :
      (ids.foldl (register vocabulary) index).IsDistinct := by
    induction ids generalizing index with
    | nil => exact distinct
    | cons id rest ih => exact ih _ (distinct.register id)
  exact registered vocabulary.registeredIds [] List.nodup_nil

/-! ### Occurrences in order -/

section

variable {whole : Text}

theorem map_bare_occurrencesIn (index : SpecialIndex ι) (whole : Text) :
    (index.occurrencesIn whole).map Occurrence.bare =
      index.flatMap fun entry => (occurrences entry.1 whole).map fun start => (start, entry) := by
  have unordered : index.zipIdx.map Prod.fst = index := List.zipIdx_map_fst 0 index
  conv_rhs => rw [← unordered]
  rw [occurrencesIn, List.map_flatMap, List.flatMap_map]
  simp only [List.map_map]
  rfl

/-- Texts that start at one place and are equally long are the same, and have one id. -/
theorem bare_eq_of_mem (distinct : index.IsDistinct) {found other : Occurrence ι}
    (member : found ∈ index.occurrencesIn whole) (otherMember : other ∈ index.occurrencesIn whole)
    (sameStart : found.start = other.start)
    (asLong : found.text.length = other.text.length) : found.bare = other.bare := by
  have starts := (starts_of_mem_occurrencesIn member).2
  have otherStarts := (starts_of_mem_occurrencesIn otherMember).2
  rw [← sameStart] at otherStarts
  have sameText : found.text = other.text :=
    (List.prefix_of_prefix_length_le starts otherStarts (Nat.le_of_eq asLong)).eq_of_length asLong
  have registered := distinct.lookup_eq_some_iff.mpr (mem_of_mem_occurrencesIn member)
  have otherRegistered := distinct.lookup_eq_some_iff.mpr (mem_of_mem_occurrencesIn otherMember)
  rw [sameText, otherRegistered, Option.some.injEq] at registered
  rw [Occurrence.bare, Occurrence.bare, sameStart, sameText, registered]

/-- Occurrences of the same texts are tried in the same order, whichever way these are registered. -/
theorem map_bare_inOrder_eq (distinct : index.IsDistinct) (reordered : index.Perm other) :
    (Occurrence.inOrder (index.occurrencesIn whole)).map Occurrence.bare =
      (Occurrence.inOrder (other.occurrencesIn whole)).map Occurrence.bare := by
  let tried (a b : Nat × Text × ι) : Prop :=
    a.1 < b.1 ∨ a.1 = b.1 ∧ b.2.1.length ≤ a.2.1.length
  have sorted (found : List (Occurrence ι)) :
      ((Occurrence.inOrder found).map Occurrence.bare).Pairwise tried := by
    rw [List.pairwise_map]
    refine (Occurrence.pairwise_inOrder found).imp ?_
    intro a b precedes
    simp only [Occurrence.precedes, decide_eq_true_eq] at precedes
    dsimp only [tried, Occurrence.bare]
    omega
  have sameOccurrences : ((index.occurrencesIn whole).map Occurrence.bare).Perm
      ((other.occurrencesIn whole).map Occurrence.bare) := by
    rw [map_bare_occurrencesIn, map_bare_occurrencesIn]
    exact reordered.flatMap_right _
  have perm : ((Occurrence.inOrder (index.occurrencesIn whole)).map Occurrence.bare).Perm
      ((Occurrence.inOrder (other.occurrencesIn whole)).map Occurrence.bare) :=
    ((Occurrence.inOrder_perm _).map _).trans
      (sameOccurrences.trans ((Occurrence.inOrder_perm _).map _).symm)
  refine perm.eq_of_pairwise ?_ (sorted _) (sorted _)
  intro a b aListed bListed ab ba
  obtain ⟨found, member, rfl⟩ := List.mem_map.mp aListed
  obtain ⟨last, lastMember, rfl⟩ := List.mem_map.mp (perm.mem_iff.mpr bListed)
  dsimp only [tried, Occurrence.bare] at ab ba
  exact bare_eq_of_mem distinct ((Occurrence.inOrder_perm _).mem_iff.mp member)
    ((Occurrence.inOrder_perm _).mem_iff.mp lastMember) (by omega) (by omega)

end

/-! ### Segments -/

/-- Special texts that are registered with the same ids in any other order cut each text into the same
segments. -/
theorem split_eq_of_perm (distinct : index.IsDistinct) (reordered : index.Perm other) (text : Text) :
    index.split text = other.split text := by
  have sameEmpty : index.isEmpty = other.isEmpty := by
    rw [Bool.eq_iff_iff, List.isEmpty_iff_length_eq_zero, List.isEmpty_iff_length_eq_zero,
      reordered.length_eq]
  rw [split, split, sameEmpty, Occurrence.cutFrom_congr (map_bare_inOrder_eq distinct reordered)]

/-- The special texts of a vocabulary, as they are registered and the other way round, where two start
together and a third one overlaps them. -/
theorem split_eq_of_perm_reversed :
    let vocabulary : Vocabulary := {
      tokens := #["ab".toList, "abc".toList, "ab".toList, "cb".toList]
      merges := none
      bos := some 3
      eos := none
      modelType := none
      specialIds := [0, 1, 2]
      bos_lt_size := by decide
      eos_lt_size := by decide
      specialIds_lt_size := by decide }
    let index := ofVocabulary vocabulary
    let reversed : SpecialIndex Nat := index.reverse
    index = [("ab".toList, 0), ("abc".toList, 1), ("cb".toList, 3)] ∧
    index.IsDistinct ∧ index.Perm reversed ∧
    index.split "xabcbab".toList = reversed.split "xabcbab".toList ∧
    index.split "xabcbab".toList =
      [⟨['x'], 0, none⟩, ⟨"abc".toList, 1, some 1⟩, ⟨['b'], 4, none⟩, ⟨"ab".toList, 5, some 0⟩] := by
  intro vocabulary index reversed
  have distinct : index.IsDistinct := isDistinct_ofVocabulary vocabulary
  have reordered : index.Perm reversed := index.reverse_perm.symm
  exact ⟨by decide, distinct, reordered, split_eq_of_perm distinct reordered _, by decide⟩

end SpecialIndex

end Tessera
