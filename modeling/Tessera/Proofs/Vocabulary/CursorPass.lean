import Mathlib.Data.List.Basic
import Tessera.Vocabulary.Lookup

/-!
# Cutting from left to right

A text is cut by one pass through the occurrences of its special texts, put in order. That gives the same
spans as going through the text from left to right and asking at each place for the longest special text
that was found there.
-/

set_option autoImplicit false

namespace Tessera

variable {ι : Type}

/-! ## Occurrences -/

theorem lt_length_of_occurs {needle text : Text} {offset : Nat} (nonempty : needle ≠ [])
    (occurs : needle <+: text.drop offset) : offset < text.length := by
  by_contra outside
  rw [List.drop_eq_nil_of_le (Nat.not_lt.mp outside)] at occurs
  exact nonempty (List.prefix_nil.mp occurs)

theorem occurrencesFrom_sound {needle : Text} {offset : Nat} (covered position : Nat) (text : Text)
    (found : offset ∈ occurrencesFrom needle covered position text) :
    ∃ skipped, offset = position + skipped ∧ covered ≤ skipped ∧ skipped < text.length ∧
      needle <+: text.drop skipped := by
  induction text generalizing covered position with
  | nil => simp [occurrencesFrom] at found
  | cons c rest ih =>
      -- An offset found further on is one character further on in the longer text.
      have further : ∀ next, covered ≤ next + 1 →
          offset ∈ occurrencesFrom needle next (position + 1) rest →
          ∃ skipped, offset = position + skipped ∧ covered ≤ skipped ∧
            skipped < (c :: rest).length ∧ needle <+: (c :: rest).drop skipped := by
        intro next bounded member
        obtain ⟨skipped, rfl, least, inside, starts⟩ := ih next (position + 1) member
        exact ⟨skipped + 1, by omega, by omega, by simpa using inside, by simpa using starts⟩
      cases covered with
      | succ more => exact further more (Nat.le_refl _) (by simpa [occurrencesFrom] using found)
      | zero =>
          by_cases here : needle.isPrefixOf (c :: rest) = true
          · simp only [occurrencesFrom, here, ↓reduceIte, List.mem_cons] at found
            rcases found with rfl | found
            · exact ⟨0, rfl, Nat.le_refl _, by simp, List.isPrefixOf_iff_prefix.mp here⟩
            · exact further _ (Nat.zero_le _) found
          · simp only [occurrencesFrom, here, Bool.false_eq_true, ↓reduceIte] at found
            exact further 0 (Nat.zero_le _) found

theorem occurrences_sound {needle text : Text} {offset : Nat}
    (found : offset ∈ occurrences needle text) :
    offset < text.length ∧ needle <+: text.drop offset := by
  obtain ⟨skipped, rfl, _, inside, starts⟩ := occurrencesFrom_sound 0 0 text found
  rw [Nat.zero_add]
  exact ⟨inside, starts⟩

/-! ## Cutting from left to right -/

structure Candidate (ι : Type) where
  text : Text
  id : ι
  offsets : List Nat

def SpecialIndex.candidates (index : SpecialIndex ι) (text : Text) : List (Candidate ι) :=
  index.map fun (key, id) => ⟨key, id, occurrences key text⟩

/-- The longest candidate found at an offset; the first registered one, if several are as long. -/
def longestAt (position : Nat) : List (Candidate ι) → Option (Candidate ι)
  | [] => none
  | candidate :: rest =>
    match longestAt position rest with
    | none => if candidate.offsets.contains position then some candidate else none
    | some other =>
      if candidate.offsets.contains position && decide (other.text.length ≤ candidate.text.length)
      then some candidate else some other

/-- The span of plain characters, latest first, that ends at an offset; nothing if there are none. -/
def plainSegment (position : Nat) (characters : Text) : List (Segment ι) :=
  if characters.isEmpty then [] else [⟨characters.reverse, position - characters.length, none⟩]

/-- Cuts the rest of a text. The next `covered` characters belong to a special text, and `plain` are
the plain characters just before the offset, latest first. -/
def splitFrom (candidates : List (Candidate ι)) (covered position : Nat) (plain : Text) :
    Text → List (Segment ι)
  | [] => plainSegment position plain
  | c :: rest =>
    match covered with
    | more + 1 => splitFrom candidates more (position + 1) plain rest
    | 0 =>
      match longestAt position candidates with
      | none => splitFrom candidates 0 (position + 1) (c :: plain) rest
      | some found =>
        plainSegment position plain
          ++ ⟨found.text, position, some found.id⟩
          :: splitFrom candidates (found.text.length - 1) (position + 1) [] rest

theorem add_length_cons (position : Nat) (c : Char) (rest : Text) :
    position + (c :: rest).length = position + 1 + rest.length := by
  simp only [List.length_cons]
  omega

theorem splitFrom_covered (candidates : List (Candidate ι)) (position : Nat)
    (plain front text : Text) :
    splitFrom candidates front.length position plain (front ++ text) =
      splitFrom candidates 0 (position + front.length) plain text := by
  induction front generalizing position with
  | nil => rfl
  | cons c rest ih =>
      rw [add_length_cons, List.cons_append, List.length_cons, splitFrom, ih]

theorem splitFrom_found {candidates : List (Candidate ι)} {position : Nat} {found : Candidate ι}
    (longest : longestAt position candidates = some found) (nonempty : found.text ≠ [])
    (plain after : Text) :
    splitFrom candidates 0 position plain (found.text ++ after) =
      plainSegment position plain ++
        ⟨found.text, position, some found.id⟩ ::
          splitFrom candidates 0 (position + found.text.length) [] after := by
  cases characters : found.text with
  | nil => exact absurd characters nonempty
  | cons c rest =>
      rw [List.cons_append, splitFrom, longest, add_length_cons]
      simp only [characters, List.length_cons, Nat.add_sub_cancel, splitFrom_covered]

theorem splitFrom_plain (candidates : List (Candidate ι)) (position : Nat) (plain front text : Text)
    (absent : ∀ offset < front.length, longestAt (position + offset) candidates = none) :
    splitFrom candidates 0 position plain (front ++ text) =
      splitFrom candidates 0 (position + front.length) (front.reverse ++ plain) text := by
  induction front generalizing position plain with
  | nil => rfl
  | cons c rest ih =>
      have here : longestAt position candidates = none := by
        simpa using absent 0 (by simp)
      have further := ih (position + 1) (c :: plain) fun offset inside => by
        have := absent (offset + 1) (by simpa using inside)
        rwa [← Nat.add_assoc, Nat.add_right_comm] at this
      rw [List.cons_append, splitFrom, here, add_length_cons]
      simpa using further

theorem plainSegment_slice {whole : Text} {start stop : Nat} (inside : stop ≤ whole.length) :
    (plainSegment (start + (whole.slice start stop).length) ((whole.slice start stop).reverse ++ []) :
      List (Segment ι)) = plainBetween whole start stop := by
  rcases Nat.lt_or_ge start stop with between | behind
  · have filled : (whole.slice start stop).isEmpty = false := by
      rw [← Bool.not_eq_true, List.isEmpty_iff_length_eq_zero, Text.length_slice _ _ inside]
      omega
    simp [plainSegment, plainBetween, between, filled]
  · have empty : whole.slice start stop = [] := by
      rw [← List.length_eq_zero_iff, Text.length_slice _ _ inside]
      omega
    simp [plainSegment, plainBetween, Nat.not_lt.mpr behind, empty]

/-! ## Candidates -/

theorem longestAt_mem {position : Nat} {candidates : List (Candidate ι)} {found : Candidate ι}
    (longest : longestAt position candidates = some found) :
    found ∈ candidates ∧ position ∈ found.offsets := by
  induction candidates with
  | nil => simp [longestAt] at longest
  | cons candidate rest ih =>
      simp only [longestAt] at longest
      cases behind : longestAt position rest with
      | none =>
          simp only [behind] at longest
          split at longest
          · next here =>
              cases longest
              exact ⟨.head _, by simpa using here⟩
          · cases longest
      | some other =>
          simp only [behind] at longest
          split at longest
          · next here =>
              have held : position ∈ candidate.offsets ∧
                  other.text.length ≤ candidate.text.length := by simpa using here
              cases longest
              exact ⟨.head _, held.1⟩
          · cases longest
            obtain ⟨member, held⟩ := ih behind
            exact ⟨.tail _ member, held⟩

/-- Candidates for the special texts of a whole text: none is empty, and each offset is an
occurrence. -/
def Candidates.Sound (whole : Text) (candidates : List (Candidate ι)) : Prop :=
  ∀ candidate ∈ candidates, candidate.text ≠ [] ∧
    ∀ offset ∈ candidate.offsets, candidate.text <+: whole.drop offset

theorem SpecialIndex.candidates_sound (index : SpecialIndex ι) (text : Text)
    (nonempty : ∀ entry ∈ index, entry.1 ≠ []) :
    Candidates.Sound text (index.candidates text) := by
  intro candidate member
  obtain ⟨⟨key, id⟩, listed, rfl⟩ := List.mem_map.mp member
  exact ⟨nonempty _ listed, fun offset found => (occurrences_sound found).2⟩

/-- The longest candidate found at an offset is known by its place: no longer one is found there, and none
as long stands before it. -/
theorem longestAt_of_getElem? {position : Nat} {candidates : List (Candidate ι)} {place : Nat}
    {found : Candidate ι} (listed : candidates[place]? = some found) (held : position ∈ found.offsets)
    (first : ∀ other candidate, candidates[other]? = some candidate → position ∈ candidate.offsets →
      candidate.text.length < found.text.length ∨
        candidate.text.length = found.text.length ∧ place ≤ other) :
    longestAt position candidates = some found := by
  induction candidates generalizing place with
  | nil => simp at listed
  | cons candidate rest ih =>
      rw [longestAt]
      cases place with
      | zero =>
          rw [List.getElem?_cons_zero, Option.some.injEq] at listed
          subst listed
          cases behind : longestAt position rest with
          | none => simp [held]
          | some other =>
              obtain ⟨member, otherHeld⟩ := longestAt_mem behind
              obtain ⟨index, otherListed⟩ := List.mem_iff_getElem?.mp member
              have shorter : other.text.length ≤ candidate.text.length := by
                have := first (index + 1) other otherListed otherHeld
                omega
              simp [held, shorter]
      | succ place =>
          have behind : longestAt position rest = some found := by
            apply ih listed
            intro other candidate otherListed otherHeld
            have := first (other + 1) candidate otherListed otherHeld
            omega
          rw [behind]
          apply if_neg
          rw [Bool.and_eq_true, List.contains_iff_mem, decide_eq_true_eq]
          intro both
          have := first 0 candidate rfl both.1
          omega

/-! ## Occurrences in order -/

namespace Occurrence

theorem precedes_total (a b : Occurrence ι) : a.precedes b = true ∨ b.precedes a = true := by
  simp only [precedes, decide_eq_true_eq]
  omega

theorem precedes_trans {a b c : Occurrence ι} (ab : a.precedes b = true) (bc : b.precedes c = true) :
    a.precedes c = true := by
  simp only [precedes, decide_eq_true_eq] at *
  omega

theorem insert_perm (found : Occurrence ι) (others : List (Occurrence ι)) :
    (insert found others).Perm (found :: others) := by
  induction others with
  | nil => exact .refl _
  | cons other rest ih =>
      rw [insert]
      split
      · exact .refl _
      · exact (ih.cons other).trans (.swap found other rest)

theorem inOrder_perm (found : List (Occurrence ι)) : (inOrder found).Perm found := by
  induction found with
  | nil => exact .refl _
  | cons first rest ih => exact (insert_perm first (inOrder rest)).trans (ih.cons first)

theorem pairwise_insert {found : Occurrence ι} {others : List (Occurrence ι)}
    (sorted : others.Pairwise fun a b => a.precedes b = true) :
    (insert found others).Pairwise fun a b => a.precedes b = true := by
  induction others with
  | nil => exact List.pairwise_singleton _ _
  | cons other rest ih =>
      obtain ⟨before, restSorted⟩ := List.pairwise_cons.mp sorted
      rw [insert]
      split
      · next first =>
          refine List.pairwise_cons.mpr ⟨?_, sorted⟩
          exact List.forall_mem_cons.mpr ⟨first, fun a member => precedes_trans first (before a member)⟩
      · next behind =>
          have ahead : other.precedes found = true :=
            (precedes_total other found).resolve_right behind
          refine List.pairwise_cons.mpr ⟨?_, ih restSorted⟩
          intro a member
          rcases List.mem_cons.mp ((insert_perm found rest).mem_iff.mp member) with rfl | member
          · exact ahead
          · exact before a member

theorem pairwise_inOrder (found : List (Occurrence ι)) :
    (inOrder found).Pairwise fun a b => a.precedes b = true := by
  induction found with
  | nil => exact .nil
  | cons first rest ih => exact pairwise_insert ih

theorem start_le_of_precedes {a b : Occurrence ι} (ab : a.precedes b = true) : a.start ≤ b.start := by
  simp only [precedes, decide_eq_true_eq] at ab
  omega

end Occurrence

namespace SpecialIndex

variable {index : SpecialIndex ι} {whole : Text} {found : Occurrence ι}

theorem mem_occurrencesIn_iff : found ∈ index.occurrencesIn whole ↔
    index[found.order]? = some (found.text, found.id) ∧
      found.start ∈ occurrences found.text whole := by
  simp only [occurrencesIn, List.mem_flatMap, List.mem_map, Prod.exists, List.mem_zipIdx_iff_getElem?]
  constructor
  · intro ⟨key, id, order, registered, start, held, same⟩
    subst same
    exact ⟨registered, held⟩
  · intro ⟨registered, held⟩
    exact ⟨_, _, _, registered, _, held, rfl⟩

theorem mem_of_mem_occurrencesIn (member : found ∈ index.occurrencesIn whole) :
    (found.text, found.id) ∈ index :=
  List.mem_of_getElem? (mem_occurrencesIn_iff.mp member).1

theorem starts_of_mem_occurrencesIn (member : found ∈ index.occurrencesIn whole) :
    found.start < whole.length ∧ found.text <+: whole.drop found.start :=
  occurrences_sound (mem_occurrencesIn_iff.mp member).2

theorem stop_le_of_mem_occurrencesIn (member : found ∈ index.occurrencesIn whole) :
    found.start + found.text.length ≤ whole.length := by
  obtain ⟨before, starts⟩ := starts_of_mem_occurrencesIn member
  have fits := starts.length_le
  rw [List.length_drop] at fits
  omega

/-- The occurrence that is tried first at a place is the longest candidate there. -/
theorem longestAt_of_first (member : found ∈ index.occurrencesIn whole)
    (first : ∀ other ∈ index.occurrencesIn whole, other.start = found.start →
      found.precedes other = true) :
    longestAt found.start (index.candidates whole) =
      some ⟨found.text, found.id, occurrences found.text whole⟩ := by
  obtain ⟨registered, held⟩ := mem_occurrencesIn_iff.mp member
  have listed : (index.candidates whole)[found.order]? =
      some ⟨found.text, found.id, occurrences found.text whole⟩ := by
    rw [candidates, List.getElem?_map, registered]
    rfl
  apply longestAt_of_getElem? listed held
  intro order candidate otherListed otherHeld
  rw [candidates, List.getElem?_map, Option.map_eq_some_iff] at otherListed
  obtain ⟨⟨key, id⟩, otherRegistered, rfl⟩ := otherListed
  have otherMember : ⟨found.start, order, key, id⟩ ∈ index.occurrencesIn whole :=
    mem_occurrencesIn_iff.mpr ⟨otherRegistered, otherHeld⟩
  have precedes := first _ otherMember rfl
  simp only [Occurrence.precedes, decide_eq_true_eq] at precedes
  dsimp only
  omega

theorem longestAt_eq_none {position : Nat}
    (absent : ∀ other ∈ index.occurrencesIn whole, other.start ≠ position) :
    longestAt position (index.candidates whole) = none := by
  rw [Option.eq_none_iff_forall_not_mem]
  intro candidate longest
  obtain ⟨member, held⟩ := longestAt_mem longest
  obtain ⟨⟨key, id⟩, registered, rfl⟩ := List.mem_map.mp member
  obtain ⟨order, registered⟩ := List.mem_iff_getElem?.mp registered
  have occurs : ⟨position, order, key, id⟩ ∈ index.occurrencesIn whole :=
    mem_occurrencesIn_iff.mpr ⟨registered, held⟩
  exact absent _ occurs rfl

/-! ## The pass through the occurrences -/

/-- Up to a place where something is found first, the characters are plain. -/
theorem splitFrom_slice {cursor stop : Nat} (ahead : cursor ≤ stop) (inside : stop ≤ whole.length)
    (absent : ∀ other ∈ index.occurrencesIn whole, cursor ≤ other.start → stop ≤ other.start) :
    splitFrom (index.candidates whole) 0 cursor [] (whole.drop cursor) =
      splitFrom (index.candidates whole) 0 stop ((whole.slice cursor stop).reverse ++ [])
        (whole.drop stop) := by
  have length := whole.length_slice cursor inside
  rw [whole.drop_eq_slice_append ahead, splitFrom_plain, length, Nat.add_sub_cancel' ahead]
  intro offset before
  apply longestAt_eq_none
  intro other occurs same
  have := absent other occurs (by omega)
  omega

/-- Where nothing is found any more, what is left is plain. -/
theorem splitFrom_of_none {cursor : Nat} (inside : cursor ≤ whole.length)
    (none : ∀ other ∈ index.occurrencesIn whole, other.start < cursor) :
    splitFrom (index.candidates whole) 0 cursor [] (whole.drop cursor) =
      plainBetween whole cursor whole.length := by
  have nothing : ∀ other ∈ index.occurrencesIn whole, cursor ≤ other.start →
      whole.length ≤ other.start := by
    intro other occurs behind
    exact absurd (none other occurs) (Nat.not_lt.mpr behind)
  have length := whole.length_slice cursor (Nat.le_refl whole.length)
  rw [splitFrom_slice inside (Nat.le_refl _) nothing, List.drop_length, splitFrom,
    ← plainSegment_slice (Nat.le_refl _), length, Nat.add_sub_cancel' inside]

/-- The occurrence that is tried first is cut out, and what stands before it is plain. -/
theorem splitFrom_of_first {cursor : Nat} (filled : found.text ≠ [])
    (occurs : found ∈ index.occurrencesIn whole) (reached : cursor ≤ found.start)
    (first : ∀ other ∈ index.occurrencesIn whole, cursor ≤ other.start →
      found.precedes other = true) :
    splitFrom (index.candidates whole) 0 cursor [] (whole.drop cursor) =
      plainBetween whole cursor found.start ++ ⟨found.text, found.start, some found.id⟩ ::
        splitFrom (index.candidates whole) 0 (found.start + found.text.length) []
          (whole.drop (found.start + found.text.length)) := by
  obtain ⟨before, after, wholeEq⟩ := starts_of_mem_occurrencesIn occurs
  have plain := splitFrom_slice reached (Nat.le_of_lt before) fun other otherOccurs behind =>
    Occurrence.start_le_of_precedes (first other otherOccurs behind)
  have longest := longestAt_of_first occurs fun other otherOccurs same =>
    first other otherOccurs (same ▸ reached)
  have afterEq : whole.drop (found.start + found.text.length) = after := by
    rw [← List.drop_drop, ← wholeEq, List.drop_left]
  have length := whole.length_slice cursor (Nat.le_of_lt before)
  rw [plain, ← wholeEq, splitFrom_found longest filled, afterEq,
    ← plainSegment_slice (Nat.le_of_lt before), length, Nat.add_sub_cancel' reached]

/-- What the pass makes of the occurrences that it has not come to yet: all of those that do not start
within what has been cut. -/
theorem cutFrom_eq_splitFrom (nonempty : ∀ entry ∈ index, entry.1 ≠ []) {cursor : Nat}
    {ahead : List (Occurrence ι)} (inside : cursor ≤ whole.length)
    (sorted : ahead.Pairwise fun a b => a.precedes b = true)
    (sound : ∀ found ∈ ahead, found ∈ index.occurrencesIn whole)
    (complete : ∀ found ∈ index.occurrencesIn whole, cursor ≤ found.start → found ∈ ahead) :
    cutFrom whole cursor ahead =
      splitFrom (index.candidates whole) 0 cursor [] (whole.drop cursor) := by
  induction ahead generalizing cursor with
  | nil =>
      have none : ∀ other ∈ index.occurrencesIn whole, other.start < cursor := by
        intro other occurs
        by_contra behind
        cases complete other occurs (Nat.not_lt.mp behind)
      rw [splitFrom_of_none inside none, cutFrom]
  | cons found rest ih =>
      obtain ⟨first, restSorted⟩ := List.pairwise_cons.mp sorted
      obtain ⟨occurs, restSound⟩ := List.forall_mem_cons.mp sound
      -- What starts elsewhere than the occurrence at hand is further on in the list.
      have further {reached : Nat} (beyond : cursor ≤ reached)
          (elsewhere : found.start < reached) : ∀ other ∈ index.occurrencesIn whole,
          reached ≤ other.start → other ∈ rest := by
        intro other otherOccurs behind
        rcases List.mem_cons.mp (complete other otherOccurs (Nat.le_trans beyond behind)) with
          rfl | member
        · omega
        · exact member
      rw [cutFrom]
      split
      · next givenUp => exact ih inside restSorted restSound (further (Nat.le_refl _) givenUp)
      · next taken =>
          have reached : cursor ≤ found.start := Nat.not_lt.mp taken
          have filled : found.text ≠ [] := nonempty _ (mem_of_mem_occurrencesIn occurs)
          have positive : 0 < found.text.length := List.length_pos_iff.mpr filled
          have firstOfAll : ∀ other ∈ index.occurrencesIn whole, cursor ≤ other.start →
              found.precedes other = true := by
            intro other otherOccurs behind
            rcases List.mem_cons.mp (complete other otherOccurs behind) with rfl | member
            · exact (Occurrence.precedes_total other other).elim id id
            · exact first other member
          have stillInside := stop_le_of_mem_occurrencesIn occurs
          have restCut := ih stillInside restSorted restSound (further (by omega) (by omega))
          rw [splitFrom_of_first filled occurs reached firstOfAll, restCut]

/-- Texts are cut as if they were gone through from left to right. -/
theorem split_eq_splitFrom (nonempty : ∀ entry ∈ index, entry.1 ≠ []) (text : Text) :
    index.split text = splitFrom (index.candidates text) 0 0 [] text := by
  have sound : ∀ found ∈ Occurrence.inOrder (index.occurrencesIn text),
      found ∈ index.occurrencesIn text :=
    fun _ member => (Occurrence.inOrder_perm _).mem_iff.mp member
  have complete : ∀ found ∈ index.occurrencesIn text, 0 ≤ found.start →
      found ∈ Occurrence.inOrder (index.occurrencesIn text) :=
    fun _ member _ => (Occurrence.inOrder_perm _).mem_iff.mpr member
  have passed := cutFrom_eq_splitFrom nonempty (Nat.zero_le _) (Occurrence.pairwise_inOrder _)
    sound complete
  rw [List.drop_zero] at passed
  rw [split]
  split
  · next blank =>
      rw [List.isEmpty_iff.mp blank]
      rfl
  · next filled =>
      split
      · next unregistered =>
          rw [← passed, List.isEmpty_iff.mp unregistered]
          have positive : 0 < text.length := by
            simpa [List.length_pos_iff] using filled
          simp [occurrencesIn, Occurrence.inOrder, cutFrom, plainBetween, positive, Text.slice]
      · exact passed

end SpecialIndex

end Tessera
