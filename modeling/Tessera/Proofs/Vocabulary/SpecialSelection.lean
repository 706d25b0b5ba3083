import Mathlib.Data.List.Pairwise
import Mathlib.Data.Set.Basic
import Tessera.Proofs.Vocabulary.SplitProperties

/-!
# Which special texts are cut out

Each special text is looked for on its own, from left to right without overlap. Where what is found
overlaps, the earlier one is cut out, and of those that start together the longest. This says all of
what is cut out: there is only one way to choose so.
-/

set_option autoImplicit false

namespace Tessera

variable {ι : Type}

/-! ## A text looked for on its own -/

/-- Whether a needle is taken at an offset when it is looked for from left to right without overlap:
it occurs there, and none that is taken before reaches that far. -/
def Text.TakenAt (needle text : Text) (offset : Nat) : Prop :=
  needle <+: text.drop offset ∧
    ∀ earlier, earlier < offset → TakenAt needle text earlier → earlier + needle.length ≤ offset
termination_by offset

section

variable {needle whole : Text} {position offset covered : Nat}

theorem Text.TakenAt.occurs (taken : needle.TakenAt whole offset) : needle <+: whole.drop offset := by
  rw [Text.TakenAt] at taken
  exact taken.1

theorem Text.TakenAt.lt_length (taken : needle.TakenAt whole offset) (nonempty : needle ≠ []) :
    offset < whole.length := lt_length_of_occurs nonempty taken.occurs

/-- A needle that occurs is taken somewhere: there, or at a place from which it reaches that far. -/
theorem Text.exists_takenAt (occurs : needle <+: whole.drop offset) :
    ∃ place, needle.TakenAt whole place := by
  by_cases taken : needle.TakenAt whole offset
  · exact ⟨offset, taken⟩
  · rw [Text.TakenAt] at taken
    push Not at taken
    obtain ⟨earlier, -, earlierTaken, -⟩ := taken occurs
    exact ⟨earlier, earlierTaken⟩

/-- What is known of a search that has come to a place: the needles taken before it end where the
covered characters do, at the latest, and one of them does if there are any. -/
structure Searched (needle whole : Text) (position covered : Nat) : Prop where
  behind : ∀ earlier, earlier < position → needle.TakenAt whole earlier →
    earlier + needle.length ≤ position + covered
  reached : 0 < covered → ∃ earlier, earlier < position ∧ needle.TakenAt whole earlier ∧
    earlier + needle.length = position + covered

namespace Searched

theorem start : Searched needle whole 0 0 where
  behind _ before := absurd before (Nat.not_lt_zero _)
  reached none := absurd none (Nat.lt_irrefl 0)

theorem not_taken (searched : Searched needle whole position covered) (positive : 0 < covered) :
    ¬ needle.TakenAt whole position := by
  intro taken
  obtain ⟨earlier, before, earlierTaken, ends⟩ := searched.reached positive
  rw [Text.TakenAt] at taken
  have apart := taken.2 earlier before earlierTaken
  omega

theorem taken (searched : Searched needle whole position 0) (occurs : needle <+: whole.drop position) :
    needle.TakenAt whole position := by
  rw [Text.TakenAt]
  exact ⟨occurs, searched.behind⟩

theorem pass (searched : Searched needle whole position covered)
    (absent : ¬ needle.TakenAt whole position) :
    Searched needle whole (position + 1) (covered - 1) where
  behind earlier before taken := by
    rcases Nat.lt_succ_iff_lt_or_eq.mp before with before | rfl
    · have bounded := searched.behind earlier before taken
      omega
    · exact absurd taken absent
  reached positive := by
    obtain ⟨earlier, before, taken, ends⟩ := searched.reached (by omega)
    exact ⟨earlier, Nat.lt_succ_of_lt before, taken, by omega⟩

theorem take (searched : Searched needle whole position 0)
    (here : needle.TakenAt whole position) (positive : 0 < needle.length) :
    Searched needle whole (position + 1) (needle.length - 1) where
  behind earlier before taken := by
    rcases Nat.lt_succ_iff_lt_or_eq.mp before with before | rfl
    · have bounded := searched.behind earlier before taken
      omega
    · omega
  reached _ := ⟨position, Nat.lt_succ_self position, here, by omega⟩

end Searched

theorem mem_occurrencesFrom_iff (nonempty : needle ≠ []) (text : Text)
    (here : whole.drop position = text) (searched : Searched needle whole position covered) :
    offset ∈ occurrencesFrom needle covered position text ↔
      position ≤ offset ∧ needle.TakenAt whole offset := by
  induction text generalizing covered position with
  | nil =>
      have ended : whole.length ≤ position := List.drop_eq_nil_iff.mp here
      have nowhere : ¬ (position ≤ offset ∧ needle.TakenAt whole offset) := by
        rintro ⟨ahead, taken⟩
        exact absurd (taken.lt_length nonempty) (by omega)
      simp only [occurrencesFrom, List.not_mem_nil, nowhere]
  | cons c rest ih =>
      have next : whole.drop (position + 1) = rest := by
        rw [← List.drop_drop, here, List.drop_one, List.tail_cons]
      -- A place where nothing is taken makes no difference.
      have passed (absent : ¬ needle.TakenAt whole position) :
          offset ∈ occurrencesFrom needle (covered - 1) (position + 1) rest ↔
            position ≤ offset ∧ needle.TakenAt whole offset := by
        rw [ih next (searched.pass absent)]
        refine and_congr_left fun taken => ⟨Nat.le_of_succ_le, fun ahead => ?_⟩
        exact Nat.lt_of_le_of_ne ahead fun same => absent (same ▸ taken)
      cases covered with
      | succ more => exact passed (searched.not_taken (Nat.succ_pos more))
      | zero =>
          by_cases starts : needle.isPrefixOf (c :: rest) = true
          · have takenHere := searched.taken (here ▸ List.isPrefixOf_iff_prefix.mp starts)
            have further := searched.take takenHere (List.length_pos_iff.mpr nonempty)
            rw [occurrencesFrom, if_pos starts, List.mem_cons, ih next further]
            constructor
            · rintro (rfl | ⟨ahead, taken⟩)
              · exact ⟨Nat.le_refl _, takenHere⟩
              · exact ⟨Nat.le_of_succ_le ahead, taken⟩
            · rintro ⟨ahead, taken⟩
              exact (Nat.eq_or_lt_of_le ahead).imp Eq.symm fun behind => ⟨behind, taken⟩
          · rw [occurrencesFrom, if_neg starts]
            refine passed fun taken => starts (List.isPrefixOf_iff_prefix.mpr ?_)
            exact here ▸ taken.occurs

theorem mem_occurrences_iff (nonempty : needle ≠ []) :
    offset ∈ occurrences needle whole ↔ needle.TakenAt whole offset := by
  rw [occurrences, mem_occurrencesFrom_iff nonempty whole rfl .start]
  exact and_iff_right (Nat.zero_le offset)

end

/-! ## The longest one at a place -/

section

variable {position : Nat} {candidates : List (Candidate ι)} {candidate found : Candidate ι}

theorem not_mem_of_longestAt_eq_none (absent : longestAt position candidates = none)
    (member : candidate ∈ candidates) : position ∉ candidate.offsets := by
  induction candidates with
  | nil => cases member
  | cons first rest ih =>
      simp only [longestAt] at absent
      cases behind : longestAt position rest with
      | some other =>
          simp only [behind] at absent
          split at absent <;> cases absent
      | none =>
          simp only [behind] at absent
          rcases List.mem_cons.mp member with rfl | member
          · simpa using absent
          · exact ih behind member

theorem length_le_of_longestAt (longest : longestAt position candidates = some found)
    (member : candidate ∈ candidates) (held : position ∈ candidate.offsets) :
    candidate.text.length ≤ found.text.length := by
  induction candidates generalizing found with
  | nil => cases member
  | cons first rest ih =>
      simp only [longestAt] at longest
      cases behind : longestAt position rest with
      | none =>
          rcases List.mem_cons.mp member with rfl | member
          · simp only [behind, List.contains_iff_mem, held, ↓reduceIte, Option.some.injEq] at longest
            exact longest ▸ Nat.le_refl _
          · exact absurd held (not_mem_of_longestAt_eq_none behind member)
      | some other =>
          simp only [behind] at longest
          split at longest
          · next taken =>
              have firstTaken : position ∈ first.offsets ∧
                  other.text.length ≤ first.text.length := by simpa using taken
              cases longest
              rcases List.mem_cons.mp member with rfl | member
              · exact Nat.le_refl _
              · exact Nat.le_trans (ih behind member) firstTaken.2
          · next passed =>
              cases longest
              rcases List.mem_cons.mp member with rfl | member
              · have shorter : position ∈ candidate.offsets →
                    candidate.text.length < found.text.length := by simpa using passed
                exact Nat.le_of_lt (shorter held)
              · exact ih behind member

end

theorem SpecialIndex.candidates_cons (key : Text) (id : ι) (rest : SpecialIndex ι) (whole : Text) :
    candidates ((key, id) :: rest) whole =
      ⟨key, id, occurrences key whole⟩ :: candidates rest whole :=
  rfl

/-- What is found at a place bears the id that its text has in the index. -/
theorem SpecialIndex.lookup_of_longestAt {index : SpecialIndex ι} {whole : Text} {position : Nat}
    {found : Candidate ι} (longest : longestAt position (index.candidates whole) = some found) :
    index.lookup found.text = some found.id := by
  induction index with
  | nil => simp [candidates, longestAt] at longest
  | cons first rest ih =>
      obtain ⟨key, id⟩ := first
      rw [candidates_cons, longestAt] at longest
      cases behind : longestAt position (candidates rest whole) with
      | none =>
          simp only [behind] at longest
          split at longest
          · cases longest
            exact List.lookup_cons_self
          · cases longest
      | some other =>
          simp only [behind] at longest
          split at longest
          · cases longest
            exact List.lookup_cons_self
          · next passed =>
              cases longest
              obtain ⟨member, held⟩ := longestAt_mem behind
              obtain ⟨entry, -, rfl⟩ := List.mem_map.mp member
              -- A first entry with the same text would have been found as well, and preferred.
              have different : entry.1 ≠ key := by
                rintro rfl
                exact passed (by simpa using held)
              rw [List.lookup_cons, beq_eq_false_iff_ne.mpr different]
              exact ih behind

/-! ## What is cut out -/

namespace Segment

/-- Whether two segments have a character in common. -/
def Overlaps (first second : Segment ι) : Prop :=
  first.start < second.stop ∧ second.start < first.stop

/-- Whether a segment goes before another one: it starts earlier, or it starts there too and is
longer. -/
def Precedes (first second : Segment ι) : Prop :=
  first.start < second.start ∨
    first.start = second.start ∧ second.text.length < first.text.length

instance : Std.Symm fun first second : Segment ι => ¬ first.Overlaps second where
  symm _ _ apart overlaps := apart (And.symm overlaps)

theorem Precedes.ne {first second : Segment ι} (precedes : first.Precedes second) :
    first ≠ second := by
  rintro rfl
  exact precedes.elim (Nat.lt_irrefl _) fun both => Nat.lt_irrefl _ both.2

end Segment

section

variable {candidates : List (Candidate ι)} {position : Nat} {plain text : Text}
  {segments : List (Segment ι)}

/-- A special segment is the longest candidate at its place. -/
theorem Cut.longestAt_of_mem (cut : Cut candidates position plain text segments)
    {segment : Segment ι} (member : segment ∈ segments) {id : ι}
    (special : segment.special = some id) :
    ∃ found, longestAt segment.start candidates = some found ∧ found.text = segment.text ∧
      found.id = id := by
  induction cut with
  | done =>
      rw [special_eq_none_of_mem_plainSegment member] at special
      cases special
  | plain absent further ih => exact ih member
  | special longest further ih =>
      rcases List.mem_append.mp member with member | member
      · rw [special_eq_none_of_mem_plainSegment member] at special
        cases special
      · rcases List.mem_cons.mp member with rfl | member
        · exact ⟨_, longest, rfl, Option.some.inj special⟩
        · exact ih member

/-- Each place where a candidate was found lies in a special segment, which does not start there unless
it is at least as long. -/
theorem Cut.exists_winner (cut : Cut candidates position plain text segments)
    {candidate : Candidate ι} (listed : candidate ∈ candidates) {offset : Nat}
    (held : offset ∈ candidate.offsets) (ahead : position ≤ offset)
    (inside : offset < position + text.length) :
    ∃ winner ∈ segments, winner.isSpecial ∧ winner.start ≤ offset ∧ offset < winner.stop ∧
      (winner.start = offset → candidate.text.length ≤ winner.text.length) := by
  induction cut with
  | done => exact absurd ahead (Nat.not_le.mpr inside)
  | @plain position c plain rest segments absent further ih =>
      have notHere : position ≠ offset := by
        rintro rfl
        exact not_mem_of_longestAt_eq_none absent listed held
      rw [add_length_cons] at inside
      exact ih (Nat.lt_of_le_of_ne ahead notHere) inside
  | @special position plain after found segments longest further ih =>
      rw [List.length_append, ← Nat.add_assoc] at inside
      rcases Nat.lt_or_ge offset (position + found.text.length) with covered | behind
      · refine ⟨⟨found.text, position, some found.id⟩, by simp, rfl, ahead, covered, ?_⟩
        rintro rfl
        exact length_le_of_longestAt longest listed held
      · obtain ⟨winner, member, properties⟩ := ih behind inside
        exact ⟨winner, List.mem_append_right _ (.tail _ member), properties⟩

theorem Tiles.pairwise {start : Nat} (tiles : Tiles start text segments) :
    (∀ segment ∈ segments, start ≤ segment.start) ∧
      segments.Pairwise fun first second => first.stop ≤ second.start := by
  induction tiles with
  | nil => simp
  | @cons start text rest special segments _ ih =>
      obtain ⟨behind, ordered⟩ := ih
      refine ⟨?_, List.pairwise_cons.mpr ⟨behind, ordered⟩⟩
      intro segment member
      rcases List.mem_cons.mp member with rfl | member
      · exact Nat.le_refl _
      · exact Nat.le_trans (Nat.le_add_right _ _) (behind segment member)

end

namespace SpecialIndex

/-- The segments that are found: each bears a special text, with its id, at a place where that text is
taken on its own. -/
structure Finds (index : SpecialIndex ι) (text : Text) (segment : Segment ι) : Prop where
  special : segment.isSpecial
  registered : index.lookup segment.text = segment.special
  taken : segment.text.TakenAt text segment.start

/-- What may be chosen of the segments that are found: some that do not overlap, such that any other
overlaps one of them that goes before it. -/
structure Prefers (index : SpecialIndex ι) (text : Text) (chosen : Set (Segment ι)) : Prop where
  finds : ∀ segment ∈ chosen, index.Finds text segment
  apart : ∀ first ∈ chosen, ∀ second ∈ chosen, first ≠ second → ¬ first.Overlaps second
  beaten : ∀ segment, index.Finds text segment → segment ∉ chosen →
    ∃ winner ∈ chosen, winner.Overlaps segment ∧ winner.Precedes segment

variable {index : SpecialIndex ι} {text : Text}

theorem Finds.mem {segment : Segment ι} (found : index.Finds text segment) :
    ∃ id, segment.special = some id ∧ (segment.text, id) ∈ index := by
  obtain ⟨id, special⟩ := Option.isSome_iff_exists.mp found.special
  refine ⟨id, special, ?_⟩
  obtain ⟨front, back, rfl, -⟩ := List.lookup_eq_some_iff.mp (found.registered.trans special)
  simp

theorem Finds.length_le {segment : Segment ι} (found : index.Finds text segment) :
    segment.text.length ≤ text.length := by
  refine Nat.le_trans found.taken.occurs.length_le ?_
  rw [List.length_drop]
  exact Nat.sub_le _ _

/-! ### One choice at most -/

section

variable {chosen others : Set (Segment ι)}

/-- A segment that is chosen is chosen the other way too, if both ways agree on all that go before it. -/
theorem Prefers.mem_of_mem (prefers : index.Prefers text chosen)
    (othersPrefer : index.Prefers text others) {segment : Segment ι} (member : segment ∈ chosen)
    (before : ∀ winner ∈ others, winner.Precedes segment → winner ∈ chosen) : segment ∈ others := by
  by_contra absent
  obtain ⟨winner, listed, overlaps, precedes⟩ :=
    othersPrefer.beaten segment (prefers.finds segment member) absent
  exact prefers.apart winner (before winner listed precedes) segment member precedes.ne overlaps

/-- Where a segment comes in the order of precedence. -/
def rank (text : Text) (segment : Segment ι) : Nat × Nat :=
  (segment.start, text.length - segment.text.length)

theorem rank_lt_rank {winner segment : Segment ι} (found : index.Finds text winner)
    (precedes : winner.Precedes segment) :
    Prod.Lex (· < ·) (· < ·) (rank text winner) (rank text segment) := by
  have bounded := found.length_le
  rcases precedes with earlier | ⟨together, longer⟩
  · exact .left _ _ earlier
  · have shorterRest : text.length - winner.text.length < text.length - segment.text.length := by
      omega
    rw [rank, rank, together]
    exact .right _ shorterRest

theorem Prefers.mem_iff (prefers : index.Prefers text chosen)
    (othersPrefer : index.Prefers text others) (segment : Segment ι) :
    segment ∈ chosen ↔ segment ∈ others := by
  have wf : WellFounded (Prod.Lex (· < ·) (· < ·) : Nat × Nat → Nat × Nat → Prop) :=
    (Prod.lex Nat.lt_wfRel Nat.lt_wfRel).wf
  induction segment using (InvImage.wf (rank text) wf).induction with
  | _ segment ih =>
      constructor
      · intro member
        refine prefers.mem_of_mem othersPrefer member fun winner listed precedes => ?_
        exact (ih winner (rank_lt_rank (othersPrefer.finds winner listed) precedes)).mpr listed
      · intro member
        refine othersPrefer.mem_of_mem prefers member fun winner listed precedes => ?_
        exact (ih winner (rank_lt_rank (prefers.finds winner listed) precedes)).mp listed

end

/-! ### The choice that is made -/

/-- The special segments that a text is cut into. -/
def cutOut (index : SpecialIndex ι) (text : Text) : Set (Segment ι) :=
  {segment | segment ∈ index.split text ∧ segment.isSpecial}

section

variable (nonempty : ∀ entry ∈ index, entry.1 ≠ [])

include nonempty

theorem finds_of_mem_cutOut {segment : Segment ι} (member : segment ∈ index.cutOut text) :
    index.Finds text segment := by
  obtain ⟨listed, special⟩ := member
  obtain ⟨id, labelled⟩ := Option.isSome_iff_exists.mp special
  obtain ⟨registered, held⟩ := mem_of_special nonempty listed labelled
  obtain ⟨found, longest, sameText, sameId⟩ :=
    (index.split_cut text nonempty).longestAt_of_mem listed labelled
  refine ⟨special, ?_, (mem_occurrences_iff (nonempty _ registered)).mp held⟩
  rw [← sameText, lookup_of_longestAt longest, sameId, labelled]

theorem exists_winner_of_finds {segment : Segment ι} (found : index.Finds text segment) :
    ∃ winner ∈ index.cutOut text, winner.start ≤ segment.start ∧ segment.start < winner.stop ∧
      (winner.start = segment.start → segment.text.length ≤ winner.text.length) := by
  obtain ⟨id, -, registered⟩ := found.mem
  have filled := nonempty _ registered
  obtain ⟨winner, member, special, properties⟩ :=
    (index.split_cut text nonempty).exists_winner (List.mem_map_of_mem registered)
      ((mem_occurrences_iff filled).mpr found.taken) (Nat.zero_le _)
      (by rw [Nat.zero_add]; exact found.taken.lt_length filled)
  exact ⟨winner, ⟨member, special⟩, properties⟩

theorem prefers_cutOut : index.Prefers text (index.cutOut text) where
  finds _ member := finds_of_mem_cutOut nonempty member
  apart first firstMember second secondMember different overlaps := by
    have ordered := (index.split_tiles text nonempty).pairwise.2
    have apart : (index.split text).Pairwise fun first second => ¬ first.Overlaps second :=
      ordered.imp fun behind overlaps => absurd overlaps.2 (Nat.not_lt.mpr behind)
    exact apart.forall firstMember.1 secondMember.1 different overlaps
  beaten segment found absent := by
    obtain ⟨winner, member, notBehind, covers, asLong⟩ := exists_winner_of_finds nonempty found
    obtain ⟨id, special, registered⟩ := found.mem
    have positive : 0 < segment.text.length := List.length_pos_iff.mpr (nonempty _ registered)
    have startsInside : winner.start < segment.stop := by
      rw [Segment.stop]
      omega
    refine ⟨winner, member, ⟨startsInside, covers⟩, ?_⟩
    rcases Nat.lt_or_eq_of_le notBehind with earlier | together
    · exact .inl earlier
    · refine .inr ⟨together, Nat.lt_of_le_of_ne (asLong together) fun asShort => absent ?_⟩
      -- Two texts of one length at one place are the same, and so are the segments.
      have winnerFound := finds_of_mem_cutOut nonempty member
      have occurs := winnerFound.taken.occurs
      rw [together] at occurs
      have sameText : segment.text = winner.text :=
        List.IsPrefix.eq_of_length
          (List.prefix_of_prefix_length_le found.taken.occurs occurs (Nat.le_of_eq asShort)) asShort
      have sameSpecial : segment.special = winner.special := by
        rw [← found.registered, sameText, winnerFound.registered]
      have same : segment = winner := by
        cases segment
        cases winner
        simp_all
      exact same ▸ member

end

/-- The special segments that a text is cut into stand one behind the other. They are the only choice
among those that are found of each special text on its own, in which no two overlap and any other one
overlaps one that starts earlier, or starts there too and is longer. -/
theorem prefers_iff_eq_cutOut (index : SpecialIndex ι) (nonempty : ∀ entry ∈ index, entry.1 ≠ [])
    (text : Text) :
    ((index.split text).filter (·.isSpecial)).Pairwise
      (fun first second => first.stop ≤ second.start) ∧
    ∀ chosen, index.Prefers text chosen ↔ chosen = index.cutOut text := by
  refine ⟨(index.split_tiles text nonempty).pairwise.2.filter _, fun chosen => ⟨?_, ?_⟩⟩
  · intro prefers
    exact Set.ext (prefers.mem_iff (prefers_cutOut nonempty))
  · rintro rfl
    exact prefers_cutOut nonempty

/-- Of three special texts that overlap, the first two start together and the third starts in the
longer one of them. -/
theorem prefers_iff_eq_cutOut_of_overlaps :
    let index : SpecialIndex Nat :=
      [("ab".toList, 1), ("abc".toList, 2), ("cb".toList, 3), ("bab".toList, 4)]
    (∀ entry ∈ index, entry.1 ≠ []) ∧
    index.split "xabcbabab".toList =
      [⟨['x'], 0, none⟩, ⟨"abc".toList, 1, some 2⟩, ⟨"bab".toList, 4, some 4⟩,
        ⟨"ab".toList, 7, some 1⟩] ∧
    ∀ chosen, index.Prefers "xabcbabab".toList chosen ↔ chosen = index.cutOut "xabcbabab".toList := by
  intro index
  have nonempty : ∀ entry ∈ index, entry.1 ≠ [] := by decide
  exact ⟨nonempty, by decide, (prefers_iff_eq_cutOut index nonempty "xabcbabab".toList).2⟩

end SpecialIndex

end Tessera
