import Tessera.Proofs.Vocabulary.SplitProperties

/-!
# The scan for special texts

A scan goes from left to right: it finds the first place where a special text occurs, takes the
longest one there, and goes on behind it. Cutting looks for each special text on its own instead,
without overlap. The two agree exactly where each special text that the scan takes is also found on
its own; an occurrence that overlaps an earlier one of the same text is not.
-/

set_option autoImplicit false

namespace Tessera

variable {ι : Type}

namespace SpecialIndex

/-! ## The scan -/

/-- The longest special text that a text starts with; the first registered one, if several are as
long. The empty text does not count. -/
def longest? (text : Text) : SpecialIndex ι → Option (Text × ι)
  | [] => none
  | (key, id) :: rest =>
    let starts := !key.isEmpty && key.isPrefixOf text
    match longest? text rest with
    | none => if starts then some (key, id) else none
    | some other =>
      if starts && decide (other.1.length ≤ key.length) then some (key, id) else some other

/-- The longest special text at the first place where one occurs, between what stands before and
what stands behind it. -/
def first? (index : SpecialIndex ι) : Text → Option (Text × (Text × ι) × Text)
  | [] => none
  | c :: rest =>
    match index.longest? (c :: rest) with
    | some special => some ([], special, (c :: rest).drop special.1.length)
    | none =>
      (first? index rest).map fun (before, special, after) => (c :: before, special, after)

theorem longest?_eq_none {index : SpecialIndex ι} {text : Text}
    (absent : index.longest? text = none) (entry : Text × ι) (member : entry ∈ index)
    (starts : entry.1 <+: text) : entry.1 = [] := by
  induction index with
  | nil => cases member
  | cons first rest ih =>
      rcases first with ⟨key, id⟩
      simp only [longest?] at absent
      cases behind : longest? text rest with
      | some other =>
          simp only [behind] at absent
          split at absent <;> cases absent
      | none =>
          simp only [behind] at absent
          rcases List.mem_cons.mp member with rfl | member
          · have prefixed := List.isPrefixOf_iff_prefix.mpr starts
            simpa [prefixed] using absent
          · exact ih behind member

/-- The longest special text is known by its place: no longer one starts the text, and none as long stands
before it. -/
theorem longest?_place {index : SpecialIndex ι} {text : Text} {special : Text × ι}
    (longest : index.longest? text = some special) :
    ∃ place, index[place]? = some special ∧ special.1 ≠ [] ∧ special.1 <+: text ∧
      ∀ (other : Nat) (entry : Text × ι), index[other]? = some entry → entry.1 <+: text →
        entry.1.length < special.1.length ∨
          entry.1.length = special.1.length ∧ place ≤ other := by
  induction index generalizing special with
  | nil => simp [longest?] at longest
  | cons first rest ih =>
      rcases first with ⟨key, id⟩
      simp only [longest?] at longest
      cases behind : longest? text rest with
      | none =>
          simp only [behind] at longest
          split at longest
          · next starts =>
              cases longest
              have here : key ≠ [] ∧ key <+: text := by simpa using starts
              refine ⟨0, rfl, here.1, here.2, ?_⟩
              intro other entry listed occurs
              cases other with
              | zero =>
                  cases listed
                  exact .inr ⟨rfl, Nat.le_refl _⟩
              | succ other =>
                  have blank := longest?_eq_none behind entry (List.mem_of_getElem? listed) occurs
                  rw [blank]
                  exact .inl (List.length_pos_iff.mpr here.1)
          · cases longest
      | some best =>
          obtain ⟨place, listed, nonempty, occurs, greatest⟩ := ih behind
          simp only [behind] at longest
          split at longest
          · next starts =>
              have here : (key ≠ [] ∧ key <+: text) ∧ best.1.length ≤ key.length := by
                simpa using starts
              cases longest
              refine ⟨0, rfl, here.1.1, here.1.2, ?_⟩
              intro other entry otherListed otherOccurs
              cases other with
              | zero =>
                  cases otherListed
                  exact .inr ⟨rfl, Nat.le_refl _⟩
              | succ other =>
                  have := greatest other entry otherListed otherOccurs
                  dsimp only
                  omega
          · next starts =>
              have notHere : key ≠ [] → key <+: text → key.length < best.1.length := by
                simpa using starts
              cases longest
              refine ⟨place + 1, listed, nonempty, occurs, ?_⟩
              intro other entry otherListed otherOccurs
              cases other with
              | zero =>
                  cases otherListed
                  by_cases blank : key = []
                  · rw [blank]
                    exact .inl (List.length_pos_iff.mpr nonempty)
                  · exact .inl (notHere blank otherOccurs)
              | succ other =>
                  have := greatest other entry otherListed otherOccurs
                  omega

theorem longest?_eq_some {index : SpecialIndex ι} {text : Text} {special : Text × ι}
    (longest : index.longest? text = some special) :
    special ∈ index ∧ special.1 ≠ [] ∧ special.1 <+: text := by
  obtain ⟨place, listed, nonempty, occurs, -⟩ := longest?_place longest
  exact ⟨List.mem_of_getElem? listed, nonempty, occurs⟩

theorem first?_eq_none {index : SpecialIndex ι} {text : Text} (absent : index.first? text = none)
    (offset : Nat) (inside : offset < text.length) : index.longest? (text.drop offset) = none := by
  induction text generalizing offset with
  | nil => simp at inside
  | cons c rest ih =>
      simp only [first?] at absent
      cases longest : index.longest? (c :: rest) with
      | some special => simp [longest] at absent
      | none =>
          cases offset with
          | zero => exact longest
          | succ further =>
              exact ih (by simpa [longest] using absent) further (by simpa using inside)

/-- The first special text cuts its text in three, and is the longest at the first place where any
occurs. -/
theorem first?_eq_some {index : SpecialIndex ι} {text before after : Text} {special : Text × ι}
    (found : index.first? text = some (before, special, after)) :
    text = before ++ (special.1 ++ after) ∧
      index.longest? (special.1 ++ after) = some special ∧
      ∀ offset < before.length, index.longest? (text.drop offset) = none := by
  induction text generalizing before with
  | nil => simp [first?] at found
  | cons c rest ih =>
      simp only [first?] at found
      cases longest : index.longest? (c :: rest) with
      | some here =>
          simp only [longest, Option.some.injEq, Prod.mk.injEq] at found
          obtain ⟨rfl, rfl, rfl⟩ := found
          obtain ⟨_, _, ⟨tail, wholeEq⟩⟩ := longest?_eq_some longest
          have tailEq : (c :: rest).drop here.1.length = tail := by
            rw [← wholeEq, List.drop_left]
          rw [tailEq, wholeEq]
          exact ⟨rfl, longest, by simp⟩
      | none =>
          simp only [longest, Option.map_eq_some_iff, Prod.mk.injEq, Prod.exists] at found
          obtain ⟨front, _, _, _, further, rfl, rfl, rfl⟩ := found
          obtain ⟨wholeEq, greatest, absent⟩ := ih further
          refine ⟨by rw [wholeEq, List.cons_append], greatest, fun offset inside => ?_⟩
          cases offset with
          | zero => exact longest
          | succ more => exact absent more (by simpa using inside)

theorem length_lt_of_first? {index : SpecialIndex ι} {text before after : Text}
    {special : Text × ι} (found : index.first? text = some (before, special, after)) :
    after.length < text.length := by
  obtain ⟨wholeEq, longest, _⟩ := first?_eq_some found
  obtain ⟨_, nonempty, _⟩ := longest?_eq_some longest
  have positive : 0 < special.1.length := List.length_pos_iff.mpr nonempty
  rw [wholeEq]
  simp only [List.length_append]
  omega

def plainSpan (start : Nat) (text : Text) : List (Segment ι) :=
  if text.isEmpty then [] else [⟨text, start, none⟩]

def scanFrom (index : SpecialIndex ι) (cursor : Nat) (text : Text) : List (Segment ι) :=
  match found : index.first? text with
  | none => plainSpan cursor text
  | some (before, special, after) =>
    plainSpan cursor before ++
      ⟨special.1, cursor + before.length, some special.2⟩ ::
        scanFrom index (cursor + before.length + special.1.length) after
termination_by text.length
decreasing_by exact length_lt_of_first? found

/-- Finds the first place where a special text occurs, takes the longest one there, and goes on
behind it. Everything in between is plain. -/
def scan (index : SpecialIndex ι) (text : Text) : List (Segment ι) := index.scanFrom 0 text

/-! ## What the scan finds -/

theorem isSpecial_eq_false_of_mem_plainSpan {start : Nat} {text : Text} {segment : Segment ι}
    (member : segment ∈ plainSpan start text) :
    segment.isSpecial = false ∧ segment.text = text := by
  unfold plainSpan at member
  split at member
  · simp at member
  · rw [List.mem_singleton.mp member]
    exact ⟨rfl, rfl⟩

theorem eq_nil_of_infix {index : SpecialIndex ι} {front back : Text}
    (absent : ∀ offset < front.length, index.longest? ((front ++ back).drop offset) = none)
    {entry : Text × ι} (member : entry ∈ index) (occurs : entry.1 <:+: front) :
    entry.1 = [] := by
  obtain ⟨before, after, wholeEq⟩ := occurs
  by_cases empty : entry.1 = []
  · exact empty
  · have positive : 0 < entry.1.length := List.length_pos_iff.mpr empty
    have inside : before.length < front.length := by
      rw [← wholeEq]
      simp only [List.length_append]
      omega
    refine longest?_eq_none (absent before.length inside) entry member ?_
    rw [← wholeEq, List.append_assoc, List.append_assoc, List.drop_left]
    exact List.prefix_append _ _

theorem not_infix_of_mem_scanFrom {index : SpecialIndex ι}
    (nonempty : ∀ entry ∈ index, entry.1 ≠ []) (cursor : Nat) (text : Text)
    {segment : Segment ι} (member : segment ∈ index.scanFrom cursor text)
    (plain : ¬ segment.isSpecial) (entry : Text × ι) (listed : entry ∈ index) :
    ¬ entry.1 <:+: segment.text := by
  intro occurs
  refine nonempty entry listed ?_
  fun_induction scanFrom index cursor text with
  | case1 cursor text absent =>
      rw [(isSpecial_eq_false_of_mem_plainSpan member).2] at occurs
      have absentHere : ∀ offset < text.length,
          index.longest? ((text ++ []).drop offset) = none :=
        fun offset inside => by simpa using first?_eq_none absent offset inside
      exact eq_nil_of_infix absentHere listed occurs
  | case2 cursor text before special after found ih =>
      obtain ⟨wholeEq, _, absent⟩ := first?_eq_some found
      rcases List.mem_append.mp member with member | member
      · rw [(isSpecial_eq_false_of_mem_plainSpan member).2] at occurs
        exact eq_nil_of_infix (by rwa [wholeEq] at absent) listed occurs
      · rcases List.mem_cons.mp member with rfl | member
        · exact absurd rfl plain
        · exact ih member

theorem prefix_of_mem_scanFrom {index : SpecialIndex ι} (whole : Text) (cursor : Nat) (text : Text)
    (here : whole.drop cursor = text) {segment : Segment ι}
    (member : segment ∈ index.scanFrom cursor text) (special : segment.isSpecial) :
    (∃ entry ∈ index, entry.1 = segment.text) ∧ segment.text ≠ [] ∧
      segment.text <+: whole.drop segment.start := by
  fun_induction scanFrom index cursor text with
  | case1 cursor text absent =>
      simp [(isSpecial_eq_false_of_mem_plainSpan member).1] at special
  | case2 cursor text before foundSpecial after found ih =>
      obtain ⟨wholeEq, longest, _⟩ := first?_eq_some found
      have atSpecial : whole.drop (cursor + before.length) = foundSpecial.1 ++ after := by
        rw [← List.drop_drop, here, wholeEq, List.drop_left]
      rcases List.mem_append.mp member with member | member
      · simp [(isSpecial_eq_false_of_mem_plainSpan member).1] at special
      · rcases List.mem_cons.mp member with rfl | member
        · obtain ⟨listed, nonempty, _⟩ := longest?_eq_some longest
          refine ⟨⟨foundSpecial, listed, rfl⟩, nonempty, ?_⟩
          rw [atSpecial]
          exact List.prefix_append _ _
        · refine ih ?_ member
          rw [← List.drop_drop, atSpecial, List.drop_left]

end SpecialIndex

/-! ## Cutting as a scan -/

theorem plainSegment_reverse (start : Nat) (text : Text) :
    (plainSegment (start + text.length) (text.reverse ++ []) : List (Segment ι)) =
      SpecialIndex.plainSpan start text := by
  by_cases empty : text = [] <;> simp [plainSegment, SpecialIndex.plainSpan, empty]

theorem SpecialIndex.longestAt_candidates_eq_none {index : SpecialIndex ι} {whole : Text}
    {position : Nat} (nonempty : ∀ entry ∈ index, entry.1 ≠ [])
    (absent : index.longest? (whole.drop position) = none) :
    longestAt position (index.candidates whole) = none := by
  cases longest : longestAt position (index.candidates whole) with
  | none => rfl
  | some found =>
      obtain ⟨member, held⟩ := longestAt_mem longest
      obtain ⟨entry, listed, rfl⟩ := List.mem_map.mp member
      have occurs := (index.candidates_sound whole nonempty _ member).2 position held
      exact absurd (longest?_eq_none absent entry listed occurs) (nonempty entry listed)

/-- The longest special text at a place is cut out there, provided that it was found on its own. -/
theorem SpecialIndex.longestAt_candidates_eq_some {index : SpecialIndex ι} {whole : Text}
    {position : Nat} {special : Text × ι}
    (longest : index.longest? (whole.drop position) = some special)
    (held : position ∈ occurrences special.1 whole) :
    longestAt position (index.candidates whole) =
      some ⟨special.1, special.2, occurrences special.1 whole⟩ := by
  obtain ⟨place, listed, -, -, greatest⟩ := longest?_place longest
  have candidateListed : (index.candidates whole)[place]? =
      some ⟨special.1, special.2, occurrences special.1 whole⟩ := by
    rw [candidates, List.getElem?_map, listed]
    rfl
  apply longestAt_of_getElem? candidateListed held
  intro other candidate otherListed otherHeld
  rw [candidates, List.getElem?_map, Option.map_eq_some_iff] at otherListed
  obtain ⟨entry, registered, rfl⟩ := otherListed
  exact greatest other entry registered (occurrences_sound otherHeld).2

/-- Cutting is the scan if each special text that the scan takes was found on its own. -/
theorem SpecialIndex.splitFrom_eq_scanFrom {index : SpecialIndex ι} {whole : Text}
    (nonempty : ∀ entry ∈ index, entry.1 ≠ []) (cursor : Nat) (text : Text)
    (here : whole.drop cursor = text)
    (held : ∀ segment ∈ index.scanFrom cursor text, segment.isSpecial →
      segment.start ∈ occurrences segment.text whole) :
    splitFrom (index.candidates whole) 0 cursor [] text = index.scanFrom cursor text := by
  fun_induction scanFrom index cursor text with
  | case1 cursor text absent =>
      have plain := splitFrom_plain (index.candidates whole) cursor [] text []
        fun offset inside => longestAt_candidates_eq_none nonempty <| by
          rw [← List.drop_drop, here]
          exact first?_eq_none absent offset inside
      rw [List.append_nil] at plain
      rw [plain, splitFrom, plainSegment_reverse]
  | case2 cursor text before special after found ih =>
      obtain ⟨wholeEq, longest, absent⟩ := first?_eq_some found
      have atSpecial : whole.drop (cursor + before.length) = special.1 ++ after := by
        rw [← List.drop_drop, here, wholeEq, List.drop_left]
      have plain := splitFrom_plain (index.candidates whole) cursor [] before
        (special.1 ++ after) fun offset inside => longestAt_candidates_eq_none nonempty <| by
          rw [← List.drop_drop, here]
          exact absent offset inside
      have taken := longestAt_candidates_eq_some (by rwa [atSpecial])
        (held _ (List.mem_append_right _ (.head _)) rfl)
      have cut := splitFrom_found taken (longest?_eq_some longest).2.1
        (before.reverse ++ []) after
      have further := ih (by rw [← List.drop_drop, atSpecial, List.drop_left])
        fun segment member => held segment (List.mem_append_right _ (.tail _ member))
      rw [wholeEq, plain, cut, plainSegment_reverse, further]

/-! ## Texts that overlap themselves -/

/-- Whether an end of a text, shorter than the text, is also a start of it. -/
def Text.OverlapsItself (text : Text) : Prop :=
  ∃ shift, 0 < shift ∧ shift < text.length ∧ text.drop shift <+: text

/-- Every occurrence of a text that does not overlap itself is found. -/
theorem mem_occurrencesFrom {needle : Text} (apart : ¬ needle.OverlapsItself)
    (covered position offset : Nat) (text : Text) (inside : offset < text.length)
    (behind : covered ≤ offset) (occurs : needle <+: text.drop offset) :
    position + offset ∈ occurrencesFrom needle covered position text := by
  induction text generalizing covered position offset with
  | nil => simp at inside
  | cons c rest ih =>
      have further : ∀ next more, offset = more + 1 → next ≤ more →
          position + offset ∈ occurrencesFrom needle next (position + 1) rest := by
        rintro next more rfl bounded
        have := ih next (position + 1) more (by simpa using inside) bounded (by simpa using occurs)
        rwa [Nat.add_assoc, Nat.add_comm 1] at this
      cases covered with
      | succ more =>
          obtain ⟨back, rfl⟩ := Nat.exists_eq_add_of_le' behind
          simpa [occurrencesFrom] using further more (back + more) rfl (Nat.le_add_left _ _)
      | zero =>
          by_cases here : needle.isPrefixOf (c :: rest) = true
          · simp only [occurrencesFrom, here, ↓reduceIte, List.mem_cons]
            cases offset with
            | zero => exact .inl rfl
            | succ more =>
                refine .inr (further _ more rfl ?_)
                -- Two occurrences less than a length apart would overlap.
                by_contra short
                refine apart ⟨more + 1, Nat.succ_pos _, by omega, ?_⟩
                obtain ⟨tail, wholeEq⟩ := List.isPrefixOf_iff_prefix.mp here
                have start : needle.drop (more + 1) <+: (c :: rest).drop (more + 1) := by
                  rw [← wholeEq, List.drop_append_of_le_length (by omega)]
                  exact List.prefix_append _ _
                exact List.prefix_of_prefix_length_le start occurs (by simp)
          · simp only [occurrencesFrom, here, Bool.false_eq_true, ↓reduceIte]
            cases offset with
            | zero => exact absurd (List.isPrefixOf_iff_prefix.mpr occurs) here
            | succ more => exact further 0 more rfl (Nat.zero_le _)

/-! ## Comparison -/

/-- Cutting a text is scanning it, exactly if each special text that the scan takes is found where
it is looked for on its own; it always is where no special text overlaps itself. The plain spans of
the scan are free of special texts. -/
theorem SpecialIndex.split_eq_scan_iff (index : SpecialIndex ι)
    (nonempty : ∀ entry ∈ index, entry.1 ≠ []) (text : Text) :
    (index.split text = index.scan text ↔
      ∀ segment ∈ index.scan text, segment.isSpecial →
        segment.start ∈ occurrences segment.text text) ∧
    (∀ segment ∈ index.scan text, ¬ segment.isSpecial →
      ∀ entry ∈ index, ¬ entry.1 <:+: segment.text) ∧
    ((∀ entry ∈ index, ¬ entry.1.OverlapsItself) → index.split text = index.scan text) := by
  have agree : (∀ segment ∈ index.scan text, segment.isSpecial →
      segment.start ∈ occurrences segment.text text) → index.split text = index.scan text := by
    rw [split_eq_splitFrom nonempty]
    exact splitFrom_eq_scanFrom nonempty 0 text rfl
  refine ⟨⟨fun same segment member special => ?_, agree⟩, ?_, fun apart => agree ?_⟩
  · obtain ⟨id, labelled⟩ := Option.isSome_iff_exists.mp special
    rw [← same] at member
    exact (mem_of_special nonempty member labelled).2
  · exact fun segment member => not_infix_of_mem_scanFrom nonempty 0 text member
  · intro segment member special
    obtain ⟨⟨entry, listed, same⟩, filled, occurs⟩ :=
      prefix_of_mem_scanFrom text 0 text rfl member special
    have inside : segment.start < text.length := by
      by_contra outside
      rw [List.drop_eq_nil_of_le (by omega)] at occurs
      exact filled (List.prefix_nil.mp occurs)
    have found := mem_occurrencesFrom (same ▸ apart entry listed) 0 0 segment.start text inside
      (Nat.zero_le _) occurs
    rwa [Nat.zero_add] at found

/-- A text that overlaps itself does no harm where the overlap is not taken from it. -/
theorem SpecialIndex.split_eq_scan_of_overlap :
    let index : SpecialIndex Nat := [("xa".toList, 1), ("aba".toList, 2)]
    (∀ entry ∈ index, entry.1 ≠ []) ∧
      index.split "ababaxab".toList = index.scan "ababaxab".toList := by
  intro index
  have nonempty : ∀ entry ∈ index, entry.1 ≠ [] := by decide
  exact ⟨nonempty, (split_eq_scan_iff index nonempty "ababaxab".toList).1.mpr (by decide +kernel)⟩

/-- The second occurrence of a text that overlaps itself stays in a plain span, since the first one
is found and then given up for an earlier special text. -/
theorem SpecialIndex.split_hides_occurrence :
    let index : SpecialIndex Nat := [("xa".toList, 1), ("aba".toList, 2)]
    index.split "xababa".toList = [⟨"xa".toList, 0, some 1⟩, ⟨"baba".toList, 2, none⟩] ∧
      index.scan "xababa".toList =
        [⟨"xa".toList, 0, some 1⟩, ⟨['b'], 2, none⟩, ⟨"aba".toList, 3, some 2⟩] ∧
      "aba".toList <:+: "baba".toList := by
  decide +kernel

end Tessera
