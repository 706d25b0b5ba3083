import Mathlib.Data.List.Basic
import Tessera.Proofs.Tokenizer.RoundTrip
import Tessera.Proofs.Tokenizer.WalkTrace
import Tessera.Proofs.Vocabulary.SpecialScan

/-!
# Candidates, and characters that are left out

Which candidates are in play at a place, and that a character is left out only where there are none.
-/

set_option autoImplicit false

/-! ## Candidates

Which candidates are in play: the shortest are those that no other one falls short of, the longest
those that no other one exceeds. Something is selected exactly if there is a candidate at all.
-/

namespace Tessera

namespace Selection

variable {σ α : Type} {length : α → Int} {candidates : List α} {candidate : α}

/-- Whether a length is that of a candidate, and stands before or at the length of each. -/
structure IsFirst (before : Int → Int → Prop) (length : α → Int) (candidates : List α)
    (first : Int) : Prop where
  attained : ∃ candidate ∈ candidates, length candidate = first
  bound : ∀ other ∈ candidates, before first (length other)

theorem isFirst_leastLength (length : α → Int) (nonempty : candidates ≠ []) :
    IsFirst (· ≤ ·) length candidates (leastLength length candidates) := by
  unfold leastLength
  cases least : (candidates.map length).min? with
  | none => exact absurd (List.map_eq_nil_iff.mp (List.min?_eq_none_iff.mp least)) nonempty
  | some value =>
      obtain ⟨attained, bound⟩ := List.min?_eq_some_iff.mp least
      exact ⟨List.mem_map.mp attained, fun other member => bound _ (List.mem_map_of_mem member)⟩

theorem isFirst_greatestLength (length : α → Int) (nonempty : candidates ≠ []) :
    IsFirst (· ≥ ·) length candidates (greatestLength length candidates) := by
  unfold greatestLength
  cases greatest : (candidates.map length).max? with
  | none => exact absurd (List.map_eq_nil_iff.mp (List.max?_eq_none_iff.mp greatest)) nonempty
  | some value =>
      obtain ⟨attained, bound⟩ := List.max?_eq_some_iff.mp greatest
      exact ⟨List.mem_map.mp attained, fun other member => bound _ (List.mem_map_of_mem member)⟩

section

variable {before : Int → Int → Prop} {first : Int}

theorem mem_ofFirst_iff [Std.Antisymm before]
    (isFirst : candidates ≠ [] → IsFirst before length candidates first) :
    candidate ∈ candidates.filter (fun other => length other = first) ↔
      candidate ∈ candidates ∧ ∀ other ∈ candidates, before (length candidate) (length other) := by
  simp only [List.mem_filter, decide_eq_true_eq]
  refine and_congr_right fun member => ?_
  obtain ⟨⟨attaining, listed, rfl⟩, bound⟩ := isFirst (List.ne_nil_of_mem member)
  constructor
  · intro same other otherMember
    exact same ▸ bound other otherMember
  · intro least
    exact Std.Antisymm.antisymm _ _ (least attaining listed) (bound candidate member)

theorem ofFirst_eq_nil_iff (isFirst : candidates ≠ [] → IsFirst before length candidates first) :
    candidates.filter (fun other => length other = first) = [] ↔ candidates = [] := by
  constructor
  · intro noneFirst
    by_contra nonempty
    obtain ⟨attaining, listed, attained⟩ := (isFirst nonempty).attained
    exact List.filter_eq_nil_iff.mp noneFirst attaining listed (decide_eq_true attained)
  · rintro rfl
    rfl

end

theorem mem_shortestOf_iff :
    candidate ∈ shortestOf length candidates ↔
      candidate ∈ candidates ∧ ∀ other ∈ candidates, length candidate ≤ length other :=
  mem_ofFirst_iff (isFirst_leastLength length)

theorem mem_longestOf_iff :
    candidate ∈ longestOf length candidates ↔
      candidate ∈ candidates ∧ ∀ other ∈ candidates, length other ≤ length candidate :=
  mem_ofFirst_iff (isFirst_greatestLength length)

theorem shortestOf_eq_nil_iff : shortestOf length candidates = [] ↔ candidates = [] :=
  ofFirst_eq_nil_iff (isFirst_leastLength length)

theorem longestOf_eq_nil_iff : longestOf length candidates = [] ↔ candidates = [] :=
  ofFirst_eq_nil_iff (isFirst_greatestLength length)

variable [RandomSource σ]

theorem uniform_eq_none_iff {source : σ} : uniform candidates source = none ↔ candidates = [] := by
  cases candidates <;> simp [uniform]

theorem weighted_eq_none_iff {weight : α → Float} {source : σ} :
    weighted weight candidates source = none ↔ candidates = [] := by
  cases candidates <;> simp [weighted]

theorem select_eq_none_iff {strategy : Strategy} {ideal : Float} {source : σ} :
    select strategy ideal length candidates source = none ↔ candidates = [] := by
  cases strategy with
  | random => exact uniform_eq_none_iff
  | shortest => exact uniform_eq_none_iff.trans shortestOf_eq_nil_iff
  | longest => exact uniform_eq_none_iff.trans longestOf_eq_nil_iff
  | idealLength => exact weighted_eq_none_iff

end Selection

/-! ### Candidates at a place of a text -/

/-- Whether a text starts with a token that is not empty. -/
def Vocabulary.Matches (vocabulary : Vocabulary) (text : Text) : Prop :=
  ∃ token ∈ vocabulary.tokens, token ≠ [] ∧ token <+: text

namespace Tokenizer

theorem mem_matchesOf {tokenizer : Tokenizer} {id : Nat} {token text : Text}
    (held : tokenizer.vocabulary.tokens[id]? = some token) (nonempty : token ≠ [])
    (starts : token <+: text) :
    (⟨id, token.length, token⟩ : Match Nat) ∈ tokenizer.trie.matchesOf text := by
  rw [tokenizer.trie_eq, Trie.mem_matchesOf_ofTokens_iff]
  exact ⟨by simpa using held, nonempty, starts, rfl⟩

theorem matchesOf_eq_nil_iff {tokenizer : Tokenizer} {text : Text} :
    tokenizer.trie.matchesOf text = [] ↔ ¬ tokenizer.vocabulary.Matches text := by
  rw [List.eq_nil_iff_forall_not_mem]
  constructor
  · rintro noneMatches ⟨token, member, nonempty, starts⟩
    obtain ⟨id, held⟩ := Array.mem_iff_getElem?.mp member
    exact noneMatches _ (mem_matchesOf held nonempty starts)
  · intro unmatched found member
    obtain ⟨isToken, starts⟩ := matchesOf_isToken tokenizer member
    exact unmatched ⟨found.text, Array.mem_of_getElem? isToken.token_eq, isToken.nonempty, starts⟩

theorem eligible_eq_nil_iff {tokenizer : Tokenizer} {options : Options}
    {candidates : List (Match Nat)} :
    tokenizer.eligible options candidates = [] ↔ candidates = [] := by
  simp only [eligible]
  split
  · exact Iff.rfl
  · split
    · exact Iff.rfl
    · next somePlain =>
        have nonempty : candidates ≠ [] := by
          rintro rfl
          simp at somePlain
        exact iff_of_false (by simpa using somePlain) nonempty

theorem choose_eq_none_iff {σ : Type} [RandomSource σ] {tokenizer : Tokenizer} {options : Options}
    {text : Text} {source : σ} :
    tokenizer.choose options text source = none ↔ ¬ tokenizer.vocabulary.Matches text :=
  Selection.select_eq_none_iff.trans (eligible_eq_nil_iff.trans matchesOf_eq_nil_iff)

end Tokenizer

/-! ## Characters that are left out

A character is left out only where no token starts the rest of its segment. So if each character is a
token, nothing is left out, and a call gives ids that decode to the whole text.
-/

/-! ### Where segments stand -/

/-- A segment bears what stands at its place in the text. -/
theorem Tiles.prefix_of_mem {ι : Type} {start : Nat} {text : Text} {segments : List (Segment ι)}
    (tiles : Tiles start text segments) {segment : Segment ι} (member : segment ∈ segments) :
    start ≤ segment.start ∧ segment.text <+: text.drop (segment.start - start) := by
  induction tiles with
  | nil => cases member
  | @cons start text rest special segments _ ih =>
      rcases List.mem_cons.mp member with rfl | member
      · simp
      · obtain ⟨behind, starts⟩ := ih member
        refine ⟨by omega, ?_⟩
        have shifted : segment.start - start =
            text.length + (segment.start - (start + text.length)) := by omega
        rwa [shifted, List.drop_length_add_append]

/-- A text in which no special text occurs is not cut. -/
theorem SpecialIndex.split_of_absent {ι : Type} {index : SpecialIndex ι} {text : Text}
    (absent : ∀ entry ∈ index, ¬ entry.1 <:+: text) :
    index.split text = if text = [] then [] else [⟨text, 0, none⟩] := by
  have nothing : index.occurrencesIn text = [] := by
    rw [List.eq_nil_iff_forall_not_mem]
    intro found member
    have occurs := (starts_of_mem_occurrencesIn member).2.isInfix.trans
      (List.drop_suffix _ _).isInfix
    exact absent _ (mem_of_mem_occurrencesIn member) occurs
  rw [split, nothing]
  by_cases empty : text = []
  · rw [empty]
    rfl
  · have positive : 0 < text.length := List.length_pos_iff.mpr empty
    simp [empty, Occurrence.inOrder, cutFrom, plainBetween, positive, Text.slice]

theorem SpecialIndex.split_nil {ι : Type} (text : Text) :
    SpecialIndex.split ([] : SpecialIndex ι) text = if text = [] then [] else [⟨text, 0, none⟩] :=
  split_of_absent (by simp)

namespace Tokenizer

variable {σ : Type}

/-! ### Places that are left out -/

theorem Covers.lt_of_skipped {vocabulary : Vocabulary} {position offset : Nat} {text : Text}
    {decisions : List Decision} (covers : Covers vocabulary position text decisions)
    (skipped : offset ∈ decisions.filterMap Decision.skipped?) :
    offset < position + text.length := by
  induction covers with
  | done => simp at skipped
  | emit _ _ ih =>
      have := ih skipped
      simp only [List.length_append]
      omega
  | preserve _ _ _ ih =>
      have := ih skipped
      simp only [List.length_append]
      omega
  | skip _ ih =>
      simp only [List.filterMap_cons, Decision.skipped?, List.mem_cons] at skipped
      simp only [List.length_cons]
      rcases skipped with rfl | skipped
      · omega
      · have := ih skipped
        omega

theorem Covers.skipped_increasing {vocabulary : Vocabulary} {position : Nat} {text : Text}
    {decisions : List Decision} (covers : Covers vocabulary position text decisions) :
    (decisions.filterMap Decision.skipped?).Pairwise (· < ·) := by
  induction covers with
  | done => exact .nil
  | emit _ _ ih => exact ih
  | preserve _ _ _ ih => exact ih
  | skip further ih => exact .cons (fun _ skipped => further.le_of_skipped skipped) ih

/-- A character that is left out stands in a plain segment, where nothing could be selected. -/
theorem Traces.skipped {choose : Text → σ → Option (Match Nat × σ)} {vocabulary : Vocabulary}
    (sound : SoundChoice vocabulary choose) {segments : List (Segment Nat)} {source last : σ}
    {decisions : List Decision} (traces : Traces choose segments source decisions last) {place : Nat}
    (skipped : place ∈ decisions.filterMap Decision.skipped?) :
    ∃ segment ∈ segments, segment.special = none ∧ ∃ offset state,
      place = segment.start + offset ∧ offset < segment.text.length ∧
        choose (segment.text.drop offset) state = none := by
  obtain ⟨decision, member, leavesOut⟩ := List.mem_filterMap.mp skipped
  obtain ⟨segment, listed, ⟨id, -, rfl⟩ | ⟨plain, offset, state, atPlace, inside, follows⟩⟩ :=
    traces.follows sound member
  · cases leavesOut
  · cases decision with
    | emit => cases leavesOut
    | preserve => cases leavesOut
    | skip position c =>
        cases leavesOut
        exact ⟨segment, listed, plain, offset, state, atPlace, inside, follows⟩

/-! ### Segments that leave a place uncovered -/

/-- A place of a text that belongs to a plain segment, where no token starts what is left of the
segment. Where special texts are not preserved, that segment is the whole text. -/
structure UncoveredIn (tokenizer : Tokenizer) (options : Options) (text : Text) (place : Nat)
    (segment : Segment Nat) : Prop where
  member : segment ∈ tokenizer.segments options text
  plain : segment.special = none
  stands : segment.text <+: text.drop segment.start
  whole : options.preserveSpecial = false → segment = ⟨text, 0, none⟩
  start_le : segment.start ≤ place
  lt_stop : place < segment.stop
  unmatched : ¬ tokenizer.vocabulary.Matches (segment.text.drop (place - segment.start))

theorem prefix_of_mem_segments {tokenizer : Tokenizer} {options : Options} {text : Text}
    {segment : Segment Nat} (member : segment ∈ tokenizer.segments options text) :
    segment.text <+: text.drop segment.start :=
  ((segments_tiles tokenizer options text).1.prefix_of_mem member).2

theorem eq_whole_of_mem_segments {tokenizer : Tokenizer} {options : Options} {text : Text}
    {segment : Segment Nat} (brokenUp : options.preserveSpecial = false)
    (member : segment ∈ tokenizer.segments options text) : segment = ⟨text, 0, none⟩ := by
  simp only [segments, brokenUp, Bool.false_eq_true, ↓reduceIte, SpecialIndex.split_nil] at member
  split at member
  · cases member
  · exact List.mem_singleton.mp member

theorem uncoveredIn_of_choose [RandomSource σ] {tokenizer : Tokenizer} {options : Options}
    {text : Text} {segment : Segment Nat} {offset : Nat} {state : σ}
    (member : segment ∈ tokenizer.segments options text) (plain : segment.special = none)
    (inside : offset < segment.text.length)
    (absent : tokenizer.choose options (segment.text.drop offset) state = none) :
    tokenizer.UncoveredIn options text (segment.start + offset) segment where
  member := member
  plain := plain
  stands := prefix_of_mem_segments member
  whole := fun brokenUp => eq_whole_of_mem_segments brokenUp member
  start_le := Nat.le_add_right _ _
  lt_stop := Nat.add_lt_add_left inside _
  unmatched := by
    rw [Nat.add_sub_cancel_left]
    exact choose_eq_none_iff.mp absent

theorem not_uncoveredIn_of_characters {tokenizer : Tokenizer} {options : Options} {text : Text}
    (characters : ∀ c ∈ text, [c] ∈ tokenizer.vocabulary.tokens) (place : Nat)
    (segment : Segment Nat) : ¬ tokenizer.UncoveredIn options text place segment := by
  intro uncovered
  obtain ⟨offset, rfl⟩ := Nat.exists_eq_add_of_le uncovered.start_le
  have inside : offset < segment.text.length := by
    have := uncovered.lt_stop
    unfold Segment.stop at this
    omega
  have listed : segment.text[offset] ∈ text :=
    List.mem_of_mem_drop (uncovered.stands.subset (List.getElem_mem inside))
  refine uncovered.unmatched ⟨[segment.text[offset]], characters _ listed, List.cons_ne_nil _ _, ?_⟩
  rw [Nat.add_sub_cancel_left, List.drop_eq_getElem_cons inside]
  exact List.prefix_append [segment.text[offset]] _

variable [RandomSource σ]

theorem walk_skipped {tokenizer : Tokenizer} {options : Options} {text : Text} {source : σ}
    (finished : (tokenizer.walk options text source).uncovered = none) {place : Nat}
    (skipped : place ∈ (tokenizer.walk options text source).skipped) :
    ∃ segment, tokenizer.UncoveredIn options text place segment := by
  obtain ⟨segment, member, plain, offset, state, rfl, inside, absent⟩ :=
    (walk_traces finished).skipped (choose_sound tokenizer options) skipped
  exact ⟨segment, uncoveredIn_of_choose member plain inside absent⟩

theorem walk_finished {tokenizer : Tokenizer} {options : Options} {text : Text} (source : σ)
    (covered : ∀ place segment, ¬ tokenizer.UncoveredIn options text place segment) :
    (tokenizer.walk options text source).uncovered = none := by
  cases stopped : (tokenizer.walk options text source).uncovered with
  | none => rfl
  | some place =>
      obtain ⟨-, segment, member, plain, offset, state, inside, absent⟩ :=
        walkSegments_uncovered stopped
      exact absurd (uncoveredIn_of_choose member plain inside absent) (covered _ _)

theorem walk_skipped_eq_nil {tokenizer : Tokenizer} {options : Options} {text : Text} {source : σ}
    (finished : (tokenizer.walk options text source).uncovered = none)
    (covered : ∀ place segment, ¬ tokenizer.UncoveredIn options text place segment) :
    (tokenizer.walk options text source).skipped = [] := by
  rw [List.eq_nil_iff_forall_not_mem]
  intro place skipped
  obtain ⟨segment, uncovered⟩ := walk_skipped finished skipped
  exact covered place segment uncovered

/-! ### Calls -/

section

variable {tokenizer : Tokenizer} {options : Options} {text : Text} {supply : Supply σ}
  {desk : Desk σ} (characters : ∀ c ∈ text, [c] ∈ tokenizer.vocabulary.tokens)
  (noBos : options.addBos = false) (noEos : options.addEos = false)

include characters noBos noEos

theorem lossless_of_characters {result : Tokenization} {after : Desk σ}
    (returned : (tokenizer.tokenize options text supply).runOn desk = (.ok result, after)) :
    result.skipped = [] ∧ tokenizer.detokenize (result.ids.map Int.ofNat) = text := by
  obtain ⟨source, finished, rfl⟩ := exists_walk_of_unmarked noBos noEos returned
  have lossless := walk_skipped_eq_nil finished (not_uncoveredIn_of_characters characters)
  exact ⟨lossless, (walk_covers tokenizer options text source finished).decode_eq_self lossless⟩

theorem exists_tokenization_of_characters (measurable : options.isMeasurable = true)
    (supplied : (supply.begin? (options.seed.map Int.ofNat) desk.source).isSome = true) :
    ∃ result after, (tokenizer.tokenize options text supply).runOn desk = (.ok result, after) := by
  obtain ⟨source, begun⟩ := Option.isSome_iff_exists.mp supplied
  obtain ⟨notices, given⟩ := runOn_tokenize measurable begun tokenizer text
  have covered : ∀ place segment, ¬ tokenizer.UncoveredIn options text place segment :=
    not_uncoveredIn_of_characters characters
  rw [outcome_of_unmarked noBos noEos (walk_finished source covered)] at given
  exact ⟨_, _, given⟩

end

/-- Characters are left out in increasing order, and only at uncovered places. If each character of
the text is a token, nothing is left out, so that without marks the ids are those of the whole text,
and a call for which there is a source gives a result. -/
theorem skipped_of_tokenize (tokenizer : Tokenizer) (options : Options) (text : Text)
    (supply : Supply σ) (desk : Desk σ) :
    (∀ result after, (tokenizer.tokenize options text supply).runOn desk = (.ok result, after) →
      result.skipped.Pairwise (· < ·) ∧
      ∀ place ∈ result.skipped, place < text.length ∧
        ∃ segment, tokenizer.UncoveredIn options text place segment) ∧
    ((∀ c ∈ text, [c] ∈ tokenizer.vocabulary.tokens) →
      (∀ result after, (tokenizer.tokenize options text supply).runOn desk = (.ok result, after) →
        result.skipped = [] ∧
        (options.addBos = false → options.addEos = false →
          tokenizer.detokenize (result.ids.map Int.ofNat) = text)) ∧
      (options.isMeasurable = true → options.addBos = false → options.addEos = false →
        (supply.begin? (options.seed.map Int.ofNat) desk.source).isSome = true →
        ∃ result after,
          (tokenizer.tokenize options text supply).runOn desk = (.ok result, after))) := by
  refine ⟨fun result after returned => ?_, fun characters =>
    ⟨fun result after returned => ?_, fun measurable noBos noEos supplied =>
      exists_tokenization_of_characters characters noBos noEos measurable supplied⟩⟩
  · obtain ⟨source, finished, _, _, _, _, rfl⟩ := exists_walk_of_tokenize returned
    have covers := walk_covers tokenizer options text source finished
    refine ⟨covers.skipped_increasing, fun place skipped => ⟨?_, walk_skipped finished skipped⟩⟩
    exact Nat.zero_add text.length ▸ covers.lt_of_skipped skipped
  · refine ⟨?_, fun noBos noEos => (lossless_of_characters characters noBos noEos returned).2⟩
    obtain ⟨source, finished, _, _, _, _, rfl⟩ := exists_walk_of_tokenize returned
    exact walk_skipped_eq_nil finished (not_uncoveredIn_of_characters characters)

/-- A token that would match is cut short by a special text, so its first character is left out; a
text made of tokens of one character is given back. -/
theorem skipped_of_tokenize_cut_short :
    let tokenizer := ofVocabulary {
      tokens := #["<s>".toList, ['a'], ['a', 'b'], ['?', '<'], ['b']]
      merges := none
      bos := none
      eos := none
      modelType := none
      specialIds := [0]
      bos_lt_size := by decide
      eos_lt_size := by decide
      specialIds_lt_size := by decide }
    let desk : Desk Script := Desk.fresh ⟨[], [1, 0], 0, 0⟩
    let text : Text := "ab?<s>b".toList
    let covered : Text := "aba".toList
    (∃ after, (tokenizer.tokenize .default text .current).runOn desk =
        (.ok ⟨text, [2, 0, 4], [2]⟩, after) ∧
      ∃ segment, tokenizer.UncoveredIn .default text 2 segment) ∧
    (∀ c ∈ covered, [c] ∈ tokenizer.vocabulary.tokens) ∧
    ∃ result after, (tokenizer.tokenize .default covered .current).runOn desk =
        (.ok result, after) ∧
      result.skipped = [] ∧ tokenizer.detokenize (result.ids.map Int.ofNat) = covered := by
  intro tokenizer desk text covered
  have characters : ∀ c ∈ covered, [c] ∈ tokenizer.vocabulary.tokens := by
    simp [covered, tokenizer, ofVocabulary]
  refine ⟨⟨_, rfl, ?_⟩, characters, ?_⟩
  · obtain ⟨sound, -⟩ := skipped_of_tokenize tokenizer .default text .current desk
    exact ((sound _ _ rfl).2 2 (.head _)).2
  · obtain ⟨-, complete⟩ := skipped_of_tokenize tokenizer .default covered .current desk
    obtain ⟨whole, returns⟩ := complete characters
    obtain ⟨result, after, returned⟩ := returns rfl rfl rfl rfl
    obtain ⟨lossless, decoded⟩ := whole result after returned
    exact ⟨result, after, returned, lossless, decoded rfl rfl⟩

end Tokenizer

end Tessera
