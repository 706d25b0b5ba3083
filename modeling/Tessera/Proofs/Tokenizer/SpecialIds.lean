import Mathlib.Data.List.Basic
import Tessera.Proofs.Tokenizer.Uncovered
import Tessera.Random.Scripted

/-!
# Special ids and their places

Where in a text the ids of a result stand, and where special ids can stand.
-/

set_option autoImplicit false

/-! ## Where ids stand

A result tells which ids were selected and which characters were left out, but not where an id was
selected. That follows from the two: what the ids before it decode to is all that stands before it, the
characters that were left out apart. Each id of a result without marks has exactly one place.
-/

namespace Tessera

/-- Whether the id at an index of a result stands at a place of its text: the ids before it stand for
what comes before the place, and the character there is not left out. A mark has no place, so the
result is meant to be one without marks. -/
structure Tokenization.StandsAt (vocabulary : Vocabulary) (result : Tokenization)
    (index place : Nat) : Prop where
  inside : place < result.text.length
  kept : place ∉ result.skipped
  before : vocabulary.decode ((result.ids.take index).map Int.ofNat) =
    Text.without result.skipped (result.text.take place)

theorem Tokenization.StandsAt.place_unique {vocabulary : Vocabulary} {result : Tokenization}
    {index place other : Nat} (stands : result.StandsAt vocabulary index place)
    (also : result.StandsAt vocabulary index other) : place = other := by
  have asLong := congrArg List.length (stands.before.symm.trans also.before)
  rcases Nat.lt_trichotomy place other with ahead | same | ahead
  · have := Text.length_without_take_lt ahead stands.inside stands.kept
    omega
  · exact same
  · have := Text.length_without_take_lt ahead also.inside also.kept
    omega

namespace Tokenizer

variable {vocabulary : Vocabulary} {position : Nat} {text : Text} {decision : Decision}
  {first second : List Decision}

/-- What is decided first covers a front of the text, and the rest what stands behind it. -/
theorem Covers.of_append (covers : Covers vocabulary position text (first ++ second)) :
    ∃ front back, text = front ++ back ∧ Covers vocabulary position front first ∧
      Covers vocabulary (position + front.length) back second := by
  induction first generalizing position text with
  | nil => exact ⟨[], text, rfl, .done, covers⟩
  | cons decision rest ih =>
      cases covers with
      | @emit _ _ token _ isToken further =>
          obtain ⟨front, back, rfl, covers, behind⟩ := ih further
          refine ⟨token.text ++ front, back, (List.append_assoc _ _ _).symm,
            .emit isToken covers, ?_⟩
          rwa [List.length_append, ← Nat.add_assoc]
      | @preserve _ _ special _ _ held nonempty further =>
          obtain ⟨front, back, rfl, covers, behind⟩ := ih further
          refine ⟨special ++ front, back, (List.append_assoc _ _ _).symm,
            .preserve held nonempty covers, ?_⟩
          rwa [List.length_append, ← Nat.add_assoc]
      | @skip _ c _ _ further =>
          obtain ⟨front, back, rfl, covers, behind⟩ := ih further
          refine ⟨c :: front, back, rfl, .skip covers, ?_⟩
          rwa [add_length_cons]

/-- A decision that gives an id is made where the rest of the text starts, and leaves out nothing up
to the end of what it covers. -/
theorem Covers.of_gives (covers : Covers vocabulary position text (decision :: second)) {id : Nat}
    (gives : decision.id? = some id) :
    decision.position = position ∧ text ≠ [] ∧
      ∀ place ∈ (decision :: second).filterMap Decision.skipped?, position < place := by
  -- Whatever is left out stands behind a piece that is not empty.
  have behind {piece rest : Text} {decisions : List Decision} (nonempty : piece ≠ [])
      (further : Covers vocabulary (position + piece.length) rest decisions) :
      ∀ place ∈ decisions.filterMap Decision.skipped?, position < place := by
    intro place skipped
    have := further.le_of_skipped skipped
    have := List.length_pos_iff.mpr nonempty
    omega
  cases covers with
  | emit isToken further =>
      refine ⟨rfl, List.append_ne_nil_of_left_ne_nil isToken.nonempty _, ?_⟩
      simpa only [List.filterMap_cons, Decision.skipped?] using behind isToken.nonempty further
  | preserve held nonempty further =>
      refine ⟨rfl, List.append_ne_nil_of_left_ne_nil nonempty _, ?_⟩
      simpa only [List.filterMap_cons, Decision.skipped?] using behind nonempty further
  | skip further => cases gives

theorem Covers.standsAt (covers : Covers vocabulary 0 text (first ++ decision :: second)) {id : Nat}
    (gives : decision.id? = some id) :
    Tokenization.StandsAt vocabulary ⟨text, (first ++ decision :: second).filterMap Decision.id?,
        (first ++ decision :: second).filterMap Decision.skipped?⟩
      (first.filterMap Decision.id?).length decision.position := by
  obtain ⟨front, back, rfl, covers, further⟩ := covers.of_append
  obtain ⟨positionEq, nonempty, behind⟩ := further.of_gives gives
  rw [Nat.zero_add] at positionEq behind
  rw [positionEq]
  have before : ∀ place ∈ first.filterMap Decision.skipped?, place < front.length :=
    fun place skipped => Nat.zero_add front.length ▸ covers.lt_of_skipped skipped
  constructor <;> dsimp only
  · have := List.length_pos_iff.mpr nonempty
    rw [List.length_append]
    omega
  · rw [List.filterMap_append, List.mem_append]
    rintro (skipped | skipped)
    · exact Nat.lt_irrefl _ (before _ skipped)
    · exact Nat.lt_irrefl _ (behind _ skipped)
  · rw [List.filterMap_append, List.take_left, covers.decode_eq, List.take_left, Text.without]
    refine Text.withoutFrom_congr fun place inside => ?_
    rw [List.filterMap_append, List.mem_append, or_iff_left]
    intro skipped
    have := behind place skipped
    omega

/-- Each id that a walk gives stands at the place of a decision that gives it. -/
theorem Covers.exists_standsAt {decisions : List Decision}
    (covers : Covers vocabulary 0 text decisions) {index id : Nat}
    (given : (decisions.filterMap Decision.id?)[index]? = some id) :
    ∃ decision ∈ decisions, decision.id? = some id ∧
      Tokenization.StandsAt vocabulary
        ⟨text, decisions.filterMap Decision.id?, decisions.filterMap Decision.skipped?⟩
        index decision.position := by
  obtain ⟨inside, rfl⟩ := List.getElem?_eq_some_iff.mp given
  -- The decisions are divided where the list of their ids is.
  obtain ⟨front, back, rfl, frontIds, backIds⟩ := List.filterMap_eq_append_iff.mp
    (List.take_append_drop index (decisions.filterMap Decision.id?)).symm
  rw [List.drop_eq_getElem_cons inside] at backIds
  obtain ⟨silent, decision, second, rfl, givesNone, gives, -⟩ :=
    List.filterMap_eq_cons_iff.mp backIds
  refine ⟨decision, by simp, gives, ?_⟩
  have indexEq : ((front ++ silent).filterMap Decision.id?).length = index := by
    rw [List.filterMap_append, List.filterMap_eq_nil_iff.mpr givesNone, List.append_nil, frontIds,
      List.length_take]
    omega
  have divided : Covers vocabulary 0 text ((front ++ silent) ++ decision :: second) := by
    simpa using covers
  have stands := divided.standsAt gives
  rw [indexEq] at stands
  simpa using stands

end Tokenizer

/-! ## Special ids where special texts are not preserved

Where special texts are not preserved, a special id is a last resort: it is selected only at places where
no token matches under any other id. And where no special text occurs in a text at all, it makes no
difference whether they are preserved.
-/

namespace Vocabulary

/-- Whether a text starts with a token that is not empty, under an id that is not special. -/
def MatchesPlain (vocabulary : Vocabulary) (text : Text) : Prop :=
  ∃ id token, vocabulary.tokens[id]? = some token ∧ vocabulary.isSpecial id = false ∧
    token ≠ [] ∧ token <+: text

/-- Whether no text of a special id occurs in a text, the empty one apart. -/
def NothingSpecialIn (vocabulary : Vocabulary) (text : Text) : Prop :=
  ∀ id token, vocabulary.tokens[id]? = some token → vocabulary.isSpecial id = true →
    token ≠ [] → ¬ token <:+: text

theorem NothingSpecialIn.of_suffix {vocabulary : Vocabulary} {text rest : Text}
    (nothing : vocabulary.NothingSpecialIn text) (ends : rest <:+ text) :
    vocabulary.NothingSpecialIn rest :=
  fun id token held special nonempty occurs =>
    nothing id token held special nonempty (occurs.trans ends.isInfix)

end Vocabulary

namespace Tokenizer

namespace Options

def preserving (options : Options) : Options := { options with preserveSpecial := true }

/-- The options under which special texts are broken up into other tokens. -/
def breakingUp (options : Options) : Options := { options with preserveSpecial := false }

end Options

variable {tokenizer : Tokenizer} {options : Options} {text : Text}

/-! ### Candidates in play -/

section

variable {candidates : List (Match Nat)}

theorem eligible_of_plain
    (plain : ∀ found ∈ candidates, tokenizer.vocabulary.isSpecial found.id = false) :
    tokenizer.eligible options candidates = candidates := by
  have allKept : (candidates.filter fun m => !tokenizer.vocabulary.isSpecial m.id) = candidates :=
    List.filter_eq_self.mpr fun found member => by rw [plain found member, Bool.not_false]
  simp only [eligible, allKept, ite_self]

/-- A special id is in play only if all candidates have special ids. -/
theorem isSpecial_of_mem_eligible (brokenUp : options.preserveSpecial = false)
    {found : Match Nat} (member : found ∈ tokenizer.eligible options candidates)
    (special : tokenizer.vocabulary.isSpecial found.id = true) :
    ∀ other ∈ candidates, tokenizer.vocabulary.isSpecial other.id = true := by
  simp only [eligible, brokenUp, Bool.false_eq_true, ↓reduceIte] at member
  split at member
  · next nonePlain =>
      simpa using nonePlain
  · simp [special] at member

end

section

variable {σ : Type} [RandomSource σ]

theorem not_matchesPlain_of_choose (brokenUp : options.preserveSpecial = false) {source next : σ}
    {token : Match Nat} (selected : tokenizer.choose options text source = some (token, next))
    (special : tokenizer.vocabulary.isSpecial token.id = true) :
    ¬ tokenizer.vocabulary.MatchesPlain text := by
  rintro ⟨id, other, held, plain, nonempty, starts⟩
  have inPlay := Selection.mem_of_select selected
  have alsoSpecial :=
    isSpecial_of_mem_eligible brokenUp inPlay special _ (mem_matchesOf held nonempty starts)
  rw [plain] at alsoSpecial
  cases alsoSpecial

/-- A decision that gives a special id is made where no token matches under another id. -/
theorem not_matchesPlain_of_decision (brokenUp : options.preserveSpecial = false) {source : σ}
    (finished : (tokenizer.walk options text source).uncovered = none) {decision : Decision}
    (member : decision ∈ (tokenizer.walk options text source).decisions) {id : Nat}
    (gives : decision.id? = some id) (special : tokenizer.vocabulary.isSpecial id = true) :
    ¬ tokenizer.vocabulary.MatchesPlain (text.drop decision.position) := by
  obtain ⟨segment, listed, found⟩ :=
    (walk_traces finished).follows (choose_sound tokenizer options) member
  cases eq_whole_of_mem_segments brokenUp listed
  rcases found with ⟨_, kept, -⟩ | ⟨-, offset, state, atPlace, -, follows⟩
  · cases kept
  · rw [atPlace, Nat.zero_add]
    cases decision with
    | emit place token =>
        cases gives
        obtain ⟨next, selected⟩ := follows
        exact not_matchesPlain_of_choose brokenUp selected special
    | preserve => cases follows
    | skip => cases gives

/-- The ids of a walk stand at the places where they were selected. -/
theorem exists_standsAt_of_walk {source : σ}
    (finished : (tokenizer.walk options text source).uncovered = none) {index id : Nat}
    (given : (tokenizer.walk options text source).ids[index]? = some id) :
    ∃ decision ∈ (tokenizer.walk options text source).decisions, decision.id? = some id ∧
      Tokenization.StandsAt tokenizer.vocabulary
        ⟨text, (tokenizer.walk options text source).ids,
          (tokenizer.walk options text source).skipped⟩ index decision.position :=
  (walk_covers tokenizer options text source finished).exists_standsAt given

end

/-! ### Special ids as a last resort -/

theorem matchesPlain_drop {vocabulary : Vocabulary}
    (characters : ∀ c ∈ text, ∃ id, vocabulary.tokens[id]? = some [c] ∧
      vocabulary.isSpecial id = false) {place : Nat} (inside : place < text.length) :
    vocabulary.MatchesPlain (text.drop place) := by
  obtain ⟨id, held, plain⟩ := characters text[place] (List.getElem_mem inside)
  refine ⟨id, [text[place]], held, plain, List.cons_ne_nil _ _, ?_⟩
  rw [List.drop_eq_getElem_cons inside]
  exact List.prefix_append [text[place]] _

section

variable {σ : Type} [RandomSource σ]

/-- Where special texts are not preserved, a special id stands only where no token matches under an id
that is not special. If each character of the text is a token under such an id, no special id is given
at all and the ids are those of the whole text; a call for which there is a source gives a result. -/
theorem special_only_where_nothing_plain (tokenizer : Tokenizer) (options : Options) (text : Text)
    (supply : Supply σ) (desk : Desk σ) (brokenUp : options.preserveSpecial = false)
    (noBos : options.addBos = false) (noEos : options.addEos = false) :
    (∀ result after, (tokenizer.tokenize options text supply).runOn desk = (.ok result, after) →
      result.text = text ∧ ∀ index id, result.ids[index]? = some id →
        (∃! place, result.StandsAt tokenizer.vocabulary index place) ∧
        ∀ place, result.StandsAt tokenizer.vocabulary index place →
          tokenizer.vocabulary.isSpecial id = true →
            ¬ tokenizer.vocabulary.MatchesPlain (text.drop place)) ∧
    ((∀ c ∈ text, ∃ id, tokenizer.vocabulary.tokens[id]? = some [c] ∧
        tokenizer.vocabulary.isSpecial id = false) →
      (∀ result after, (tokenizer.tokenize options text supply).runOn desk = (.ok result, after) →
        (∀ id ∈ result.ids, tokenizer.vocabulary.isSpecial id = false) ∧
        tokenizer.detokenize (result.ids.map Int.ofNat) = text) ∧
      (options.isMeasurable = true →
        (supply.begin? (options.seed.map Int.ofNat) desk.source).isSome = true →
        ∃ result after,
          (tokenizer.tokenize options text supply).runOn desk = (.ok result, after))) := by
  refine ⟨fun result after returned => ?_, fun characters => ?_⟩
  · obtain ⟨source, finished, rfl⟩ := exists_walk_of_unmarked noBos noEos returned
    refine ⟨rfl, fun index id given => ?_⟩
    obtain ⟨decision, made, gives, stands⟩ := exists_standsAt_of_walk finished given
    refine ⟨⟨decision.position, stands, fun other also => also.place_unique stands⟩, ?_⟩
    intro place also special
    rw [also.place_unique stands]
    exact not_matchesPlain_of_decision brokenUp finished made gives special
  · have tokens : ∀ c ∈ text, [c] ∈ tokenizer.vocabulary.tokens := by
      intro c member
      obtain ⟨id, held, -⟩ := characters c member
      exact Array.mem_of_getElem? held
    refine ⟨fun result after returned => ⟨?_, (lossless_of_characters tokens noBos noEos
      returned).2⟩, exists_tokenization_of_characters tokens noBos noEos⟩
    obtain ⟨source, finished, rfl⟩ := exists_walk_of_unmarked noBos noEos returned
    intro id member
    obtain ⟨index, given⟩ := List.mem_iff_getElem?.mp member
    obtain ⟨decision, made, gives, stands⟩ := exists_standsAt_of_walk finished given
    rw [← Bool.not_eq_true]
    exact fun special => not_matchesPlain_of_decision brokenUp finished made gives special
      (matchesPlain_drop characters stands.inside)

end

/-- A listed special id and the mark of the end are selected behind a character that is left out, where
nothing else matches; a text of plain tokens gets none of them. -/
theorem special_only_where_nothing_plain_behind_skip :
    let tokenizer := ofVocabulary {
      tokens := #["<s>".toList, ['a'], ['?'], ['a'], "s>".toList]
      merges := none
      bos := none
      eos := some 2
      modelType := none
      specialIds := [0]
      bos_lt_size := by decide
      eos_lt_size := by decide
      specialIds_lt_size := by decide }
    let options := { Options.default with preserveSpecial := false }
    let desk : Desk Script := Desk.fresh ⟨[], [], 0, 0⟩
    let text : Text := "a!<s>?a".toList
    let result : Tokenization := ⟨text, [1, 0, 2, 1], [1]⟩
    let plain : Text := "aa".toList
    (∃ after, (tokenizer.tokenize options text .current).runOn desk = (.ok result, after)) ∧
    result.StandsAt tokenizer.vocabulary 1 2 ∧
    tokenizer.vocabulary.isSpecial 0 = true ∧
    ¬ tokenizer.vocabulary.MatchesPlain (text.drop 2) ∧
    ∃ result after, (tokenizer.tokenize options plain .current).runOn desk = (.ok result, after) ∧
      (∀ id ∈ result.ids, tokenizer.vocabulary.isSpecial id = false) ∧
      tokenizer.detokenize (result.ids.map Int.ofNat) = plain := by
  intro tokenizer options desk text result plain
  have stands : result.StandsAt tokenizer.vocabulary 1 2 := ⟨by decide, by decide, rfl⟩
  have characters : ∀ c ∈ plain, ∃ id, tokenizer.vocabulary.tokens[id]? = some [c] ∧
      tokenizer.vocabulary.isSpecial id = false := by
    intro c member
    have only : c = 'a' := by simpa [plain] using member
    subst c
    exact ⟨1, rfl, rfl⟩
  refine ⟨⟨_, rfl⟩, stands, rfl, ?_, ?_⟩
  · obtain ⟨lastResort, -⟩ :=
      special_only_where_nothing_plain tokenizer options text .current desk rfl rfl rfl
    exact ((lastResort result _ rfl).2 1 0 rfl).2 2 stands rfl
  · obtain ⟨-, complete⟩ :=
      special_only_where_nothing_plain tokenizer options plain .current desk rfl rfl rfl
    obtain ⟨whole, returns⟩ := complete characters
    obtain ⟨result, after, returned⟩ := returns rfl rfl
    exact ⟨result, after, returned, whole result after returned⟩

/-! ### Where nothing is special -/

section

variable (nothing : tokenizer.vocabulary.NothingSpecialIn text)

include nothing

theorem segments_of_nothing_special :
    tokenizer.segments options text = if text = [] then [] else [⟨text, 0, none⟩] := by
  refine SpecialIndex.split_of_absent fun entry member => ?_
  split at member
  · rw [tokenizer.special_eq] at member
    obtain ⟨registered, nonempty, held⟩ := SpecialIndex.of_mem_ofVocabulary member
    exact nothing _ _ held (List.contains_iff_mem.mpr registered) nonempty
  · cases member

theorem eligible_of_nothing_special :
    tokenizer.eligible options (tokenizer.trie.matchesOf text) = tokenizer.trie.matchesOf text := by
  refine eligible_of_plain fun found member => ?_
  obtain ⟨isToken, starts⟩ := matchesOf_isToken tokenizer member
  rw [← Bool.not_eq_true]
  exact fun special => nothing _ _ isToken.token_eq special isToken.nonempty starts.isInfix

end

/-- A walk along a text depends only on what is chosen at the ends of the text. -/
theorem along_congr {σ : Type} {choose other : Text → σ → Option (Match Nat × σ)} {text : Text}
    (same : ∀ rest, rest <:+ text → choose rest = other rest) (strict : Bool)
    (covered position : Nat) (source : σ) :
    Walk.along choose strict covered position text source =
      Walk.along other strict covered position text source := by
  induction text generalizing covered position source with
  | nil => rfl
  | cons c rest ih =>
      have further := ih fun ending ends => same ending (ends.trans (List.suffix_cons c rest))
      cases covered with
      | succ more => exact further more (position + 1) source
      | zero =>
          rw [Walk.along, Walk.along, same _ (List.suffix_refl _)]
          cases other (c :: rest) source with
          | some selected => simp only [further]
          | none => simp only [further]

variable {σ : Type} [RandomSource σ]

theorem walk_preserving_eq (nothing : tokenizer.vocabulary.NothingSpecialIn text) (source : σ) :
    tokenizer.walk options.preserving text source =
      tokenizer.walk options.breakingUp text source := by
  have sameChoice : ∀ rest, rest <:+ text →
      tokenizer.choose (σ := σ) options.preserving rest =
        tokenizer.choose options.breakingUp rest := by
    intro rest ends
    funext state
    simp only [choose, eligible_of_nothing_special (nothing.of_suffix ends)]
    rfl
  simp only [walk, segments_of_nothing_special nothing]
  split
  · rfl
  · simp only [walkSegments, along_congr sameChoice]
    rfl

/-- Whether special texts are preserved makes no difference to a text in which none occurs: the calls
come to the same end, with the same draws from the source and the same notices. -/
theorem tokenize_preserving_eq (tokenizer : Tokenizer) (options : Options) (text : Text)
    (supply : Supply σ) (desk : Desk σ) (nothing : tokenizer.vocabulary.NothingSpecialIn text) :
    (tokenizer.tokenize options.preserving text supply).runOn desk =
      (tokenizer.tokenize options.breakingUp text supply).runOn desk := by
  rcases runOn_tokenize_of_seed tokenizer options text supply desk with refused | ⟨source, told⟩
  · rw [refused options.preserving rfl, refused options.breakingUp rfl]
  · rw [told options.preserving rfl, told options.breakingUp rfl, walk_preserving_eq nothing]
    rfl

/-- A start of a special text is not special, and a special id without a text stands nowhere: the same
ids come of the same draws. -/
theorem tokenize_preserving_eq_of_cut_short :
    let tokenizer := ofVocabulary {
      tokens := #["<s>".toList, ['a'], "a<".toList, ['<'], []]
      merges := none
      bos := some 4
      eos := none
      modelType := none
      specialIds := [0]
      bos_lt_size := by decide
      eos_lt_size := by decide
      specialIds_lt_size := by decide }
    let options := Options.default
    let desk : Desk (Recorded Script) := Desk.fresh (.fresh ⟨[], [1, 0], 0, 0⟩)
    let text : Text := "a<sa".toList
    let preserved := (tokenizer.tokenize options.preserving text .current).runOn desk
    let brokenUp := (tokenizer.tokenize options.breakingUp text .current).runOn desk
    tokenizer.vocabulary.NothingSpecialIn text ∧
    preserved.1 = .ok ⟨text, [2, 1], [2]⟩ ∧
    preserved.2.source.requests = [.below 1, .below 2] ∧
    preserved = brokenUp := by
  intro tokenizer options desk text preserved brokenUp
  have nothing : tokenizer.vocabulary.NothingSpecialIn text := by
    intro id token held special nonempty
    have registered : id = 0 ∨ id = 4 := by
      simpa [Vocabulary.isSpecial, Vocabulary.registeredIds, tokenizer, ofVocabulary] using special
    rcases registered with rfl | rfl <;> cases held
    · decide
    · exact absurd rfl nonempty
  exact ⟨nothing, rfl, rfl, tokenize_preserving_eq tokenizer options text .current desk nothing⟩

end Tokenizer

end Tessera
