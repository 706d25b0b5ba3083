import Tessera.Proofs.Vocabulary.SplitProperties
import Tessera.Proofs.Vocabulary.TrieProperties
import Tessera.Tokenizer.Walk

/-!
# Traces

The decisions of a walk, token by token, through a text and through its segments.
-/

set_option autoImplicit false

/-! ## Traces of walks

A walk counts down the characters that the last token covers. Its trace takes whole tokens off the
text instead. Every trace under a sound choice covers its text: each character belongs to one token
or is left out.
-/

namespace Tessera

/-- A match that bears a token of a vocabulary under its id. -/
structure Match.IsToken (vocabulary : Vocabulary) (found : Match Nat) : Prop where
  token_eq : vocabulary.tokens[found.id]? = some found.text
  nonempty : found.text ≠ []
  length_eq : found.length = found.text.length

namespace Tokenizer

variable {σ : Type}

/-! ### Choices -/

/-- A choice that selects only tokens which the text starts with. -/
def SoundChoice (vocabulary : Vocabulary) (choose : Text → σ → Option (Match Nat × σ)) : Prop :=
  ∀ text source token next, choose text source = some (token, next) →
    token.IsToken vocabulary ∧ token.text <+: text

theorem matchesOf_isToken (tokenizer : Tokenizer) {text : Text} {found : Match Nat}
    (member : found ∈ tokenizer.trie.matchesOf text) :
    found.IsToken tokenizer.vocabulary ∧ found.text <+: text := by
  rw [tokenizer.trie_eq, Trie.mem_matchesOf_ofTokens_iff] at member
  obtain ⟨held, nonempty, starts, measured⟩ := member
  exact ⟨⟨by simpa using held, nonempty, measured⟩, starts⟩

theorem mem_of_mem_eligible {tokenizer : Tokenizer} {options : Options}
    {candidates : List (Match Nat)} {found : Match Nat}
    (member : found ∈ tokenizer.eligible options candidates) : found ∈ candidates := by
  unfold eligible at member
  split at member
  · exact member
  · dsimp only at member
    split at member
    · exact member
    · exact List.mem_of_mem_filter member

end Tokenizer

namespace Selection

variable {σ α : Type} [RandomSource σ]

theorem mem_of_uniform {elements : List α} {source next : σ} {element : α}
    (selected : uniform elements source = some (element, next)) : element ∈ elements := by
  cases elements with
  | nil => simp [uniform] at selected
  | cons first rest =>
      simp only [uniform, Option.some.injEq, Prod.mk.injEq] at selected
      rw [← selected.1]
      exact List.get_mem _ _

theorem mem_of_weighted {weight : α → Float} {elements : List α} {source next : σ} {element : α}
    (selected : weighted weight elements source = some (element, next)) : element ∈ elements := by
  cases elements with
  | nil => simp [weighted] at selected
  | cons first rest =>
      simp only [weighted, Option.some.injEq, Prod.mk.injEq] at selected
      rw [← selected.1]
      cases placed : (first :: rest)[(Weighted.index? ((first :: rest).map weight)
          (RandomSource.fraction source).1).getD 0]? with
      | none => exact .head _
      | some found => exact List.mem_of_getElem? placed

theorem mem_of_select {strategy : Strategy} {ideal : Float} {length : α → Int}
    {candidates : List α} {source next : σ} {element : α}
    (selected : select strategy ideal length candidates source = some (element, next)) :
    element ∈ candidates := by
  cases strategy with
  | random => exact mem_of_uniform selected
  | shortest => exact List.mem_of_mem_filter (mem_of_uniform selected)
  | longest => exact List.mem_of_mem_filter (mem_of_uniform selected)
  | idealLength => exact mem_of_weighted selected

end Selection

namespace Tokenizer

variable {σ : Type}

theorem choose_sound [RandomSource σ] (tokenizer : Tokenizer) (options : Options) :
    SoundChoice tokenizer.vocabulary (tokenizer.choose (σ := σ) options) := by
  intro text source token next selected
  exact matchesOf_isToken tokenizer (mem_of_mem_eligible (Selection.mem_of_select selected))

/-! ### Traces -/

/-- What is done from an offset on along a text, from one state of the source to another. A
selected token is taken off the text as a whole. -/
inductive Trace (choose : Text → σ → Option (Match Nat × σ)) :
    Nat → Text → σ → List Decision → σ → Prop where
  | done {position : Nat} {source : σ} : Trace choose position [] source [] source
  | emit {position : Nat} {rest : Text} {source next last : σ} {token : Match Nat}
      {decisions : List Decision} :
      choose (token.text ++ rest) source = some (token, next) →
      Trace choose (position + token.text.length) rest next decisions last →
      Trace choose position (token.text ++ rest) source (.emit position token :: decisions) last
  | skip {position : Nat} {c : Char} {rest : Text} {source last : σ}
      {decisions : List Decision} :
      choose (c :: rest) source = none →
      Trace choose (position + 1) rest source decisions last →
      Trace choose position (c :: rest) source (.skip position c :: decisions) last

theorem Trace.of_nil {vocabulary : Vocabulary} {choose : Text → σ → Option (Match Nat × σ)}
    (sound : SoundChoice vocabulary choose) {position : Nat} {source last : σ}
    {decisions : List Decision} (trace : Trace choose position [] source decisions last) :
    decisions = [] ∧ last = source := by
  generalize whole : ([] : Text) = text at trace
  cases trace with
  | done => exact ⟨rfl, rfl⟩
  | emit selected _ =>
      have nonempty := (sound _ _ _ _ selected).1.nonempty
      exact absurd (List.append_eq_nil_iff.mp whole.symm).1 nonempty
  | skip _ _ => cases whole

theorem along_covered (choose : Text → σ → Option (Match Nat × σ)) (strict : Bool) (position : Nat)
    (front text : Text) (source : σ) :
    Walk.along choose strict front.length position (front ++ text) source =
      Walk.along choose strict 0 (position + front.length) text source := by
  induction front generalizing position with
  | nil => rfl
  | cons c rest ih =>
      rw [add_length_cons, List.cons_append, List.length_cons, Walk.along, ih]

theorem along_selected {vocabulary : Vocabulary} {choose : Text → σ → Option (Match Nat × σ)}
    {token : Match Nat} (isToken : token.IsToken vocabulary) {after : Text} {source next : σ}
    (selected : choose (token.text ++ after) source = some (token, next)) (strict : Bool)
    (position : Nat) :
    Walk.along choose strict 0 position (token.text ++ after) source =
      (Walk.along choose strict 0 (position + token.text.length) after next).after
        (.emit position token) := by
  have lengthEq := isToken.length_eq
  cases characters : token.text with
  | nil => exact absurd characters isToken.nonempty
  | cons c rest =>
      rw [characters] at selected lengthEq
      rw [add_length_cons]
      rw [List.cons_append] at selected ⊢
      simp only [Walk.along, selected, lengthEq, List.length_cons, Nat.add_sub_cancel,
        along_covered]

theorem along_trace {vocabulary : Vocabulary} {choose : Text → σ → Option (Match Nat × σ)}
    (sound : SoundChoice vocabulary choose) (strict : Bool) (position : Nat) (text : Text)
    (source : σ)
    (finished : (Walk.along choose strict 0 position text source).uncovered = none) :
    Trace choose position text source
      (Walk.along choose strict 0 position text source).decisions
      (Walk.along choose strict 0 position text source).source := by
  -- A token is passed over as a whole, so the induction is on the length of what is left.
  induction measure : text.length using Nat.strongRecOn generalizing position text source with
  | ind length ih =>
      subst measure
      cases text with
      | nil => exact .done
      | cons c rest =>
          cases selected : choose (c :: rest) source with
          | none =>
              simp only [Walk.along, selected] at finished ⊢
              cases strict with
              | true => simp at finished
              | false =>
                  exact .skip selected
                    (ih rest.length (by simp) (position + 1) rest source finished rfl)
          | some result =>
              obtain ⟨token, next⟩ := result
              obtain ⟨isToken, after, wholeEq⟩ := sound _ _ _ _ selected
              have shorter : after.length < (c :: rest).length := by
                have positive : 0 < token.text.length := List.length_pos_iff.mpr isToken.nonempty
                rw [← wholeEq, List.length_append]
                omega
              rw [← wholeEq] at selected finished ⊢
              rw [along_selected isToken selected] at finished ⊢
              exact .emit selected (ih after.length shorter _ after next finished rfl)

end Tokenizer

end Tessera

/-! ## Traces through segments

A walk through the segments of a text passes over the special ones and leaves a trace in each of the
others. A walk that stops short has come to a place where nothing could be selected.
-/

namespace Tessera.Tokenizer

variable {σ : Type}

/-- What is done along segments, from one state of the source to another. -/
inductive Traces (choose : Text → σ → Option (Match Nat × σ)) :
    List (Segment Nat) → σ → List Decision → σ → Prop where
  | done {source : σ} : Traces choose [] source [] source
  | special {segment : Segment Nat} {id : Nat} {rest : List (Segment Nat)} {source last : σ}
      {decisions : List Decision} :
      segment.special = some id → Traces choose rest source decisions last →
      Traces choose (segment :: rest) source (.preserve segment.start id :: decisions) last
  | plain {segment : Segment Nat} {rest : List (Segment Nat)} {source next last : σ}
      {first further : List Decision} :
      segment.special = none → Trace choose segment.start segment.text source first next →
      Traces choose rest next further last →
      Traces choose (segment :: rest) source (first ++ further) last

theorem walkSegments_traces [RandomSource σ] (tokenizer : Tokenizer) (options : Options)
    (segments : List (Segment Nat)) (source : σ)
    (finished : (tokenizer.walkSegments options segments source).uncovered = none) :
    Traces (tokenizer.choose options) segments source
      (tokenizer.walkSegments options segments source).decisions
      (tokenizer.walkSegments options segments source).source := by
  induction segments generalizing source with
  | nil => exact .done
  | cons segment rest ih =>
      cases special : segment.special with
      | some id =>
          simp only [walkSegments, special] at finished ⊢
          exact .special special (ih source finished)
      | none =>
          simp only [walkSegments, special] at finished ⊢
          cases stopped : (Walk.along (tokenizer.choose options) options.strict 0 segment.start
              segment.text source).uncovered with
          | some place => simp [stopped] at finished
          | none =>
              simp only [stopped] at finished ⊢
              have sound := choose_sound (σ := σ) tokenizer options
              exact .plain special (along_trace sound options.strict _ _ source stopped)
                (ih _ finished)

theorem walk_traces [RandomSource σ] {tokenizer : Tokenizer} {options : Options} {text : Text}
    {source : σ} (finished : (tokenizer.walk options text source).uncovered = none) :
    Traces (tokenizer.choose options) (tokenizer.segments options text) source
      (tokenizer.walk options text source).decisions
      (tokenizer.walk options text source).source :=
  walkSegments_traces tokenizer options _ source finished

/-! ### What decisions follow -/

def Decision.position : Decision → Nat
  | .emit position _ => position
  | .preserve position _ => position
  | .skip position _ => position

/-- Whether a decision is the one to make on what a choice gives. Special texts are not chosen. -/
def Decision.Follows : Decision → Option (Match Nat × σ) → Prop
  | .emit _ token, choice => ∃ next, choice = some (token, next)
  | .preserve _ _, _ => False
  | .skip _ _, choice => choice = none

theorem Trace.follows {choose : Text → σ → Option (Match Nat × σ)} {vocabulary : Vocabulary}
    (sound : SoundChoice vocabulary choose) {position : Nat} {text : Text} {source last : σ}
    {decisions : List Decision} (trace : Trace choose position text source decisions last)
    {decision : Decision} (member : decision ∈ decisions) :
    ∃ offset state, decision.position = position + offset ∧ offset < text.length ∧
      decision.Follows (choose (text.drop offset) state) := by
  induction trace with
  | done => cases member
  | @emit position rest source next _ token _ selected _ ih =>
      rcases List.mem_cons.mp member with rfl | member
      · have nonempty := List.length_pos_iff.mpr (sound _ _ _ _ selected).1.nonempty
        exact ⟨0, source, rfl, by rw [List.length_append]; omega, next, selected⟩
      · obtain ⟨offset, state, place, inside, follows⟩ := ih member
        refine ⟨token.text.length + offset, state, by omega, by simpa using inside, ?_⟩
        rwa [List.drop_length_add_append]
  | @skip position c rest source _ _ absent _ ih =>
      rcases List.mem_cons.mp member with rfl | member
      · exact ⟨0, source, rfl, by simp, absent⟩
      · obtain ⟨offset, state, place, inside, follows⟩ := ih member
        exact ⟨offset + 1, state, by omega, by simpa using inside, by simpa using follows⟩

/-- A decision keeps a special segment, or follows a choice at its place in a plain one. -/
theorem Traces.follows {choose : Text → σ → Option (Match Nat × σ)} {vocabulary : Vocabulary}
    (sound : SoundChoice vocabulary choose) {segments : List (Segment Nat)} {source last : σ}
    {decisions : List Decision} (traces : Traces choose segments source decisions last)
    {decision : Decision} (member : decision ∈ decisions) :
    ∃ segment ∈ segments,
      (∃ id, segment.special = some id ∧ decision = .preserve segment.start id) ∨
      segment.special = none ∧ ∃ offset state, decision.position = segment.start + offset ∧
        offset < segment.text.length ∧ decision.Follows (choose (segment.text.drop offset) state) := by
  induction traces with
  | done => cases member
  | @special segment id _ _ _ _ special _ ih =>
      rcases List.mem_cons.mp member with rfl | member
      · exact ⟨segment, .head _, .inl ⟨id, special, rfl⟩⟩
      · obtain ⟨other, listed, found⟩ := ih member
        exact ⟨other, .tail _ listed, found⟩
  | @plain segment _ _ _ _ _ _ special trace _ ih =>
      rcases List.mem_append.mp member with member | member
      · exact ⟨segment, .head _, .inr ⟨special, trace.follows sound member⟩⟩
      · obtain ⟨other, listed, found⟩ := ih member
        exact ⟨other, .tail _ listed, found⟩

/-- A walk does not look at the seed, nor at the marks that are asked for. -/
theorem walk_with [RandomSource σ] (tokenizer : Tokenizer) (options : Options) (seed : Option Nat)
    (addBos addEos : Bool) (text : Text) (source : σ) :
    tokenizer.walk { options with seed := seed, addBos := addBos, addEos := addEos } text source =
      tokenizer.walk options text source := by
  have sameChoice : tokenizer.choose (σ := σ)
      { options with seed := seed, addBos := addBos, addEos := addEos } =
      tokenizer.choose options := rfl
  have sameWalk (segments : List (Segment Nat)) (source : σ) :
      tokenizer.walkSegments { options with seed := seed, addBos := addBos, addEos := addEos }
        segments source = tokenizer.walkSegments options segments source := by
    induction segments generalizing source with
    | nil => rfl
    | cons segment rest ih => simp only [walkSegments, sameChoice, ih]
  exact sameWalk _ source

/-! ### Walks with a given trace -/

/-- Whether a walk goes on where nothing can be selected, if it comes to such a place at all. -/
def Lenient (options : Options) (decisions : List Decision) : Prop :=
  options.strict = true → decisions.filterMap Decision.skipped? = []

theorem Trace.along_eq {vocabulary : Vocabulary} {choose : Text → σ → Option (Match Nat × σ)}
    (sound : SoundChoice vocabulary choose) {options : Options} {position : Nat} {text : Text}
    {source last : σ} {decisions : List Decision}
    (trace : Trace choose position text source decisions last)
    (lenient : Lenient options decisions) :
    Walk.along choose options.strict 0 position text source = ⟨decisions, none, last⟩ := by
  induction trace with
  | done => rfl
  | emit selected _ ih =>
      rw [along_selected (sound _ _ _ _ selected).1 selected, ih lenient, Walk.after]
  | skip absent _ ih =>
      have tolerated : options.strict = false := by
        simpa [Lenient, Decision.skipped?] using lenient
      rw [Walk.along, absent]
      simp only [tolerated, Bool.false_eq_true, ↓reduceIte] at ih ⊢
      rw [ih (by simp [Lenient, tolerated]), Walk.after]

theorem Traces.walkSegments_eq [RandomSource σ] {tokenizer : Tokenizer} {options : Options}
    {segments : List (Segment Nat)} {source last : σ} {decisions : List Decision}
    (traces : Traces (tokenizer.choose options) segments source decisions last)
    (lenient : Lenient options decisions) :
    tokenizer.walkSegments options segments source = ⟨decisions, none, last⟩ := by
  induction traces with
  | done => rfl
  | special special _ ih =>
      simp only [walkSegments, special, ih lenient, Walk.after]
  | @plain segment rest source next last first further special trace _ ih =>
      have nothingSkipped : options.strict = true →
          first.filterMap Decision.skipped? = [] ∧ further.filterMap Decision.skipped? = [] := by
        simpa [Lenient] using lenient
      have here := trace.along_eq (choose_sound tokenizer options)
        fun strict => (nothingSkipped strict).1
      simp only [walkSegments, special, here, ih fun strict => (nothingSkipped strict).2]

/-! ### Walks that stop short -/

/-- Where a walk along a span stops short, nothing can be selected. -/
theorem along_uncovered {choose : Text → σ → Option (Match Nat × σ)} {strict : Bool}
    {covered position : Nat} {text : Text} {source : σ} {place : Nat × Char}
    (stopped : (Walk.along choose strict covered position text source).uncovered = some place) :
    strict = true ∧ ∃ offset state, offset < text.length ∧
      choose (text.drop offset) state = none := by
  induction text generalizing covered position source with
  | nil => simp [Walk.along] at stopped
  | cons c rest ih =>
      -- A place further on is one character further on in the longer text.
      have further : ∀ next after,
          (Walk.along choose strict next (position + 1) rest after).uncovered = some place →
          strict = true ∧ ∃ offset state, offset < (c :: rest).length ∧
            choose ((c :: rest).drop offset) state = none := by
        intro next after stopped
        obtain ⟨isStrict, offset, state, inside, absent⟩ := ih stopped
        exact ⟨isStrict, offset + 1, state, by simpa using inside, by simpa using absent⟩
      cases covered with
      | succ more => exact further _ _ stopped
      | zero =>
          rw [Walk.along] at stopped
          cases selected : choose (c :: rest) source with
          | some result =>
              simp only [selected] at stopped
              exact further _ _ stopped
          | none =>
              simp only [selected] at stopped
              cases strict with
              | true => exact ⟨rfl, 0, source, by simp, selected⟩
              | false => exact further _ _ stopped

theorem walkSegments_uncovered [RandomSource σ] {tokenizer : Tokenizer} {options : Options}
    {segments : List (Segment Nat)} {source : σ} {place : Nat × Char}
    (stopped : (tokenizer.walkSegments options segments source).uncovered = some place) :
    options.strict = true ∧ ∃ segment ∈ segments, segment.special = none ∧ ∃ offset,
      ∃ state : σ, offset < segment.text.length ∧
        tokenizer.choose options (segment.text.drop offset) state = none := by
  induction segments generalizing source with
  | nil => simp [walkSegments] at stopped
  | cons segment rest ih =>
      have further : ∀ after : σ,
          (tokenizer.walkSegments options rest after).uncovered = some place →
          options.strict = true ∧ ∃ other ∈ segment :: rest, other.special = none ∧ ∃ offset,
            ∃ state : σ, offset < other.text.length ∧
              tokenizer.choose options (other.text.drop offset) state = none := by
        intro after stopped
        obtain ⟨isStrict, other, member, found⟩ := ih stopped
        exact ⟨isStrict, other, .tail _ member, found⟩
      cases special : segment.special with
      | some id =>
          simp only [walkSegments, special] at stopped
          exact further source stopped
      | none =>
          simp only [walkSegments, special] at stopped
          cases here : (Walk.along (tokenizer.choose options) options.strict 0 segment.start
              segment.text source).uncovered with
          | some reached =>
              obtain ⟨isStrict, offset, state, found⟩ := along_uncovered here
              exact ⟨isStrict, segment, .head _, special, offset, state, found⟩
          | none =>
              simp only [here] at stopped
              exact further _ stopped

end Tessera.Tokenizer
