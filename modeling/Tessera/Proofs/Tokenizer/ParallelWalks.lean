import Mathlib.Data.List.Forall2
import Tessera.Compression.Basic
import Tessera.Proofs.Tokenizer.RoundTrip
import Tessera.Proofs.Tokenizer.Uncovered

/-!
# Walks from different sources

Where tokens are selected by their length, the random numbers decide only between the ids of one text.
So two walks from different sources come to the same places, and what they select there bears the same
texts.
-/

set_option autoImplicit false

namespace Tessera

/-- Whether no text occurs twice, the empty one apart. -/
def Vocabulary.IsDistinct (vocabulary : Vocabulary) : Prop :=
  (vocabulary.tokens.toList.filter fun token => !token.isEmpty).Nodup

theorem Vocabulary.IsDistinct.id_eq {vocabulary : Vocabulary} (distinct : vocabulary.IsDistinct)
    {id other : Nat} {text : Text} (held : vocabulary.tokens[id]? = some text)
    (otherHeld : vocabulary.tokens[other]? = some text) (nonempty : text ≠ []) : id = other := by
  rw [IsDistinct, List.Nodup, List.pairwise_filter, List.pairwise_iff_getElem] at distinct
  obtain ⟨inside, rfl⟩ := Array.getElem?_eq_some_iff.mp held
  obtain ⟨otherInside, same⟩ := Array.getElem?_eq_some_iff.mp otherHeld
  have filled : (!(vocabulary.tokens[id].isEmpty)) = true := by simpa using nonempty
  rcases Nat.lt_trichotomy id other with before | rfl | behind
  · exact absurd same.symm (distinct id other inside otherInside before filled (same ▸ filled))
  · rfl
  · exact absurd same (distinct other id otherInside inside behind (same ▸ filled) filled)

/-- Two matches that bear one token of a vocabulary, under its ids. -/
structure Match.Alike (vocabulary : Vocabulary) (found other : Match Nat) : Prop where
  isToken : found.IsToken vocabulary
  otherIsToken : other.IsToken vocabulary
  text_eq : found.text = other.text

namespace Match.Alike

variable {vocabulary : Vocabulary} {found other : Match Nat}

theorem length_eq (alike : found.Alike vocabulary other) : found.length = other.length := by
  rw [alike.isToken.length_eq, alike.otherIsToken.length_eq, alike.text_eq]

theorem eq_of_isDistinct (alike : found.Alike vocabulary other) (distinct : vocabulary.IsDistinct) :
    found = other := by
  have idsEq : found.id = other.id :=
    distinct.id_eq alike.isToken.token_eq (alike.text_eq ▸ alike.otherIsToken.token_eq)
      alike.isToken.nonempty
  have lengthsEq := alike.length_eq
  have textsEq := alike.text_eq
  cases found
  cases other
  simp_all

end Match.Alike

/-! ## Selection by length -/

namespace Strategy

/-- Whether a strategy leaves no choice between tokens of different lengths. -/
def IsByLength (strategy : Strategy) : Prop := strategy = .longest ∨ strategy = .shortest

end Strategy

theorem Selection.length_eq_of_select {σ τ α : Type} [RandomSource σ] [RandomSource τ]
    {strategy : Strategy} (byLength : strategy.IsByLength) {ideal : Float} {length : α → Int}
    {candidates : List α} {source next : σ} {state after : τ} {element other : α}
    (selected : select strategy ideal length candidates source = some (element, next))
    (otherSelected : select strategy ideal length candidates state = some (other, after)) :
    length element = length other := by
  rcases byLength with rfl | rfl
  · have greatest := (List.mem_filter.mp (mem_of_uniform selected)).2
    have otherGreatest := (List.mem_filter.mp (mem_of_uniform otherSelected)).2
    exact (of_decide_eq_true greatest).trans (of_decide_eq_true otherGreatest).symm
  · have least := (List.mem_filter.mp (mem_of_uniform selected)).2
    have otherLeast := (List.mem_filter.mp (mem_of_uniform otherSelected)).2
    exact (of_decide_eq_true least).trans (of_decide_eq_true otherLeast).symm

namespace Tokenizer

variable {σ τ : Type} {vocabulary : Vocabulary}

/-- Two choices that select one token wherever they are made, if there is any to select. -/
def AlikeChoices (vocabulary : Vocabulary) (choose : Text → σ → Option (Match Nat × σ))
    (other : Text → τ → Option (Match Nat × τ)) : Prop :=
  ∀ text source state, Option.Rel (fun selected alternative =>
    selected.1.Alike vocabulary alternative.1) (choose text source) (other text state)

theorem choose_alike [RandomSource σ] [RandomSource τ] (tokenizer : Tokenizer) {options : Options}
    (byLength : options.strategy.IsByLength) :
    AlikeChoices tokenizer.vocabulary (tokenizer.choose (σ := σ) options)
      (tokenizer.choose (σ := τ) options) := by
  intro text source state
  have sound := choose_sound (σ := σ) tokenizer options
  have otherSound := choose_sound (σ := τ) tokenizer options
  cases chosen : tokenizer.choose options text source with
  | none =>
      have absent : tokenizer.choose options text state = none :=
        choose_eq_none_iff.mpr (choose_eq_none_iff.mp chosen)
      rw [absent]
      exact .none
  | some selected =>
      cases alternative : tokenizer.choose options text state with
      | none =>
          have absent : tokenizer.choose options text source = none :=
            choose_eq_none_iff.mpr (choose_eq_none_iff.mp alternative)
          rw [absent] at chosen
          cases chosen
      | some other =>
          obtain ⟨isToken, starts⟩ := sound _ _ _ _ chosen
          obtain ⟨otherIsToken, otherStarts⟩ := otherSound _ _ _ _ alternative
          have asLong : selected.1.extent = other.1.extent :=
            Selection.length_eq_of_select byLength chosen alternative
          refine .some ⟨isToken, otherIsToken, ?_⟩
          rw [List.prefix_iff_eq_take.mp starts, List.prefix_iff_eq_take.mp otherStarts,
            ← isToken.length_eq, ← otherIsToken.length_eq, Int.ofNat_inj.mp asLong]

/-! ## Walks side by side -/

inductive Decision.Alike (vocabulary : Vocabulary) : Decision → Decision → Prop where
  | emit {position : Nat} {token other : Match Nat} :
      token.Alike vocabulary other → Alike vocabulary (.emit position token) (.emit position other)
  | preserve {position id : Nat} : Alike vocabulary (.preserve position id) (.preserve position id)
  | skip {position : Nat} {c : Char} : Alike vocabulary (.skip position c) (.skip position c)

/-- Two walks that come to the same places, and to the same end. -/
structure Walk.Alike (vocabulary : Vocabulary) (walk : Walk σ) (other : Walk τ) : Prop where
  decisions : List.Forall₂ (Decision.Alike vocabulary) walk.decisions other.decisions
  uncovered : walk.uncovered = other.uncovered

theorem Walk.Alike.after {walk : Walk σ} {other : Walk τ} {decision alternative : Decision}
    (alike : walk.Alike vocabulary other) (here : decision.Alike vocabulary alternative) :
    (walk.after decision).Alike vocabulary (other.after alternative) :=
  ⟨.cons here alike.decisions, alike.uncovered⟩

theorem along_alike {choose : Text → σ → Option (Match Nat × σ)}
    {other : Text → τ → Option (Match Nat × τ)} (alike : AlikeChoices vocabulary choose other)
    (strict : Bool) (covered position : Nat) (text : Text) (source : σ) (state : τ) :
    (Walk.along choose strict covered position text source).Alike vocabulary
      (Walk.along other strict covered position text state) := by
  induction text generalizing covered position source state with
  | nil => exact ⟨.nil, rfl⟩
  | cons c rest ih =>
      cases covered with
      | succ more => exact ih more (position + 1) source state
      | zero =>
          have here := alike (c :: rest) source state
          rw [Walk.along, Walk.along]
          cases chosen : choose (c :: rest) source <;>
            cases alternative : other (c :: rest) state <;>
              rw [chosen, alternative] at here <;> cases here
          case none.none.none =>
            cases strict with
            | true => exact ⟨.nil, rfl⟩
            | false => exact (ih 0 (position + 1) source state).after .skip
          case some.some.some selected other same =>
            have asLong := same.length_eq
            simp only [asLong]
            exact (ih _ (position + 1) _ _).after (.emit same)

theorem walkSegments_alike [RandomSource σ] [RandomSource τ] {tokenizer : Tokenizer}
    {options : Options} (byLength : options.strategy.IsByLength) (segments : List (Segment Nat))
    (source : σ) (state : τ) :
    (tokenizer.walkSegments options segments source).Alike tokenizer.vocabulary
      (tokenizer.walkSegments options segments state) := by
  induction segments generalizing source state with
  | nil => exact ⟨.nil, rfl⟩
  | cons segment rest ih =>
      cases special : segment.special with
      | some id =>
          simp only [walkSegments, special]
          exact (ih source state).after .preserve
      | none =>
          have here := along_alike (choose_alike (σ := σ) (τ := τ) tokenizer byLength)
            options.strict 0 segment.start segment.text source state
          simp only [walkSegments, special, ← here.uncovered]
          split
          · exact here
          · have further := ih
              (Walk.along (tokenizer.choose options) options.strict 0 segment.start segment.text
                source).source
              (Walk.along (tokenizer.choose options) options.strict 0 segment.start segment.text
                state).source
            exact ⟨List.rel_append here.decisions further.decisions, further.uncovered⟩

theorem walk_alike [RandomSource σ] [RandomSource τ] {tokenizer : Tokenizer} {options : Options}
    (byLength : options.strategy.IsByLength) (text : Text) (source : σ) (state : τ) :
    (tokenizer.walk options text source).Alike tokenizer.vocabulary
      (tokenizer.walk options text state) :=
  walkSegments_alike byLength _ source state

/-! ## What comes of them -/

theorem piece_eq_of_isToken {tokenizer : Tokenizer} {found : Match Nat}
    (isToken : found.IsToken tokenizer.vocabulary) : tokenizer.piece found.id = found.text := by
  have held : tokenizer.vocabulary.token? found.id = some found.text := isToken.token_eq
  rw [piece, held, Option.getD_some]

section

variable {decisions others : List Decision}

theorem pieces_eq_of_alike {tokenizer : Tokenizer}
    (alike : List.Forall₂ (Decision.Alike tokenizer.vocabulary) decisions others) :
    (decisions.filterMap Decision.id?).map tokenizer.piece =
      (others.filterMap Decision.id?).map tokenizer.piece := by
  induction alike with
  | nil => rfl
  | cons here _ ih =>
      cases here with
      | emit same =>
          have pieceEq := piece_eq_of_isToken same.isToken
          rw [same.text_eq, ← piece_eq_of_isToken same.otherIsToken] at pieceEq
          simp only [List.filterMap_cons, Decision.id?, List.map_cons, pieceEq, ih]
      | preserve => simp only [List.filterMap_cons, Decision.id?, List.map_cons, ih]
      | skip => simpa only [List.filterMap_cons, Decision.id?] using ih

theorem skipped_eq_of_alike (alike : List.Forall₂ (Decision.Alike vocabulary) decisions others) :
    decisions.filterMap Decision.skipped? = others.filterMap Decision.skipped? := by
  induction alike with
  | nil => rfl
  | cons here _ ih => cases here <;> simp only [List.filterMap_cons, Decision.skipped?, ih]

/-- Where no text occurs twice, the same is done. -/
theorem decisions_eq_of_alike (alike : List.Forall₂ (Decision.Alike vocabulary) decisions others)
    (distinct : vocabulary.IsDistinct) : decisions = others := by
  induction alike with
  | nil => rfl
  | cons here _ ih =>
      cases here with
      | emit same => rw [same.eq_of_isDistinct distinct, ih]
      | preserve => rw [ih]
      | skip => rw [ih]

end

/-- Two endings of a call that differ at most in the ids of equal tokens. -/
inductive AlikeEndings (tokenizer : Tokenizer) :
    Except Failure Tokenization → Except Failure Tokenization → Prop where
  | ok {result other : Tokenization} :
      result.text = other.text → result.skipped = other.skipped →
      result.ids.map tokenizer.piece = other.ids.map tokenizer.piece →
      AlikeEndings tokenizer (.ok result) (.ok other)
  | error {failure : Failure} : AlikeEndings tokenizer (.error failure) (.error failure)

theorem outcome_alike {tokenizer : Tokenizer} {walk : Walk σ} {other : Walk τ}
    (alike : walk.Alike tokenizer.vocabulary other) (options : Options) (text : Text) :
    tokenizer.AlikeEndings (tokenizer.outcome options text walk)
      (tokenizer.outcome options text other) := by
  unfold outcome
  rw [alike.uncovered]
  cases other.uncovered with
  | some place => exact .error
  | none =>
      cases mark options.addBos tokenizer.vocabulary.bos .absentBos with
      | error failure => exact .error
      | ok first =>
          cases mark options.addEos tokenizer.vocabulary.eos .absentEos with
          | error failure => exact .error
          | ok last =>
              refine .ok rfl (skipped_eq_of_alike alike.decisions) ?_
              simp only [Walk.ids, List.map_append, pieces_eq_of_alike alike.decisions]

theorem outcome_eq_of_isDistinct {tokenizer : Tokenizer} {walk : Walk σ} {other : Walk τ}
    (alike : walk.Alike tokenizer.vocabulary other) (distinct : tokenizer.vocabulary.IsDistinct)
    (options : Options) (text : Text) :
    tokenizer.outcome options text walk = tokenizer.outcome options text other := by
  have same := decisions_eq_of_alike alike.decisions distinct
  simp only [outcome, Walk.ids, Walk.skipped, alike.uncovered, same]

/-! ## Calls -/

theorem isMeasurable_of_isByLength {options : Options} (byLength : options.strategy.IsByLength) :
    options.isMeasurable = true := by
  rcases byLength with strategy | strategy <;> simp [Options.isMeasurable, strategy]

section

variable [RandomSource σ] [RandomSource τ] {options : Options} {supply : Supply σ}
  {other : Supply τ} (byLength : options.strategy.IsByLength) (ready : supply.IsReady)
  (otherReady : other.IsReady) (seed otherSeed : Option Nat) (tokenizer : Tokenizer) (text : Text)
  (desk : Desk σ) (otherDesk : Desk τ)

include byLength ready otherReady

/-- Calls that select by length, with supplies and seeds of their own, come of walks side by side. -/
theorem exists_walks : ∃ (source : σ) (state : τ),
    ((tokenizer.tokenize { options with seed := seed } text supply).runOn desk).1 =
      tokenizer.outcome options text (tokenizer.walk options text source) ∧
    ((tokenizer.tokenize { options with seed := otherSeed } text other).runOn otherDesk).1 =
      tokenizer.outcome options text (tokenizer.walk options text state) := by
  have given {ρ : Type} [RandomSource ρ] {supply : Supply ρ} (ready : supply.IsReady)
      (seed : Option Nat) (desk : Desk ρ) : ∃ source : ρ,
      ((tokenizer.tokenize { options with seed := seed } text supply).runOn desk).1 =
        tokenizer.outcome options text (tokenizer.walk options text source) := by
    obtain ⟨source, begun⟩ := Option.isSome_iff_exists.mp (ready seed desk.source)
    have measurable : ({ options with seed := seed } : Options).isMeasurable = true :=
      isMeasurable_of_isByLength byLength
    obtain ⟨notices, returned⟩ := runOn_tokenize measurable begun tokenizer text
    rw [returned, walk_with]
    exact ⟨source, rfl⟩
  obtain ⟨source, first⟩ := given ready seed desk
  obtain ⟨state, second⟩ := given otherReady otherSeed otherDesk
  exact ⟨source, state, first, second⟩

theorem tokenize_alike : tokenizer.AlikeEndings
    ((tokenizer.tokenize { options with seed := seed } text supply).runOn desk).1
    ((tokenizer.tokenize { options with seed := otherSeed } text other).runOn otherDesk).1 := by
  obtain ⟨source, state, first, second⟩ :=
    exists_walks byLength ready otherReady seed otherSeed tokenizer text desk otherDesk
  rw [first, second]
  exact outcome_alike (walk_alike byLength text source state) options text

theorem tokenize_eq_of_isDistinct (distinct : tokenizer.vocabulary.IsDistinct) :
    ((tokenizer.tokenize { options with seed := seed } text supply).runOn desk).1 =
      ((tokenizer.tokenize { options with seed := otherSeed } text other).runOn otherDesk).1 := by
  obtain ⟨source, state, first, second⟩ :=
    exists_walks byLength ready otherReady seed otherSeed tokenizer text desk otherDesk
  rw [first, second]
  exact outcome_eq_of_isDistinct (walk_alike byLength text source state) distinct options text

end

end Tokenizer

end Tessera
