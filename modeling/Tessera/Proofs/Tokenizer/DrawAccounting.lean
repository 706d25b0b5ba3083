import Mathlib.Data.List.Forall2
import Tessera.Proofs.Tokenizer.CandidatesInPlay

/-!
# What a call takes from its source

A record of the requests that are made to a source does not change a call. It shows one request for each
token that is selected, in their order, and none for anything else. Each request has one of the matches
drawn that are in play at the token's place.
-/

set_option autoImplicit false

namespace Tessera

variable {σ : Type}

/-- The same supply of sources, with a record that goes on from one source to the next. -/
def Supply.recorded : Supply σ → Supply (Recorded σ)
  | .current => .current
  | .starting start? => .starting fun seed last =>
    (start? seed last.source).map fun source => ⟨source, last.requests⟩

def Desk.recorded (desk : Desk σ) (requests : List Request) : Desk (Recorded σ) :=
  ⟨⟨desk.source, requests⟩, desk.notices⟩

theorem Supply.begin?_recorded (supply : Supply σ) (seed : Option Int) (source : σ)
    (requests : List Request) :
    supply.recorded.begin? seed ⟨source, requests⟩ =
      (supply.begin? seed source).map fun begun => ⟨begun, requests⟩ := by
  cases supply <;> rfl

namespace Tokenizer

def Walk.recorded (walk : Walk σ) (requests : List Request) : Walk (Recorded σ) :=
  ⟨walk.decisions, walk.uncovered, ⟨walk.source, requests⟩⟩

variable {tokenizer : Tokenizer} {options : Options}

/-! ## One request -/

/-- What a source is asked for to have a token drawn where a text starts. It is a number below the count of
the matches in play, and each of them is selected for one such number. Where matches are weighted it is a
fraction, and whatever that is, it has one of them selected. -/
inductive DrawsBy (tokenizer : Tokenizer) (options : Options) (rest : Text) : Request → Prop where
  | number {count : Nat} (positive : 0 < count)
      (pick : Fin count ≃ {found // tokenizer.InPlay options rest found}) :
      options.strategy ≠ .idealLength →
      (∀ {σ : Type} [RandomSource σ] (source : σ), tokenizer.choose options rest source =
        some ((pick (RandomSource.below count positive source).1).1,
          (RandomSource.below count positive source).2)) →
      DrawsBy tokenizer options rest (.below count)
  | fraction (pick : Float → {found // tokenizer.InPlay options rest found}) :
      options.strategy = .idealLength →
      (∀ {σ : Type} [RandomSource σ] (source : σ), tokenizer.choose options rest source =
        some ((pick (RandomSource.fraction source).1).1, (RandomSource.fraction source).2)) →
      DrawsBy tokenizer options rest .fraction

section

variable {rest : Text}

theorem drawsBy_number (unweighted : options.strategy ≠ .idealLength)
    (nonempty : tokenizer.pool options rest ≠ []) :
    tokenizer.DrawsBy options rest (.below (tokenizer.pool options rest).length) := by
  have positive := List.length_pos_iff.mpr nonempty
  have distinct := tokenizer.nodup_pool options rest
  refine .number positive ((distinct.getEquiv _).trans (.subtypeEquivRight fun _ => mem_pool_iff))
    unweighted fun source => ?_
  exact (Selection.select_eq_of_uniform unweighted source).trans (Selection.uniform_eq positive source)

/-- How much each of the matches in play counts where they are weighted. -/
def weights (tokenizer : Tokenizer) (options : Options) (rest : Text) : List Float :=
  (tokenizer.pool options rest).map fun candidate =>
    Selection.closeness options.idealLength.toFloat candidate.extent

/-- Whatever fraction is drawn, it falls on the weight of one of the matches in play. -/
theorem exists_fallsOn (nonempty : tokenizer.pool options rest ≠ []) (draw : Float) :
    ∃ (found : {found // tokenizer.InPlay options rest found}) (place : Nat),
      Weighted.index? (tokenizer.weights options rest) draw = some place ∧
        (tokenizer.pool options rest)[place]? = some found.1 := by
  have someWeight : tokenizer.weights options rest ≠ [] := by simpa [weights] using nonempty
  obtain ⟨place, inside, index⟩ := Weighted.exists_index someWeight draw
  rw [weights, List.length_map] at inside
  have listed := List.getElem_mem inside
  exact ⟨⟨_, mem_pool_iff.mp listed⟩, place, index, List.getElem?_eq_getElem inside⟩

theorem drawsBy_fraction (weighted : options.strategy = .idealLength)
    (nonempty : tokenizer.pool options rest ≠ []) : tokenizer.DrawsBy options rest .fraction := by
  choose pick place index placed using exists_fallsOn nonempty
  refine .fraction pick weighted fun source => ?_
  have selected := Selection.weighted_eq (index _) (placed (RandomSource.fraction source).1)
  rw [pool, weighted] at selected
  rw [choose, weighted]
  exact selected

theorem exists_drawsBy (options : Options) (matched : tokenizer.vocabulary.Matches rest) :
    ∃ request, tokenizer.DrawsBy options rest request := by
  have nonempty : tokenizer.pool options rest ≠ [] := fun empty => pool_eq_nil_iff.mp empty matched
  by_cases weighted : options.strategy = .idealLength
  · exact ⟨_, drawsBy_fraction weighted nonempty⟩
  · exact ⟨_, drawsBy_number weighted nonempty⟩

variable [RandomSource σ]

/-- A record takes down the one request that has a token drawn, and changes nothing else. -/
theorem DrawsBy.choose_recorded {request : Request} (draws : tokenizer.DrawsBy options rest request)
    (source : σ) :
    ∃ token next, tokenizer.InPlay options rest token ∧
      tokenizer.choose options rest source = some (token, next) ∧
      ∀ before, tokenizer.choose options rest (⟨source, before⟩ : Recorded σ) =
        some (token, ⟨next, request :: before⟩) := by
  cases draws with
  | number positive pick unweighted chosen =>
      exact ⟨_, _, (pick _).2, chosen source, fun before => chosen (⟨source, before⟩ : Recorded σ)⟩
  | fraction pick weighted chosen =>
      exact ⟨_, _, (pick _).2, chosen source, fun before => chosen (⟨source, before⟩ : Recorded σ)⟩

end

/-! ## The requests of a walk -/

/-- Whether a decision selects the token that is chosen at a place of a text, one of those in play, and
a request is what has it drawn there. The text stands at an offset of a whole one. -/
def DrawnWithin (tokenizer : Tokenizer) (σ : Type) [RandomSource σ] (options : Options) (start : Nat)
    (text : Text) (decision : Decision) (request : Request) : Prop :=
  ∃ (offset : Nat) (token : Match Nat) (state next : σ),
    offset < text.length ∧ decision = .emit (start + offset) token ∧
    tokenizer.choose options (text.drop offset) state = some (token, next) ∧
    tokenizer.InPlay options (text.drop offset) token ∧
    tokenizer.DrawsBy options (text.drop offset) request

/-- The same in one of the plain segments of a text. -/
def DrawnIn (tokenizer : Tokenizer) (σ : Type) [RandomSource σ] (options : Options)
    (segments : List (Segment Nat)) (decision : Decision) (request : Request) : Prop :=
  ∃ segment ∈ segments, segment.special = none ∧
    tokenizer.DrawnWithin σ options segment.start segment.text decision request

section

variable [RandomSource σ] {decision : Decision} {request : Request}

theorem DrawnWithin.cons {start : Nat} {text : Text}
    (drawn : tokenizer.DrawnWithin σ options (start + 1) text decision request) (c : Char) :
    tokenizer.DrawnWithin σ options start (c :: text) decision request := by
  obtain ⟨offset, token, state, next, inside, rfl, chosen, inPlay, draws⟩ := drawn
  refine ⟨offset + 1, token, state, next, Nat.succ_lt_succ inside, ?_, chosen, inPlay, draws⟩
  rw [Nat.add_assoc, Nat.add_comm 1]

theorem DrawnIn.cons {segments : List (Segment Nat)}
    (drawn : tokenizer.DrawnIn σ options segments decision request) (segment : Segment Nat) :
    tokenizer.DrawnIn σ options (segment :: segments) decision request := by
  obtain ⟨other, listed, plain, within⟩ := drawn
  exact ⟨other, List.mem_cons_of_mem _ listed, plain, within⟩

end

/-- Whether requests are those of a walk: with a record the walk is the same, the record shows them, and
there is one for each token selected, in their order. -/
structure Walk.Requests (drawnBy : Decision → Request → Prop) (walk : Walk σ)
    (withRecord : List Request → Walk (Recorded σ)) (drawn : List Request) : Prop where
  recorded : ∀ before, withRecord before = walk.recorded (drawn.reverse ++ before)
  accounted : List.Forall₂ drawnBy (walk.decisions.filter Decision.isEmit) drawn

namespace Walk.Requests

variable {drawnBy : Decision → Request → Prop} {walk : Walk σ}
  {withRecord : List Request → Walk (Recorded σ)} {drawn : List Request} {decision : Decision}

theorem stop (uncovered : Option (Nat × Char)) (source : σ) :
    Requests drawnBy ⟨[], uncovered, source⟩ (fun before => ⟨[], uncovered, source, before⟩) [] :=
  ⟨fun _ => rfl, .nil⟩

theorem imp (requests : Requests drawnBy walk withRecord drawn)
    {other : Decision → Request → Prop} (weaken : ∀ {decision request},
      drawnBy decision request → other decision request) : Requests other walk withRecord drawn :=
  ⟨requests.recorded, requests.accounted.imp fun _ _ => weaken⟩

/-- Where nothing is selected, nothing is asked for. -/
theorem after_silent (requests : Requests drawnBy walk withRecord drawn)
    (silent : decision.isEmit = false) :
    Requests drawnBy (walk.after decision) (fun before => (withRecord before).after decision)
      drawn := by
  refine ⟨fun before => ?_, ?_⟩
  · rw [requests.recorded]
    rfl
  · rw [Walk.after, List.filter_cons_of_neg (by simp [silent])]
    exact requests.accounted

theorem after_emit (requests : Requests drawnBy walk withRecord drawn)
    (emits : decision.isEmit = true) {request : Request} (draws : drawnBy decision request) :
    Requests drawnBy (walk.after decision)
      (fun before => (withRecord (request :: before)).after decision) (request :: drawn) := by
  refine ⟨fun before => ?_, ?_⟩
  · rw [requests.recorded, List.reverse_cons, List.append_assoc]
    rfl
  · rw [Walk.after, List.filter_cons_of_pos emits]
    exact .cons draws requests.accounted

end Walk.Requests

section

variable [RandomSource σ]

/-- A walk along a span makes the requests of its steps, one after the other. -/
theorem exists_requests_along (tokenizer : Tokenizer) (options : Options) (strict : Bool)
    (covered position : Nat) (text : Text) (source : σ) :
    ∃ drawn, Walk.Requests (tokenizer.DrawnWithin σ options position text)
      (Walk.along (tokenizer.choose options) strict covered position text source)
      (fun before => Walk.along (tokenizer.choose options) strict covered position text
        ⟨source, before⟩) drawn := by
  induction text generalizing covered position source with
  | nil => exact ⟨[], .stop none source⟩
  | cons c rest ih =>
      cases covered with
      | succ more =>
          obtain ⟨drawn, requests⟩ := ih more (position + 1) source
          exact ⟨drawn, requests.imp fun within => within.cons c⟩
      | zero =>
          by_cases matched : tokenizer.vocabulary.Matches (c :: rest)
          · obtain ⟨request, draws⟩ := exists_drawsBy options matched
            obtain ⟨token, next, inPlay, chosen, chosenWith⟩ := draws.choose_recorded source
            obtain ⟨drawn, requests⟩ := ih (token.length - 1) (position + 1) next
            have here : tokenizer.DrawnWithin σ options position (c :: rest) (.emit position token)
                request := ⟨0, token, source, next, Nat.succ_pos _, rfl, chosen, inPlay, draws⟩
            refine ⟨request :: drawn, ?_⟩
            simp only [Walk.along, chosen, chosenWith]
            exact (requests.imp fun within => within.cons c).after_emit rfl here
          · -- Nothing matches, so nothing is drawn, with or without a record.
            have absent {τ : Type} [RandomSource τ] (source : τ) :
                tokenizer.choose options (c :: rest) source = none := choose_eq_none_iff.mpr matched
            simp only [Walk.along, absent]
            cases strict with
            | true => exact ⟨[], .stop _ source⟩
            | false =>
                obtain ⟨drawn, requests⟩ := ih 0 (position + 1) source
                exact ⟨drawn, (requests.imp fun within => within.cons c).after_silent rfl⟩

theorem exists_requests_walkSegments (tokenizer : Tokenizer) (options : Options)
    (segments : List (Segment Nat)) (source : σ) :
    ∃ drawn, Walk.Requests (tokenizer.DrawnIn σ options segments)
      (tokenizer.walkSegments options segments source)
      (fun before => tokenizer.walkSegments options segments ⟨source, before⟩) drawn := by
  induction segments generalizing source with
  | nil => exact ⟨[], .stop none source⟩
  | cons segment rest ih =>
      cases special : segment.special with
      | some id =>
          obtain ⟨drawn, requests⟩ := ih source
          simp only [walkSegments, special]
          exact ⟨drawn, (requests.imp fun within => within.cons segment).after_silent rfl⟩
      | none =>
          obtain ⟨first, within⟩ := exists_requests_along tokenizer options options.strict 0
            segment.start segment.text source
          have here := within.imp fun drawn =>
            (⟨segment, List.mem_cons_self, special, drawn⟩ :
              tokenizer.DrawnIn σ options (segment :: rest) _ _)
          -- The record of a later segment goes on where this one leaves it.
          simp only [walkSegments, special, here.recorded, Walk.recorded]
          generalize Walk.along (tokenizer.choose options) options.strict 0 segment.start
            segment.text source = walk at here ⊢
          cases stopped : walk.uncovered with
          | some place =>
              exact ⟨first, fun before => by simp only [Walk.recorded, stopped], here.accounted⟩
          | none =>
              obtain ⟨drawn, requests⟩ := ih walk.source
              have further := requests.imp fun within => within.cons segment
              refine ⟨first ++ drawn, fun before => ?_, ?_⟩
              · simp only [further.recorded, Walk.recorded, List.reverse_append, List.append_assoc]
              · rw [List.filter_append]
                exact List.rel_append here.accounted further.accounted

end

/-! ## Calls that return -/

section

variable {text : Text} {desk after : Desk σ} {walk : Walk σ} {result : Tokenization}

theorem outcome_of_ended_eq_ok
    (returned : tokenizer.ended options text desk walk = (.ok result, after)) :
    tokenizer.outcome options text walk = .ok result := by
  unfold ended at returned
  split at returned
  · cases returned
  · exact (Prod.mk.inj returned).1

/-- A record is left as the walk leaves it. -/
theorem ended_recorded
    (returned : tokenizer.ended options text desk walk = (.ok result, after))
    (before requests : List Request) :
    tokenizer.ended options text (desk.recorded before) (walk.recorded requests) =
      (.ok result, after.recorded requests) := by
  have given := outcome_of_ended_eq_ok returned
  have givenWith : tokenizer.outcome options text (walk.recorded requests) = .ok result := given
  unfold ended at returned ⊢
  rw [givenWith]
  split at returned
  · cases returned
  · next allowed =>
      rw [given] at returned
      obtain ⟨-, rfl⟩ := Prod.mk.inj returned
      exact if_neg allowed

end

variable [RandomSource σ]

/-- A call that returns makes one request for each token that is selected in a plain segment, in their
order, and no other. The marks, the special segments and the characters left out take none. -/
theorem draws_of_tokenize {text : Text} {supply : Supply σ} {desk after : Desk σ}
    {result : Tokenization}
    (returned : (tokenizer.tokenize options text supply).runOn desk = (.ok result, after)) :
    ∃ (source : σ) (first last : List Nat) (drawn : List Request),
      supply.begin? (options.seed.map Int.ofNat) desk.source = some source ∧
      mark options.addBos tokenizer.vocabulary.bos .absentBos = .ok first ∧
      mark options.addEos tokenizer.vocabulary.eos .absentEos = .ok last ∧
      result = ⟨text, first ++ (tokenizer.walk options text source).ids ++ last,
        (tokenizer.walk options text source).skipped⟩ ∧
      (∀ before, (tokenizer.tokenize options text supply.recorded).runOn (desk.recorded before) =
        (.ok result, after.recorded (drawn.reverse ++ before))) ∧
      List.Forall₂ (tokenizer.DrawnIn σ options (tokenizer.segments options text))
        ((tokenizer.walk options text source).decisions.filter Decision.isEmit) drawn := by
  cases begun : supply.begin? (options.seed.map Int.ofNat) desk.source with
  | none =>
      rw [runOn_tokenize_of_not_begun begun] at returned
      cases returned
  | some source =>
      rw [runOn_tokenize_of_begun begun] at returned
      obtain ⟨drawn, recorded, accounted⟩ := exists_requests_walkSegments tokenizer options
        (tokenizer.segments options text) source
      obtain ⟨-, first, last, bos, eos, resultEq⟩ := outcome_eq_ok (outcome_of_ended_eq_ok returned)
      refine ⟨source, first, last, drawn, rfl, bos, eos, resultEq, fun before => ?_, accounted⟩
      have begunWith : supply.recorded.begin? (options.seed.map Int.ofNat)
          (desk.recorded before).source = some ⟨source, before⟩ := by
        rw [Desk.recorded, Supply.begin?_recorded, begun]
        rfl
      have walkEq : tokenizer.walk options text (⟨source, before⟩ : Recorded σ) =
          (tokenizer.walk options text source).recorded (drawn.reverse ++ before) := recorded before
      rw [runOn_tokenize_of_begun begunWith, walkEq]
      exact ended_recorded returned before _

/-- Two tokens are drawn, each for one request; the mark, the special text and the character between
them take none. -/
theorem draws_of_tokenize_mark_and_skip :
    let tokenizer := ofVocabulary {
      tokens := #["<s>".toList, ['a'], ['a', 'b'], ['b']]
      merges := none
      bos := some 0
      eos := none
      modelType := none
      specialIds := []
      bos_lt_size := by decide
      eos_lt_size := by decide
      specialIds_lt_size := by decide }
    let options := { Options.default with addBos := true }
    let desk : Desk Script := Desk.fresh ⟨[], [1, 0], 0, 0⟩
    let text : Text := "ab<s>?a".toList
    ∃ after, (tokenizer.tokenize options text .current).runOn desk =
        (.ok ⟨text, [0, 2, 0, 1], [5]⟩, after) ∧
      List.Forall₂ (tokenizer.DrawnIn Script options (tokenizer.segments options text))
        [.emit 0 ⟨2, 2, ['a', 'b']⟩, .emit 6 ⟨1, 1, ['a']⟩] [.below 2, .below 1] := by
  intro tokenizer options desk text
  refine ⟨_, rfl, ?_⟩
  have returned : (tokenizer.tokenize options text .current).runOn desk =
      (.ok ⟨text, [0, 2, 0, 1], [5]⟩, _) := rfl
  obtain ⟨source, -, -, drawn, begun, -, -, -, recorded, accounted⟩ := draws_of_tokenize returned
  cases begun
  have log : [.below 1, .below 2] = drawn.reverse ++ [] :=
    congrArg (fun ending => ending.2.source.requests) (recorded [])
  obtain rfl : drawn = [.below 2, .below 1] := by
    rw [← List.reverse_reverse drawn, ← List.append_nil drawn.reverse, ← log]
    rfl
  exact accounted

end Tokenizer

end Tessera
