import Tessera.Proofs.Tokenizer.Coverage
import Tessera.Proofs.Tokenizer.Endings
import Tessera.Random.Scripted

/-!
# Calls and what their ids decode to

What the ids of a call decode to, and when there is a call that gives ids.
-/

set_option autoImplicit false

/-! ## Round trips

The ids of a tokenization decode to the text without the characters that were left out, between the
texts of the marks that were asked for. Nothing is assumed of the strategy, the source or the
vocabulary.
-/

namespace Tessera.Tokenizer

variable {σ : Type}

/-- The text of a mark, if it is asked for and there is one. -/
def markText (vocabulary : Vocabulary) (requested : Bool) (id : Option Nat) : Text :=
  if requested then (id.bind fun id => vocabulary.token? id).getD [] else []

theorem decode_mark {vocabulary : Vocabulary} {requested : Bool} {id : Option Nat}
    {absent : Failure} {ids : List Nat} (marked : mark requested id absent = .ok ids) :
    vocabulary.decode (ids.map Int.ofNat) = markText vocabulary requested id := by
  cases requested with
  | false =>
      simp only [mark, Bool.false_eq_true, ↓reduceIte, Except.ok.injEq] at marked
      subst ids
      rfl
  | true =>
      cases id with
      | none => simp [mark] at marked
      | some id =>
          simp only [mark, ↓reduceIte, Except.ok.injEq] at marked
          subst ids
          simp [markText, Vocabulary.decode]

/-- A walk that does not stop short gives its ids between the marks, and the places that it left
out. -/
theorem outcome_eq_ok {tokenizer : Tokenizer} {options : Options} {text : Text} {walk : Walk σ}
    {result : Tokenization} (returned : tokenizer.outcome options text walk = .ok result) :
    walk.uncovered = none ∧ ∃ first last,
      mark options.addBos tokenizer.vocabulary.bos .absentBos = .ok first ∧
      mark options.addEos tokenizer.vocabulary.eos .absentEos = .ok last ∧
      result = ⟨text, first ++ walk.ids ++ last, walk.skipped⟩ := by
  unfold outcome at returned
  cases stopped : walk.uncovered with
  | some place => simp [stopped] at returned
  | none =>
      cases bos : mark options.addBos tokenizer.vocabulary.bos .absentBos with
      | error failure => simp [stopped, bos] at returned
      | ok first =>
          cases eos : mark options.addEos tokenizer.vocabulary.eos .absentEos with
          | error failure => simp [stopped, bos, eos] at returned
          | ok last =>
              simp only [stopped, bos, eos, Except.ok.injEq] at returned
              exact ⟨rfl, first, last, rfl, rfl, returned.symm⟩

variable [RandomSource σ]

theorem tokenizeHere_eq_ok {tokenizer : Tokenizer} {options : Options} {text : Text}
    {desk after : Desk σ} {result : Tokenization}
    (returned : Computation.outcome (tokenizer.tokenizeHere options text) desk =
      (.ok result, after)) :
    ∃ source : σ, tokenizer.outcome options text (tokenizer.walk options text source) =
      .ok result := by
  rw [outcome_tokenizeHere, ended] at returned
  split at returned
  · cases congrArg Prod.fst returned
  · exact ⟨desk.source, congrArg Prod.fst returned⟩

/-- Detokenizing gives back the text without exactly the characters that were left out, with the
marks that were asked for around it. -/
theorem detokenize_tokenize (tokenizer : Tokenizer) (options : Options) (text : Text)
    (supply : Supply σ) (desk after : Desk σ) (result : Tokenization)
    (returned : (tokenizer.tokenize options text supply).runOn desk = (.ok result, after)) :
    tokenizer.detokenize (result.ids.map Int.ofNat) =
      markText tokenizer.vocabulary options.addBos tokenizer.vocabulary.bos ++
        text.without result.skipped ++
        markText tokenizer.vocabulary options.addEos tokenizer.vocabulary.eos := by
  obtain ⟨_, started, _, tokenized⟩ := Computation.outcome_bind_eq_ok_iff.mp returned
  obtain ⟨source, outcome⟩ := tokenizeHere_eq_ok tokenized
  obtain ⟨finished, first, last, bos, eos, rfl⟩ := outcome_eq_ok outcome
  have covers := walk_covers tokenizer options text source finished
  simp only [detokenize, decode_append, decode_mark bos, decode_mark eos, Walk.ids, Walk.skipped,
    covers.decode_eq, Text.without]

/-- Marks, a special text and a character without a token, all in one text. -/
theorem detokenize_tokenize_marks_and_skip :
    let tokenizer := ofVocabulary {
      tokens := #["<s>".toList, ['a'], ['a', 'b'], ['b'], "</s>".toList]
      merges := none
      bos := some 0
      eos := some 4
      modelType := none
      specialIds := [0]
      bos_lt_size := by decide
      eos_lt_size := by decide
      specialIds_lt_size := by decide }
    let options := { Options.ofStrategy .longest with addBos := true, addEos := true }
    let text : Text := "ab?<s>b".toList
    let result : Tokenization := ⟨text, [0, 2, 0, 3, 4], [2]⟩
    ∃ after, (tokenizer.tokenize options text .current).runOn
        (Desk.fresh (⟨[], [], 0, 0⟩ : Script)) = (.ok result, after) ∧
      tokenizer.detokenize (result.ids.map Int.ofNat) =
        markText tokenizer.vocabulary true (some 0) ++ text.without [2] ++
          markText tokenizer.vocabulary true (some 4) := by
  intro tokenizer options text result
  refine ⟨_, rfl, ?_⟩
  exact detokenize_tokenize tokenizer options text .current
    (Desk.fresh (⟨[], [], 0, 0⟩ : Script)) _ result rfl

end Tessera.Tokenizer

/-! ## What a call gives

A call whose options allow tokens to be selected gives the outcome of one walk, from the source that
its supply begins with.
-/

namespace Tessera

variable {σ : Type}

/-- Whether a supply gives a source for each seed, and without one, whatever source was used last. -/
def Supply.IsReady (supply : Supply σ) : Prop :=
  ∀ (seed : Option Nat) (source : σ), (supply.begin? (seed.map Int.ofNat) source).isSome = true

namespace Tokenizer

/-- Options of calls that may leave characters out, can select tokens and ask for no marks. -/
structure Options.IsUnfailing (options : Options) : Prop where
  measurable : options.isMeasurable = true
  lenient : options.strict = false
  noBos : options.addBos = false
  noEos : options.addEos = false

theorem mark_of_not_requested {requested : Bool} {id : Option Nat} {absent : Failure}
    {ids : List Nat} (unasked : requested = false) (marked : mark requested id absent = .ok ids) :
    ids = [] := by
  subst unasked
  exact (Except.ok.inj marked).symm

theorem outcome_of_unmarked {tokenizer : Tokenizer} {options : Options} {text : Text}
    {walk : Walk σ} (noBos : options.addBos = false) (noEos : options.addEos = false)
    (finished : walk.uncovered = none) :
    tokenizer.outcome options text walk = .ok ⟨text, walk.ids, walk.skipped⟩ := by
  simp only [outcome, finished, mark, noBos, noEos, Bool.false_eq_true, ↓reduceIte,
    List.nil_append, List.append_nil]

variable [RandomSource σ]

theorem exists_walk_of_tokenize {tokenizer : Tokenizer} {options : Options} {text : Text}
    {supply : Supply σ} {desk after : Desk σ} {result : Tokenization}
    (returned : (tokenizer.tokenize options text supply).runOn desk = (.ok result, after)) :
    ∃ source : σ, (tokenizer.walk options text source).uncovered = none ∧ ∃ first last,
      mark options.addBos tokenizer.vocabulary.bos .absentBos = .ok first ∧
      mark options.addEos tokenizer.vocabulary.eos .absentEos = .ok last ∧
      result = ⟨text, first ++ (tokenizer.walk options text source).ids ++ last,
        (tokenizer.walk options text source).skipped⟩ := by
  obtain ⟨_, _, _, tokenized⟩ := Computation.outcome_bind_eq_ok_iff.mp returned
  obtain ⟨source, given⟩ := tokenizeHere_eq_ok tokenized
  exact ⟨source, outcome_eq_ok given⟩

/-- A call that asks for no marks gives what its walk gives. -/
theorem exists_walk_of_unmarked {tokenizer : Tokenizer} {options : Options} {text : Text}
    {supply : Supply σ} {desk after : Desk σ} {result : Tokenization}
    (noBos : options.addBos = false) (noEos : options.addEos = false)
    (returned : (tokenizer.tokenize options text supply).runOn desk = (.ok result, after)) :
    ∃ source : σ, (tokenizer.walk options text source).uncovered = none ∧
      result = ⟨text, (tokenizer.walk options text source).ids,
        (tokenizer.walk options text source).skipped⟩ := by
  obtain ⟨source, finished, first, last, bos, eos, rfl⟩ := exists_walk_of_tokenize returned
  cases mark_of_not_requested noBos bos
  cases mark_of_not_requested noEos eos
  exact ⟨source, finished, by rw [List.nil_append, List.append_nil]⟩

theorem runOn_tokenize {options : Options} (measurable : options.isMeasurable = true)
    {supply : Supply σ} {desk : Desk σ} {source : σ}
    (begun : supply.begin? (options.seed.map Int.ofNat) desk.source = some source)
    (tokenizer : Tokenizer) (text : Text) :
    ∃ notices, (tokenizer.tokenize options text supply).runOn desk =
      (tokenizer.outcome options text (tokenizer.walk options text source),
        ⟨(tokenizer.walk options text source).source, notices⟩) := by
  rw [runOn_tokenize_of_begun begun, ended]
  simp only [measurable, Bool.not_true, Bool.false_and, Bool.false_eq_true, ↓reduceIte]
  exact ⟨_, rfl⟩

/-- A walk stops short only where characters must not be left out. -/
theorem walkSegments_finished_of_lenient {options : Options} (lenient : options.strict = false)
    (tokenizer : Tokenizer) (segments : List (Segment Nat)) (source : σ) :
    (tokenizer.walkSegments options segments source).uncovered = none := by
  cases stopped : (tokenizer.walkSegments options segments source).uncovered with
  | none => rfl
  | some place =>
      obtain ⟨isStrict, -⟩ := walkSegments_uncovered stopped
      simp [lenient] at isStrict

theorem walk_finished_of_lenient {options : Options} (lenient : options.strict = false)
    (tokenizer : Tokenizer) (text : Text) (source : σ) :
    (tokenizer.walk options text source).uncovered = none :=
  walkSegments_finished_of_lenient lenient tokenizer _ source

/-- A call that cannot fail gives the ids of its walk. -/
theorem runOn_tokenize_of_isUnfailing {options : Options} (unfailing : options.IsUnfailing)
    {supply : Supply σ} {desk : Desk σ} {source : σ}
    (begun : supply.begin? (options.seed.map Int.ofNat) desk.source = some source)
    (tokenizer : Tokenizer) (text : Text) :
    ∃ notices, (tokenizer.tokenize options text supply).runOn desk =
      (.ok ⟨text, (tokenizer.walk options text source).ids,
          (tokenizer.walk options text source).skipped⟩,
        ⟨(tokenizer.walk options text source).source, notices⟩) := by
  obtain ⟨notices, given⟩ := runOn_tokenize unfailing.measurable begun tokenizer text
  have finished := walk_finished_of_lenient unfailing.lenient tokenizer text source
  rw [outcome_of_unmarked unfailing.noBos unfailing.noEos finished] at given
  exact ⟨notices, given⟩

end Tokenizer

end Tessera
