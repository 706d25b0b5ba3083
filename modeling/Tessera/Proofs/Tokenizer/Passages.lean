import Tessera.Proofs.Computation
import Tessera.Proofs.Tokenizer.WalkTrace
import Tessera.Tokenizer.Tokenization

/-!
# Passages

A passage goes through a span in rounds. A round selects a token and moves on by its length, leaves a
character out, or fails. It does not ask whether it has moved, and a token without length would keep
it where it is for ever. The tokens that a text starts with have a length, so every passage ends, and
what it has done is what a walk does.
-/

set_option autoImplicit false

namespace Tessera.Tokenizer

variable {σ : Type}

/-- How a span is gone through: what is selected, whether the options allow anything to be selected,
and whether a character without a token is an error. -/
structure Manner (σ : Type) where
  choose : Text → σ → Option (Match Nat × σ)
  measurable : Bool
  strict : Bool

def Manner.walk (manner : Manner σ) (start : Nat) (span : Text) (source : σ) : Walk σ :=
  Walk.along manner.choose manner.strict 0 start span source

/-- How far a passage has come in a span, what it has done, and why it has failed, if it has. -/
structure Passage (σ : Type) where
  offset : Nat
  decisions : List Decision
  failure : Option Failure
  source : σ

namespace Passage

def initial (source : σ) : Passage σ := ⟨0, [], none, source⟩

/-- One more round, unless the passage has failed or come to the end of the span. -/
def round? (manner : Manner σ) (start : Nat) (span : Text) (passage : Passage σ) :
    Option (Passage σ) :=
  match passage.failure, span.drop passage.offset with
  | some _, _ => none
  | none, [] => none
  | none, c :: rest =>
    let place := start + passage.offset
    match manner.choose (c :: rest) passage.source with
    | some (token, next) =>
      if manner.measurable then
        some ⟨passage.offset + token.length, passage.decisions ++ [.emit place token], none, next⟩
      else some { passage with failure := some .unmeasurable }
    | none =>
      if manner.strict then some { passage with failure := some (.uncovered place c) }
      else some ⟨passage.offset + 1, passage.decisions ++ [.skip place c], none, passage.source⟩

/-- What a round can do. -/
inductive Round (manner : Manner σ) (start : Nat) (span : Text) : Passage σ → Passage σ → Prop where
  | emit {offset : Nat} {c : Char} {rest : Text} {decisions : List Decision} {source next : σ}
      {token : Match Nat} :
      span.drop offset = c :: rest → manner.choose (c :: rest) source = some (token, next) →
      manner.measurable = true →
      Round manner start span ⟨offset, decisions, none, source⟩
        ⟨offset + token.length, decisions ++ [.emit (start + offset) token], none, next⟩
  | unmeasurable {offset : Nat} {c : Char} {rest : Text} {decisions : List Decision}
      {source next : σ} {token : Match Nat} :
      span.drop offset = c :: rest → manner.choose (c :: rest) source = some (token, next) →
      manner.measurable = false →
      Round manner start span ⟨offset, decisions, none, source⟩
        ⟨offset, decisions, some .unmeasurable, source⟩
  | skip {offset : Nat} {c : Char} {rest : Text} {decisions : List Decision} {source : σ} :
      span.drop offset = c :: rest → manner.choose (c :: rest) source = none →
      manner.strict = false →
      Round manner start span ⟨offset, decisions, none, source⟩
        ⟨offset + 1, decisions ++ [.skip (start + offset) c], none, source⟩
  | uncovered {offset : Nat} {c : Char} {rest : Text} {decisions : List Decision} {source : σ} :
      span.drop offset = c :: rest → manner.choose (c :: rest) source = none →
      manner.strict = true →
      Round manner start span ⟨offset, decisions, none, source⟩
        ⟨offset, decisions, some (.uncovered (start + offset) c), source⟩

section

variable {manner : Manner σ} {start : Nat} {span : Text} {passage next : Passage σ}

theorem round_of_round? (more : round? manner start span passage = some next) :
    Round manner start span passage next := by
  obtain ⟨offset, decisions, failure, source⟩ := passage
  unfold round? at more
  split at more
  · cases more
  · cases more
  · next c rest notFailed here =>
      dsimp only at notFailed here more
      subst notFailed
      split at more
      · next token after selected =>
          split at more
          · next measurable =>
              cases more
              exact .emit here selected measurable
          · next unmeasurable =>
              cases more
              exact .unmeasurable here selected (Bool.not_eq_true _ ▸ unmeasurable)
      · next absent =>
          split at more
          · next strict =>
              cases more
              exact .uncovered here absent strict
          · next lenient =>
              cases more
              exact .skip here absent (Bool.not_eq_true _ ▸ lenient)

theorem round?_eq_none (stopped : round? manner start span passage = none) :
    passage.failure ≠ none ∨ span.drop passage.offset = [] := by
  unfold round? at stopped
  split at stopped
  · next failed =>
      left
      rw [failed]
      exact Option.some_ne_none _
  · next here => exact .inr here
  · split at stopped
    · split at stopped <;> cases stopped
    · split at stopped <;> cases stopped

/-! ## Progress -/

/-- How much of the span a passage has before it; nothing, if it has failed. -/
def left (span : Text) (passage : Passage σ) : Nat :=
  if passage.failure.isSome then 0 else span.length - passage.offset

/-- Each round moves on or fails, since a selected token has a length. -/
theorem Round.left_lt {vocabulary : Vocabulary} (sound : SoundChoice vocabulary manner.choose)
    (round : Round manner start span passage next) : left span next < left span passage := by
  have inside {offset : Nat} {c : Char} {rest : Text} (here : span.drop offset = c :: rest) :
      offset < span.length :=
    lt_length_of_occurs (List.cons_ne_nil c rest) (here ▸ List.prefix_rfl)
  cases round with
  | emit here selected _ =>
      have isToken := (sound _ _ _ _ selected).1
      have positive : 0 < _ := List.length_pos_iff.mpr isToken.nonempty
      have within := inside here
      simp only [left, Option.isSome_none, Bool.false_eq_true, ↓reduceIte, isToken.length_eq]
      omega
  | unmeasurable here =>
      have within := inside here
      simp only [left, Option.isSome_some, Option.isSome_none, Bool.false_eq_true, ↓reduceIte]
      omega
  | skip here =>
      have within := inside here
      simp only [left, Option.isSome_none, Bool.false_eq_true, ↓reduceIte]
      omega
  | uncovered here =>
      have within := inside here
      simp only [left, Option.isSome_some, Option.isSome_none, Bool.false_eq_true, ↓reduceIte]
      omega

/-! ## What a passage does -/

def result (passage : Passage σ) : List Decision × Option Failure × σ :=
  (passage.decisions, passage.failure, passage.source)

/-- What a passage gives that does what a walk does. It fails where the walk selects something for
the first time, if the options do not allow that. -/
def resultOf (measurable : Bool) (source : σ) (walk : Walk σ) : List Decision × Option Failure × σ :=
  if !measurable && walk.decisions.any Decision.isEmit then
    (walk.beforeSelection, some .unmeasurable, source)
  else
    (walk.decisions, walk.uncovered.map fun (position, c) => .uncovered position c, walk.source)

/-- What a passage will have done if it goes on like a walk. -/
def promised (manner : Manner σ) (start : Nat) (span : Text) (passage : Passage σ) :
    List Decision × Option Failure × σ :=
  match passage.failure with
  | some _ => passage.result
  | none =>
    let further := resultOf manner.measurable passage.source
      (manner.walk (start + passage.offset) (span.drop passage.offset) passage.source)
    (passage.decisions ++ further.1, further.2)

theorem resultOf_after_emit (source : σ) (walk : Walk σ) (place : Nat) (token : Match Nat) :
    resultOf true source (walk.after (.emit place token)) =
      (.emit place token :: walk.decisions,
        walk.uncovered.map fun (position, c) => .uncovered position c, walk.source) := rfl

theorem resultOf_after_skip (measurable : Bool) (source : σ) (walk : Walk σ) (place : Nat)
    (c : Char) :
    resultOf measurable source (walk.after (.skip place c)) =
      (.skip place c :: (resultOf measurable source walk).1,
        (resultOf measurable source walk).2) := by
  have selects : (walk.after (.skip place c)).decisions.any Decision.isEmit =
      walk.decisions.any Decision.isEmit := by
    simp [Walk.after, Decision.isEmit]
  unfold resultOf
  rw [selects]
  split
  · simp [Walk.beforeSelection, Walk.after, Decision.isEmit]
  · rfl

/-- A round does what was promised. -/
theorem Round.promised_eq {vocabulary : Vocabulary} (sound : SoundChoice vocabulary manner.choose)
    (round : Round manner start span passage next) :
    promised manner start span next = promised manner start span passage := by
  cases round with
  | @emit offset c rest decisions source after token here selected measurable =>
      obtain ⟨isToken, behind, divided⟩ := sound _ _ _ _ selected
      have further : span.drop (offset + token.length) = behind := by
        rw [← List.drop_drop, here, ← divided, isToken.length_eq, List.drop_left]
      rw [← divided] at here selected
      simp only [promised, measurable, here, further, Manner.walk]
      rw [along_selected isToken selected, resultOf_after_emit, isToken.length_eq, Nat.add_assoc]
      simp [resultOf]
  | @unmeasurable offset c rest decisions source after token here selected unmeasurable =>
      simp [promised, result, here, unmeasurable, Manner.walk, Walk.along, selected, resultOf,
        Walk.after, Walk.beforeSelection, Decision.isEmit]
  | @skip offset c rest decisions source here absent lenient =>
      have further : span.drop (offset + 1) = rest := by
        rw [← List.drop_drop, here, List.drop_one, List.tail_cons]
      have walked : Walk.along manner.choose manner.strict 0 (start + offset) (c :: rest) source =
          (Walk.along manner.choose manner.strict 0 (start + offset + 1) rest source).after
            (.skip (start + offset) c) := by
        simp only [Walk.along, absent, lenient, Bool.false_eq_true, ↓reduceIte]
      simp only [promised, here, further, Manner.walk, walked, resultOf_after_skip, Nat.add_assoc,
        List.append_assoc, List.singleton_append]
  | @uncovered offset c rest decisions source here absent strict =>
      simp [promised, result, here, Manner.walk, Walk.along, absent, strict, resultOf]

theorem promised_of_stopped (stopped : round? manner start span passage = none) :
    promised manner start span passage = passage.result := by
  obtain ⟨offset, decisions, failure, source⟩ := passage
  cases failure with
  | some failure => rfl
  | none =>
      have ended : span.drop offset = [] := by simpa using round?_eq_none stopped
      simp [promised, result, ended, Manner.walk, Walk.along, resultOf]

theorem progresses_round? {vocabulary : Vocabulary} (sound : SoundChoice vocabulary manner.choose)
    (due : List Decision × Option Failure × σ) :
    Loop.Progresses (round? manner start span) (fun passage => promised manner start span passage = due)
      (left span) where
  keeps kept more := ((round_of_round? more).promised_eq sound).trans kept
  lowers _ more := (round_of_round? more).left_lt sound

end

/-- Whether the passage through a span ends, after one round for each character at most, and does what
a walk does. -/
def Completes (manner : Manner σ) (start : Nat) (span : Text) (source : σ) : Prop :=
  ∃ last, Loop.EndsWithin (round? manner start span) span.length (initial source) last ∧
    last.result = resultOf manner.measurable source (manner.walk start span source)

/-- Every passage under a sound choice completes. -/
theorem completes {vocabulary : Vocabulary} {manner : Manner σ}
    (sound : SoundChoice vocabulary manner.choose) (start : Nat) (span : Text) (source : σ) :
    Completes manner start span source := by
  have progresses : Loop.Progresses (round? manner start span)
      (promised manner start span · = promised manner start span (initial source)) (left span) :=
    progresses_round? sound _
  obtain ⟨last, ended, kept, stopped⟩ := progresses.exists_endsWithin (initial source) rfl
  refine ⟨last, ended, ?_⟩
  rw [← promised_of_stopped stopped, kept]
  rfl

/-- A choice of tokens without length keeps a passage at its start. -/
theorem not_ends_of_no_extent {manner : Manner σ} (measurable : manner.measurable = true)
    (noExtent : ∀ text source, ∃ token next,
      manner.choose text source = some (token, next) ∧ token.length = 0)
    (start : Nat) {span : Text} (nonempty : span ≠ []) (source : σ) {rounds : Nat}
    {last : Passage σ} : ¬ Loop.Ends (round? manner start span) rounds (initial source) last := by
  apply Loop.not_ends_of_endless fun passage : Passage σ =>
    passage.failure = none ∧ passage.offset = 0
  · rintro ⟨offset, decisions, failure, source⟩ ⟨notFailed, atStart⟩
    dsimp only at notFailed atStart
    subst notFailed atStart
    obtain ⟨c, rest, rfl⟩ := List.exists_cons_of_ne_nil nonempty
    obtain ⟨token, next, selected, extent⟩ := noExtent (c :: rest) source
    simp [round?, selected, measurable, extent]
  · exact ⟨rfl, rfl⟩

end Passage

end Tessera.Tokenizer
