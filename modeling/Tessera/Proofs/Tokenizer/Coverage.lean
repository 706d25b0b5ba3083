import Mathlib.Data.List.Basic
import Tessera.Proofs.Tokenizer.WalkTrace
import Tessera.Text.Basic

/-!
# Covered texts

What the decisions of a walk cover, and what is left of a text without the characters that they do not.
-/

set_option autoImplicit false

/-! ## Deletion

A text without the characters at some offsets. All others are kept, in their order.
-/

namespace Tessera.Text

/-- Leaves out the characters at some offsets. The first character stands at offset `start`. -/
def withoutFrom (offsets : List Nat) (start : Nat) : Text → Text
  | [] => []
  | c :: rest =>
    if start ∈ offsets then withoutFrom offsets (start + 1) rest
    else c :: withoutFrom offsets (start + 1) rest

def without (offsets : List Nat) (text : Text) : Text := withoutFrom offsets 0 text

theorem withoutFrom_append (offsets : List Nat) (start : Nat) (front back : Text) :
    withoutFrom offsets start (front ++ back) =
      withoutFrom offsets start front ++ withoutFrom offsets (start + front.length) back := by
  induction front generalizing start with
  | nil => rfl
  | cons c rest ih =>
      have same : start + (c :: rest).length = start + 1 + rest.length := by
        simp only [List.length_cons]
        omega
      by_cases deleted : start ∈ offsets <;>
        simp only [List.cons_append, withoutFrom, deleted, ↓reduceIte, ih, same]

theorem withoutFrom_eq_self {offsets : List Nat} (start : Nat) (text : Text)
    (behind : ∀ offset ∈ offsets, start + text.length ≤ offset) :
    withoutFrom offsets start text = text := by
  induction text generalizing start with
  | nil => rfl
  | cons c rest ih =>
      simp only [List.length_cons] at behind
      have kept : start ∉ offsets := by
        intro deleted
        have := behind start deleted
        omega
      have further := ih (start + 1) (fun offset member => by
        have := behind offset member
        omega)
      simp only [withoutFrom, kept, ↓reduceIte, further]

theorem withoutFrom_cons_of_lt {offset start : Nat} (offsets : List Nat) (text : Text)
    (before : offset < start) :
    withoutFrom (offset :: offsets) start text = withoutFrom offsets start text := by
  induction text generalizing start with
  | nil => rfl
  | cons c rest ih =>
      have apart : start ≠ offset := by omega
      simp only [withoutFrom, List.mem_cons, apart, false_or, ih (Nat.lt_succ_of_lt before)]

theorem length_withoutFrom_le (offsets : List Nat) (start : Nat) (text : Text) :
    (withoutFrom offsets start text).length ≤ text.length := by
  induction text generalizing start with
  | nil => exact Nat.le_refl _
  | cons c rest ih =>
      have further := ih (start + 1)
      rw [withoutFrom]
      split <;> simp only [List.length_cons] <;> omega

theorem length_withoutFrom_lt {offsets : List Nat} {start offset : Nat} {text : Text}
    (deleted : offset ∈ offsets) (behind : start ≤ offset) (inside : offset < start + text.length) :
    (withoutFrom offsets start text).length < text.length := by
  induction text generalizing start with
  | nil =>
      rw [List.length_nil] at inside
      omega
  | cons c rest ih =>
      rw [List.length_cons] at inside ⊢
      rw [withoutFrom]
      split
      · exact Nat.lt_succ_of_le (length_withoutFrom_le offsets (start + 1) rest)
      · next kept =>
          have apart : start ≠ offset := fun same => kept (same ▸ deleted)
          exact Nat.succ_lt_succ (ih (by omega) (by omega))

/-- Only the offsets inside a text count. -/
theorem withoutFrom_congr {offsets others : List Nat} {start : Nat} {text : Text}
    (same : ∀ offset < start + text.length, offset ∈ offsets ↔ offset ∈ others) :
    withoutFrom offsets start text = withoutFrom others start text := by
  induction text generalizing start with
  | nil => rfl
  | cons c rest ih =>
      simp only [List.length_cons] at same
      have further : withoutFrom offsets (start + 1) rest = withoutFrom others (start + 1) rest :=
        ih fun offset inside => same offset (by omega)
      simp only [withoutFrom, same start (by omega), further]

/-- Further on more is kept of a text, if a kept character stands in between. -/
theorem length_without_take_lt {text : Text} {offsets : List Nat} {place further : Nat}
    (ahead : place < further) (inside : place < text.length) (kept : place ∉ offsets) :
    (without offsets (text.take place)).length < (without offsets (text.take further)).length := by
  obtain ⟨gap, rfl⟩ := Nat.exists_eq_add_of_lt ahead
  have asLong : (text.take place).length = place := by
    rw [List.length_take]
    omega
  have divided : text.take (place + gap + 1) =
      text.take place ++ text[place] :: (text.drop (place + 1)).take gap := by
    rw [Nat.add_assoc, List.take_add, List.drop_eq_getElem_cons inside, List.take_succ_cons]
  rw [divided, without, without, withoutFrom_append, Nat.zero_add, asLong, withoutFrom,
    if_neg kept]
  simp only [List.length_append, List.length_cons]
  omega

end Tessera.Text

/-! ## Coverage

The decisions of a walk cover the text piece by piece: a piece is a token, a special text or a
single character that is left out. What the ids of the decisions decode to follows from that alone.
-/

namespace Tessera.Tokenizer

variable {σ : Type}

/-- Decisions on consecutive pieces of a text, the first of which starts at an offset. -/
inductive Covers (vocabulary : Vocabulary) : Nat → Text → List Decision → Prop where
  | done {position : Nat} : Covers vocabulary position [] []
  | emit {position : Nat} {rest : Text} {token : Match Nat} {decisions : List Decision} :
      token.IsToken vocabulary →
      Covers vocabulary (position + token.text.length) rest decisions →
      Covers vocabulary position (token.text ++ rest) (.emit position token :: decisions)
  | preserve {position id : Nat} {special rest : Text} {decisions : List Decision} :
      vocabulary.tokens[id]? = some special → special ≠ [] →
      Covers vocabulary (position + special.length) rest decisions →
      Covers vocabulary position (special ++ rest) (.preserve position id :: decisions)
  | skip {position : Nat} {c : Char} {rest : Text} {decisions : List Decision} :
      Covers vocabulary (position + 1) rest decisions →
      Covers vocabulary position (c :: rest) (.skip position c :: decisions)

theorem Trace.covers {vocabulary : Vocabulary} {choose : Text → σ → Option (Match Nat × σ)}
    (sound : SoundChoice vocabulary choose) {position : Nat} {text : Text} {source last : σ}
    {decisions : List Decision} (trace : Trace choose position text source decisions last) :
    Covers vocabulary position text decisions := by
  induction trace with
  | done => exact .done
  | emit selected _ ih => exact .emit (sound _ _ _ _ selected).1 ih
  | skip _ _ ih => exact .skip ih

theorem Covers.append {vocabulary : Vocabulary} {position : Nat} {front back : Text}
    {first second : List Decision} (covers : Covers vocabulary position front first)
    (further : Covers vocabulary (position + front.length) back second) :
    Covers vocabulary position (front ++ back) (first ++ second) := by
  induction covers with
  | done => simpa using further
  | emit isToken _ ih =>
      rw [List.append_assoc]
      exact .emit isToken (ih (by simpa [Nat.add_assoc] using further))
  | preserve held nonempty _ ih =>
      rw [List.append_assoc]
      exact .preserve held nonempty (ih (by simpa [Nat.add_assoc] using further))
  | @skip position c rest _ _ ih =>
      have same : position + (c :: rest).length = position + 1 + rest.length := by
        simp only [List.length_cons]
        omega
      exact .skip (ih (by rwa [← same]))

/-! ### Walks through segments -/

/-- Segments whose special texts are tokens under their ids. -/
def Labelled (vocabulary : Vocabulary) (segments : List (Segment Nat)) : Prop :=
  ∀ segment ∈ segments, ∀ id, segment.special = some id →
    vocabulary.tokens[id]? = some segment.text ∧ segment.text ≠ []

theorem segments_tiles (tokenizer : Tokenizer) (options : Options) (text : Text) :
    Tiles 0 text (tokenizer.segments options text) ∧
      Labelled tokenizer.vocabulary (tokenizer.segments options text) := by
  have registers : SpecialIndex.Registers tokenizer.vocabulary
      (if options.preserveSpecial then tokenizer.special else []) := by
    split
    · exact tokenizer.special_eq ▸ SpecialIndex.ofVocabulary_registers tokenizer.vocabulary
    · simp [SpecialIndex.Registers]
  have filled := fun entry member => (registers entry member).1
  refine ⟨SpecialIndex.split_tiles _ text filled, ?_⟩
  intro segment member id special
  obtain ⟨nonempty, held⟩ := registers _ (SpecialIndex.mem_of_special filled member special).1
  exact ⟨held, nonempty⟩

theorem Traces.covers {vocabulary : Vocabulary} {choose : Text → σ → Option (Match Nat × σ)}
    (sound : SoundChoice vocabulary choose) {segments : List (Segment Nat)} {source last : σ}
    {decisions : List Decision} (traces : Traces choose segments source decisions last)
    {start : Nat} {text : Text} (tiles : Tiles start text segments)
    (labelled : Labelled vocabulary segments) : Covers vocabulary start text decisions := by
  induction traces generalizing start text with
  | done =>
      cases tiles
      exact .done
  | special special _ ih =>
      cases tiles with
      | cons behind =>
          obtain ⟨held, nonempty⟩ := labelled _ (.head _) _ special
          exact .preserve held nonempty
            (ih behind fun segment member => labelled segment (.tail _ member))
  | plain _ trace _ ih =>
      cases tiles with
      | cons behind =>
          exact (trace.covers sound).append
            (ih behind fun segment member => labelled segment (.tail _ member))

theorem walk_covers [RandomSource σ] (tokenizer : Tokenizer) (options : Options) (text : Text)
    (source : σ) (finished : (tokenizer.walk options text source).uncovered = none) :
    Covers tokenizer.vocabulary 0 text (tokenizer.walk options text source).decisions := by
  obtain ⟨tiles, labelled⟩ := segments_tiles tokenizer options text
  exact (walk_traces finished).covers (choose_sound tokenizer options) tiles labelled

theorem Covers.getElem?_of_skip {vocabulary : Vocabulary} {position place : Nat} {c : Char}
    {text : Text} {decisions : List Decision} (covers : Covers vocabulary position text decisions)
    (skipped : Decision.skip place c ∈ decisions) :
    position ≤ place ∧ text[place - position]? = some c := by
  -- What stands further on in the rest stands behind a piece in the text.
  have behind {piece rest : Text} {start : Nat}
      (found : start + piece.length ≤ place ∧ rest[place - (start + piece.length)]? = some c) :
      start ≤ place ∧ (piece ++ rest)[place - start]? = some c := by
    obtain ⟨after, stands⟩ := found
    refine ⟨by omega, ?_⟩
    rw [List.getElem?_append_right (by omega), Nat.sub_sub]
    exact stands
  induction covers with
  | done => cases skipped
  | emit _ _ ih =>
      cases skipped with
      | tail _ further => exact behind (ih further)
  | preserve _ _ _ ih =>
      cases skipped with
      | tail _ further => exact behind (ih further)
  | @skip position d rest _ _ ih =>
      cases skipped with
      | head => simp
      | tail _ further => exact @behind [d] rest position (ih further)

theorem Covers.isToken_of_id {vocabulary : Vocabulary} {position : Nat} {text : Text}
    {decisions : List Decision} (covers : Covers vocabulary position text decisions) {id : Nat}
    (member : id ∈ decisions.filterMap Decision.id?) :
    ∃ token, vocabulary.tokens[id]? = some token ∧ token ≠ [] := by
  induction covers with
  | done => simp at member
  | emit isToken _ ih =>
      simp only [List.filterMap_cons, Decision.id?, List.mem_cons] at member
      rcases member with rfl | member
      · exact ⟨_, isToken.token_eq, isToken.nonempty⟩
      · exact ih member
  | preserve held nonempty _ ih =>
      simp only [List.filterMap_cons, Decision.id?, List.mem_cons] at member
      rcases member with rfl | member
      · exact ⟨_, held, nonempty⟩
      · exact ih member
  | skip _ ih => exact ih member

/-! ### What the ids decode to -/

theorem Covers.le_of_skipped {vocabulary : Vocabulary} {position offset : Nat} {text : Text}
    {decisions : List Decision} (covers : Covers vocabulary position text decisions)
    (skipped : offset ∈ decisions.filterMap Decision.skipped?) : position ≤ offset := by
  induction covers with
  | done => simp at skipped
  | emit _ _ ih => exact Nat.le_trans (Nat.le_add_right _ _) (ih skipped)
  | preserve _ _ _ ih => exact Nat.le_trans (Nat.le_add_right _ _) (ih skipped)
  | skip _ ih =>
      simp only [List.filterMap_cons, Decision.skipped?, List.mem_cons] at skipped
      rcases skipped with rfl | skipped
      · exact Nat.le_refl _
      · exact Nat.le_of_succ_le (ih skipped)

theorem decode_cons (vocabulary : Vocabulary) (id : Nat) (ids : List Nat) :
    vocabulary.decode ((id :: ids).map Int.ofNat) =
      (vocabulary.tokens[id]?).getD [] ++ vocabulary.decode (ids.map Int.ofNat) := rfl

theorem decode_append (vocabulary : Vocabulary) (front back : List Nat) :
    vocabulary.decode ((front ++ back).map Int.ofNat) =
      vocabulary.decode (front.map Int.ofNat) ++ vocabulary.decode (back.map Int.ofNat) := by
  simp [Vocabulary.decode]

/-- The ids decode to the text without the characters that were left out. -/
theorem Covers.decode_eq {vocabulary : Vocabulary} {position : Nat} {text : Text}
    {decisions : List Decision} (covers : Covers vocabulary position text decisions) :
    vocabulary.decode ((decisions.filterMap Decision.id?).map Int.ofNat) =
      text.withoutFrom (decisions.filterMap Decision.skipped?) position := by
  induction covers with
  | done => rfl
  | emit isToken further ih =>
      simp only [List.filterMap_cons, Decision.id?, Decision.skipped?, decode_cons, ih,
        isToken.token_eq, Option.getD_some, Text.withoutFrom_append]
      rw [Text.withoutFrom_eq_self _ _ fun offset skipped => further.le_of_skipped skipped]
  | preserve held _ further ih =>
      simp only [List.filterMap_cons, Decision.id?, Decision.skipped?, decode_cons, ih, held,
        Option.getD_some, Text.withoutFrom_append]
      rw [Text.withoutFrom_eq_self _ _ fun offset skipped => further.le_of_skipped skipped]
  | skip _ ih =>
      simp only [List.filterMap_cons, Decision.id?, Decision.skipped?, ih, Text.withoutFrom,
        List.mem_cons, true_or, ↓reduceIte]
      exact (Text.withoutFrom_cons_of_lt _ _ (Nat.lt_succ_self _)).symm

theorem Covers.decode_eq_self {vocabulary : Vocabulary} {position : Nat} {text : Text}
    {decisions : List Decision} (covers : Covers vocabulary position text decisions)
    (lossless : decisions.filterMap Decision.skipped? = []) :
    vocabulary.decode ((decisions.filterMap Decision.id?).map Int.ofNat) = text := by
  rw [covers.decode_eq, lossless]
  exact Text.withoutFrom_eq_self _ _ (by simp)

end Tessera.Tokenizer
