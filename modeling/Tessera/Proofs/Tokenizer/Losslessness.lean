import Tessera.Inspection.Basic
import Tessera.Proofs.Tokenizer.Uncovered

/-!
# Lossless results

A result is flagged as lossless if no character was left out, and an inspection says whether the texts
of the tokens make up the text. The text of a mark is not part of the text that was tokenized, so the
two agree where no mark has a text, and may differ where one has.
-/

set_option autoImplicit false

namespace Tessera.Tokenizer

variable {σ : Type} [RandomSource σ]

/-! ## Inspections -/

theorem flatten_pieces_inspectionOf (tokenizer : Tokenizer) (result : Tokenization) :
    (tokenizer.inspectionOf result).pieces.flatten =
      tokenizer.detokenize (result.ids.map Int.ofNat) := by
  simp only [inspectionOf, Inspection.pieces, detokenize, Vocabulary.decode, List.map_map,
    List.flatMap_def]
  rfl

theorem roundTrips_inspectionOf_iff {tokenizer : Tokenizer} {result : Tokenization} :
    (tokenizer.inspectionOf result).roundTrips = true ↔
      tokenizer.detokenize (result.ids.map Int.ofNat) = result.text := by
  rw [Inspection.roundTrips, decide_eq_true_eq, flatten_pieces_inspectionOf]
  rfl

/-! ## Calls -/

section

variable {tokenizer : Tokenizer} {options : Options} {text : Text} {supply : Supply σ}
  {desk after : Desk σ} {result : Tokenization}
  (returned : (tokenizer.tokenize options text supply).runOn desk = (.ok result, after))

include returned

theorem runOn_inspect : (tokenizer.inspect text options supply).runOn desk =
    (.ok (tokenizer.inspectionOf result), after) :=
  Computation.outcome_bind_eq_ok_iff.mpr ⟨result, after, returned, rfl⟩

theorem text_eq_of_tokenize : result.text = text := by
  obtain ⟨_, _, _, _, _, _, rfl⟩ := exists_walk_of_tokenize returned
  rfl

/-- A result is lossless exactly if what was not left out is the whole text. -/
theorem isLossless_iff_without_eq :
    result.isLossless = true ↔ text.without result.skipped = text := by
  obtain ⟨source, finished, _, _, _, _, rfl⟩ := exists_walk_of_tokenize returned
  rw [Tokenization.isLossless, List.isEmpty_iff]
  constructor
  · intro noneSkipped
    rw [noneSkipped]
    exact Text.withoutFrom_eq_self _ _ (by simp)
  · intro whole
    rw [List.eq_nil_iff_forall_not_mem]
    intro place skipped
    have covers := walk_covers tokenizer options text source finished
    have shorter := Text.length_withoutFrom_lt skipped (Nat.zero_le _) (covers.lt_of_skipped skipped)
    exact absurd (congrArg List.length whole) (Nat.ne_of_lt shorter)

end

/-- Whether a mark that is asked for has a text. -/
def MarksShow (tokenizer : Tokenizer) (options : Options) : Prop :=
  markText tokenizer.vocabulary options.addBos tokenizer.vocabulary.bos ++
    markText tokenizer.vocabulary options.addEos tokenizer.vocabulary.eos ≠ []

/-- An inspection tells whether the ids decode to the text. The flag of the result tells the same if no
mark shows. If one does, a result that is flagged as lossless never decodes to the text. -/
theorem flags_of_tokenize (tokenizer : Tokenizer) (options : Options) (text : Text)
    (supply : Supply σ) (desk after : Desk σ) (result : Tokenization)
    (returned : (tokenizer.tokenize options text supply).runOn desk = (.ok result, after)) :
    ∃ inspection, (tokenizer.inspect text options supply).runOn desk = (.ok inspection, after) ∧
      (inspection.roundTrips = true ↔ tokenizer.detokenize (result.ids.map Int.ofNat) = text) ∧
      (¬ tokenizer.MarksShow options →
        (result.isLossless = true ↔ tokenizer.detokenize (result.ids.map Int.ofNat) = text) ∧
        inspection.roundTrips = result.isLossless) ∧
      (tokenizer.MarksShow options → result.isLossless = true →
        tokenizer.detokenize (result.ids.map Int.ofNat) ≠ text) := by
  have decoded := detokenize_tokenize tokenizer options text supply desk after result returned
  have losslessIff := isLossless_iff_without_eq returned
  have roundTrips : (tokenizer.inspectionOf result).roundTrips = true ↔
      tokenizer.detokenize (result.ids.map Int.ofNat) = text := by
    rw [roundTrips_inspectionOf_iff, text_eq_of_tokenize returned]
  refine ⟨_, runOn_inspect returned, roundTrips, fun unmarked => ?_, fun marked lossless whole => ?_⟩
  · obtain ⟨noBos, noEos⟩ := List.append_eq_nil_iff.mp (not_not.mp unmarked)
    rw [noBos, noEos, List.nil_append, List.append_nil] at decoded
    have flag : result.isLossless = true ↔
        tokenizer.detokenize (result.ids.map Int.ofNat) = text := by
      rw [losslessIff, decoded]
    exact ⟨flag, Bool.eq_iff_iff.mpr (roundTrips.trans flag.symm)⟩
  · rw [decoded, losslessIff.mp lossless] at whole
    have asLong := congrArg List.length whole
    simp only [List.length_append] at asLong
    refine marked (List.length_eq_zero_iff.mp ?_)
    rw [List.length_append]
    omega

/-- A mark may be an empty text: it does not show, so the flag counts the character that is left out. A
mark that shows makes a text which is flagged as lossless decode to more than itself. -/
theorem flags_of_tokenize_with_empty_mark :
    let tokenizer := ofVocabulary {
      tokens := #[[], ['a'], "</s>".toList]
      merges := none
      bos := some 0
      eos := some 2
      modelType := none
      specialIds := []
      bos_lt_size := by decide
      eos_lt_size := by decide
      specialIds_lt_size := by decide }
    let desk : Desk Script := Desk.fresh ⟨[], [], 0, 0⟩
    let begun := { Options.ofStrategy .longest with addBos := true }
    let ended := { Options.ofStrategy .longest with addEos := true }
    let lossy : Tokenization := ⟨"a?".toList, [0, 1], [1]⟩
    let lossless : Tokenization := ⟨"a".toList, [1, 2], []⟩
    (∃ after, (tokenizer.tokenize begun lossy.text .current).runOn desk = (.ok lossy, after) ∧
      ¬ tokenizer.MarksShow begun ∧ lossy.isLossless = false ∧
      tokenizer.detokenize (lossy.ids.map Int.ofNat) ≠ lossy.text) ∧
    ∃ after, (tokenizer.tokenize ended lossless.text .current).runOn desk = (.ok lossless, after) ∧
      tokenizer.MarksShow ended ∧ lossless.isLossless = true ∧
      tokenizer.detokenize (lossless.ids.map Int.ofNat) ≠ lossless.text := by
  intro tokenizer desk begun ended lossy lossless
  have hidden : ¬ tokenizer.MarksShow begun := not_not_intro rfl
  have shown : tokenizer.MarksShow ended := by
    unfold MarksShow
    decide
  refine ⟨⟨_, rfl, hidden, rfl, ?_⟩, ⟨_, rfl, shown, rfl, ?_⟩⟩
  · obtain ⟨_, -, -, agree, -⟩ :=
      flags_of_tokenize tokenizer begun lossy.text .current desk _ lossy rfl
    exact fun whole => absurd ((agree hidden).1.mpr whole) (by decide)
  · obtain ⟨_, -, -, -, differ⟩ :=
      flags_of_tokenize tokenizer ended lossless.text .current desk _ lossless rfl
    exact differ shown rfl

/-- The flag says nothing of marks: a result flagged as lossless decodes to more than the text. And
where marks make up for what was left out, a result that is not flagged decodes to the text. -/
theorem flag_passes_over_marks :
    let tokenizer := ofVocabulary {
      tokens := #["ab".toList, "aba".toList]
      merges := none
      bos := some 0
      eos := none
      modelType := none
      specialIds := [1]
      bos_lt_size := by decide
      eos_lt_size := by decide
      specialIds_lt_size := by decide }
    let desk : Desk Script := Desk.fresh ⟨[], [], 0, 0⟩
    let options := { Options.ofStrategy .longest with addBos := true }
    let lossless : Tokenization := ⟨"aba".toList, [0, 1], []⟩
    let lossy : Tokenization := ⟨"ababa".toList, [0, 1], [3, 4]⟩
    ((∃ after, (tokenizer.tokenize options lossless.text .current).runOn desk =
        (.ok lossless, after)) ∧
      ¬ (lossless.isLossless = true ↔
        tokenizer.detokenize (lossless.ids.map Int.ofNat) = lossless.text) ∧
      (tokenizer.inspectionOf lossless).roundTrips ≠ lossless.isLossless) ∧
    ((∃ after, (tokenizer.tokenize options lossy.text .current).runOn desk = (.ok lossy, after)) ∧
      ¬ (lossy.isLossless = true ↔
        tokenizer.detokenize (lossy.ids.map Int.ofNat) = lossy.text) ∧
      (tokenizer.inspectionOf lossy).roundTrips ≠ lossy.isLossless) := by
  refine ⟨⟨⟨_, rfl⟩, ?_, ?_⟩, ⟨⟨_, rfl⟩, ?_, ?_⟩⟩ <;> decide

end Tessera.Tokenizer
