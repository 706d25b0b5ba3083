import Tessera.Proofs.Compression.Monotonicity
import Tessera.Proofs.Compression.Results

/-!
# The finest pieces of a text

A text is cut no finer than into its special texts and the single characters between them. No walk
gives more ids than there are such pieces, and if each character is a token, the shortest tokens are
those pieces.
-/

set_option autoImplicit false

namespace Tessera

/-- A special segment is one piece, and each character of a plain one is a piece. -/
def Segment.finest (segment : Segment Nat) : List Text :=
  match segment.special with
  | some _ => [segment.text]
  | none => segment.text.map fun c => [c]

namespace Tokenizer

def finestPieces (tokenizer : Tokenizer) (text : Text) : List Text :=
  (tokenizer.segments .default text).flatMap Segment.finest

variable {σ : Type}

/-! ## No walk gives more -/

section

variable {vocabulary : Vocabulary} {choose : Text → σ → Option (Match Nat × σ)}
  (sound : SoundChoice vocabulary choose) {source last : σ} {decisions : List Decision}

include sound

theorem Trace.length_ids_le {position : Nat} {text : Text}
    (trace : Trace choose position text source decisions last) :
    (decisions.filterMap Decision.id?).length ≤ text.length := by
  induction trace with
  | done => exact Nat.le_refl _
  | emit selected _ ih =>
      have nonempty := List.length_pos_iff.mpr (sound _ _ _ _ selected).1.nonempty
      simp only [List.filterMap_cons, Decision.id?, List.length_cons, List.length_append]
      omega
  | skip _ _ ih => exact Nat.le_succ_of_le ih

theorem Traces.length_ids_le {segments : List (Segment Nat)}
    (traces : Traces choose segments source decisions last) :
    (decisions.filterMap Decision.id?).length ≤ (segments.flatMap Segment.finest).length := by
  induction traces with
  | done => exact Nat.le_refl _
  | special special _ ih =>
      simp only [List.flatMap_cons, Segment.finest, special]
      exact Nat.succ_le_succ ih
  | plain plain trace _ ih =>
      have within := trace.length_ids_le sound
      simp only [List.flatMap_cons, Segment.finest, plain, List.filterMap_append,
        List.length_append, List.length_map]
      omega

end

variable [RandomSource σ] {tokenizer : Tokenizer} {options : Options} {text : Text}
  {source last : σ} {decisions : List Decision}

theorem length_ids_le_finestPieces (whole : options.preserveSpecial = true)
    (finished : (tokenizer.walk options text source).uncovered = none) :
    (tokenizer.walk options text source).ids.length ≤ (tokenizer.finestPieces text).length := by
  have traces := walk_traces finished
  rw [segments_of_preserveSpecial whole] at traces
  exact traces.length_ids_le (choose_sound tokenizer options)

/-! ## The shortest tokens -/

section

variable (byShortest : options.strategy = .shortest) (whole : options.preserveSpecial = true)

include byShortest whole

theorem Trace.pieces_of_characters {position : Nat}
    (characters : ∀ c ∈ text, [c] ∈ tokenizer.vocabulary.tokens)
    (trace : Trace (tokenizer.choose options) position text source decisions last) :
    (decisions.filterMap Decision.id?).map tokenizer.piece = text.map fun c => [c] := by
  induction trace with
  | done => rfl
  | @emit _ rest _ _ _ token _ selected _ ih =>
      have isToken := (choose_sound tokenizer options _ _ _ _ selected).1
      have others := ih fun c member => characters c (List.mem_append_right _ member)
      obtain ⟨c, further, spelled⟩ := List.exists_cons_of_ne_nil isToken.nonempty
      rw [spelled] at characters
      have single := isShortest_of_choose byShortest whole selected [c] (characters c (.head _))
        (List.cons_ne_nil _ _) (spelled ▸ List.prefix_append [c] (further ++ rest))
      obtain rfl : further = [] := List.length_eq_zero_iff.mp (by simpa [spelled] using single)
      simp only [List.filterMap_cons, Decision.id?, List.map_cons, others, spelled,
        piece_eq_of_isToken isToken, List.singleton_append]
  | @skip _ c rest _ _ _ absent _ _ =>
      have matched : tokenizer.vocabulary.Matches (c :: rest) :=
        ⟨[c], characters c (.head _), List.cons_ne_nil _ _, List.prefix_append [c] rest⟩
      exact absurd matched (choose_eq_none_iff.mp absent)

theorem Traces.pieces_of_characters {segments : List (Segment Nat)}
    (labelled : Labelled tokenizer.vocabulary segments)
    (characters : ∀ segment ∈ segments, ∀ c ∈ segment.text, [c] ∈ tokenizer.vocabulary.tokens)
    (traces : Traces (tokenizer.choose options) segments source decisions last) :
    (decisions.filterMap Decision.id?).map tokenizer.piece = segments.flatMap Segment.finest := by
  induction traces with
  | done => rfl
  | @special segment id _ _ _ _ special _ ih =>
      have behind := ih (fun other member => labelled other (.tail _ member))
        fun other member => characters other (.tail _ member)
      have held : tokenizer.vocabulary.token? id = some segment.text :=
        (labelled segment (.head _) id special).1
      simp only [List.filterMap_cons, Decision.id?, List.map_cons, behind, List.flatMap_cons,
        Segment.finest, special, piece, held, Option.getD_some, List.singleton_append]
  | @plain segment _ _ _ _ _ _ plain trace _ ih =>
      have behind := ih (fun other member => labelled other (.tail _ member))
        fun other member => characters other (.tail _ member)
      have here := trace.pieces_of_characters byShortest whole (characters segment (.head _))
      simp only [List.filterMap_append, List.map_append, here, behind, List.flatMap_cons,
        Segment.finest, plain]

theorem pieces_eq_finestPieces (characters : ∀ c ∈ text, [c] ∈ tokenizer.vocabulary.tokens)
    (finished : (tokenizer.walk options text source).uncovered = none) :
    (tokenizer.walk options text source).ids.map tokenizer.piece = tokenizer.finestPieces text := by
  have traces := walk_traces finished
  rw [segments_of_preserveSpecial whole] at traces
  refine traces.pieces_of_characters byShortest whole (segments_tiles tokenizer .default text).2 ?_
  intro segment member c listed
  exact characters c (List.mem_of_mem_drop ((prefix_of_mem_segments member).subset listed))

end

/-! ## Calls -/

theorem count_le_of_tokenize {supply : Supply σ} {desk after : Desk σ} {result : Tokenization}
    (whole : options.preserveSpecial = true) (noBos : options.addBos = false)
    (noEos : options.addEos = false)
    (returned : (tokenizer.tokenize options text supply).runOn desk = (.ok result, after)) :
    result.count ≤ (tokenizer.finestPieces text).length := by
  obtain ⟨source, finished, rfl⟩ := exists_walk_of_unmarked noBos noEos returned
  exact length_ids_le_finestPieces whole finished

theorem pieces_of_tokenize {supply : Supply σ} {desk after : Desk σ} {result : Tokenization}
    (byShortest : options.strategy = .shortest) (whole : options.preserveSpecial = true)
    (noBos : options.addBos = false) (noEos : options.addEos = false)
    (characters : ∀ c ∈ text, [c] ∈ tokenizer.vocabulary.tokens)
    (returned : (tokenizer.tokenize options text supply).runOn desk = (.ok result, after)) :
    result.ids.map tokenizer.piece = tokenizer.finestPieces text := by
  obtain ⟨source, finished, rfl⟩ := exists_walk_of_unmarked noBos noEos returned
  exact pieces_eq_finestPieces byShortest whole characters finished

/-- If each character of a text is a token, the shortest tokens are its finest pieces: the special texts
and the characters between them. So the statistics give their number as the greatest, and no tokenization
that preserves special texts has more ids, whatever its strategy and its source. -/
theorem shortest_are_finest (tokenizer : Tokenizer) (text : Text) (seed : Option Nat)
    (supply : Supply σ) (desk : Desk σ)
    (characters : ∀ c ∈ text, [c] ∈ tokenizer.vocabulary.tokens) (ready : supply.IsReady) :
    (∀ options : Options, options.strategy = .shortest → options.preserveSpecial = true →
      options.addBos = false → options.addEos = false →
      ∃ result after, (tokenizer.tokenize options text supply).runOn desk = (.ok result, after) ∧
        result.ids.map tokenizer.piece = tokenizer.finestPieces text) ∧
    ∃ statistics after, (tokenizer.statistics text (seed.map Int.ofNat) supply).runOn desk =
        (.ok statistics, after) ∧
      statistics.maxTokens = (tokenizer.finestPieces text).length ∧
      ∀ {τ : Type} [RandomSource τ] (options : Options) (other : Supply τ) (start ending : Desk τ)
        (result : Tokenization),
        options.preserveSpecial = true → options.addBos = false → options.addEos = false →
        (tokenizer.tokenize options text other).runOn start = (.ok result, ending) →
        (result.count : Int) ≤ statistics.maxTokens := by
  refine ⟨fun options byShortest whole noBos noEos => ?_, ?_⟩
  · have measurable : options.isMeasurable = true := isMeasurable_of_isByLength (.inr byShortest)
    obtain ⟨result, after, returned⟩ := exists_tokenization_of_characters characters noBos noEos
      measurable (ready options.seed desk.source)
    exact ⟨result, after, returned,
      pieces_of_tokenize byShortest whole noBos noEos characters returned⟩
  · obtain ⟨longest, between, byLongest⟩ := exists_tokenization (.ofStrategy .longest) (.inl rfl)
      rfl rfl rfl ready seed tokenizer text desk
    obtain ⟨shortest, after, byShortest⟩ := exists_tokenization (.ofStrategy .shortest) (.inr rfl)
      rfl rfl rfl ready seed tokenizer text between
    have pieces := pieces_of_tokenize rfl rfl rfl rfl characters byShortest
    have greatest : shortest.ids.length = (tokenizer.finestPieces text).length := by
      simpa using congrArg List.length pieces
    refine ⟨_, after, runOn_statistics seed byLongest byShortest, congrArg Int.ofNat greatest, ?_⟩
    intro τ _ options other start ending result whole noBos noEos returned
    have few := count_le_of_tokenize whole noBos noEos returned
    rw [← greatest] at few
    exact Int.ofNat_le.mpr few

/-- A special text counts once, though each of its characters is a token as well. A random run takes one
id less. -/
theorem shortest_are_finest_around_special :
    let tokenizer := ofVocabulary {
      tokens := #["<s>".toList, ['<'], ['s'], ['>'], ['a'], ['b'], "ab".toList]
      merges := none
      bos := none
      eos := none
      modelType := none
      specialIds := [0]
      bos_lt_size := by decide
      eos_lt_size := by decide
      specialIds_lt_size := by decide }
    let desk : Desk Script := Desk.fresh ⟨[], [1, 0], 0, 0⟩
    let text : Text := "ab<s>b".toList
    let drawn : Tokenization := ⟨text, [6, 0, 5], []⟩
    (∀ c ∈ text, [c] ∈ tokenizer.vocabulary.tokens) ∧
    (Supply.current : Supply Script).IsReady ∧
    tokenizer.finestPieces text = [['a'], ['b'], "<s>".toList, ['b']] ∧
    (∃ result after, (tokenizer.tokenize (.ofStrategy .shortest) text .current).runOn desk =
        (.ok result, after) ∧
      result.ids.map tokenizer.piece = tokenizer.finestPieces text) ∧
    ∃ statistics after, (tokenizer.statistics text none .current).runOn desk =
        (.ok statistics, after) ∧
      statistics.maxTokens = 4 ∧
      (∃ after, (tokenizer.tokenize .default text .current).runOn desk = (.ok drawn, after)) ∧
      (drawn.count : Int) ≤ statistics.maxTokens := by
  intro tokenizer desk text drawn
  have characters : ∀ c ∈ text, [c] ∈ tokenizer.vocabulary.tokens := by
    simp [text, tokenizer, ofVocabulary]
  have ready : (Supply.current : Supply Script).IsReady := fun _ _ => rfl
  obtain ⟨byShortest, statistics, after, returned, greatest, bounded⟩ :=
    shortest_are_finest tokenizer text none .current desk characters ready
  have random : (tokenizer.tokenize .default text .current).runOn desk =
      (.ok drawn, ⟨⟨[], [1, 0], 0, 2⟩, #[]⟩) := rfl
  have pieces : tokenizer.finestPieces text = [['a'], ['b'], "<s>".toList, ['b']] := rfl
  rw [pieces] at greatest
  refine ⟨characters, ready, pieces, byShortest _ rfl rfl rfl rfl, statistics, after, returned,
    greatest, ⟨_, random⟩, ?_⟩
  exact bounded .default .current desk _ drawn rfl rfl rfl random

end Tokenizer

end Tessera
