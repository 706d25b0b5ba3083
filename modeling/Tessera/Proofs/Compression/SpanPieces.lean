import Mathlib.Data.List.Chain
import Tessera.Compression.Selective
import Tessera.Proofs.Compression.Results
import Tessera.Proofs.Order.StableSort
import Tessera.Proofs.Tokenizer.Uncovered
import Tessera.Random.Scripted

/-!
# The pieces of a text

Spans cut a text into pieces: the spans themselves and what is left between them. The pieces make up the
text, and what a selective compression gives are the ids of the pieces, one piece after the other, all
with one source: those of a span by its own strategy and ideal length, those of a gap by the common
strategy.
-/

set_option autoImplicit false

namespace Tessera

namespace Span

/-! ## Pieces -/

def piece (text : Text) (span : Span) : Segment Span :=
  ⟨text.slice span.start span.stop, span.start, some span⟩

/-- What lies between two offsets, as a piece that belongs to no span; nothing if it is empty. -/
def gap (text : Text) (start stop : Nat) : List (Segment Span) :=
  if start < stop then [⟨text.slice start stop, start, none⟩] else []

def piecesFrom (text : Text) (reached : Nat) : List Span → List (Segment Span)
  | [] => gap text reached text.length
  | span :: rest => gap text reached span.start ++ span.piece text :: piecesFrom text span.stop rest

/-- The spans of a text in order of their starts, with the gaps before, between and behind them. -/
def pieces (text : Text) (spans : List Span) : List (Segment Span) :=
  piecesFrom text 0 (inOrder spans)

/-- Pieces of a text that make it up. Among them are the spans, as often as they are listed, in order of
their starts, those that start together as they are listed, and each at its place. Between them are gaps,
none of which is empty or stands beside another one. -/
structure Divides (text : Text) (spans : List Span) (pieces : List (Segment Span)) : Prop where
  tiles : Tiles 0 text pieces
  spansPerm : (pieces.filterMap Segment.special).Perm spans
  sorted : (pieces.filterMap Segment.special).Pairwise fun a b => a.start ≤ b.start
  asListed : ∀ start, ((pieces.filterMap Segment.special).filter fun span => span.start = start) =
    spans.filter fun span => span.start = start
  placed : ∀ piece ∈ pieces, ∀ span, piece.special = some span →
    piece.start = span.start ∧ piece.stop = span.stop
  gapsNonempty : ∀ piece ∈ pieces, piece.special = none → piece.text ≠ []
  gapsApart : pieces.IsChain fun a b => a.special ≠ none ∨ b.special ≠ none

/-! ## Spans in order -/

theorem inOrder_perm (spans : List Span) : (inOrder spans).Perm spans :=
  List.mergeSort_perm _ _

theorem pairwise_inOrder (spans : List Span) :
    (inOrder spans).Pairwise fun a b => a.start ≤ b.start := by
  have sorted := List.pairwise_mergeSort (key_le_trans start) (key_le_total start) spans
  exact sorted.imp of_decide_eq_true

theorem filter_inOrder (spans : List Span) (place : Nat) :
    ((inOrder spans).filter fun span => span.start = place) =
      spans.filter fun span => span.start = place := by
  apply filter_mergeSort (key_le_trans start) (key_le_total start)
  apply List.pairwise_of_forall_mem_list
  intro a aKept b bKept
  have aStart : a.start = place := of_decide_eq_true (List.mem_filter.mp aKept).2
  have bStart : b.start = place := of_decide_eq_true (List.mem_filter.mp bKept).2
  exact decide_eq_true (Nat.le_of_eq (aStart.trans bStart.symm))

/-! ## Spans that fit -/

/-- Spans that stand one behind the other, from an offset on, in a text of a size. -/
structure FitFrom (size reached : Nat) (spans : List Span) : Prop where
  inside : ∀ span ∈ spans, reached ≤ span.start ∧ span.stop ≤ size
  apart : spans.Pairwise fun a b => a.stop ≤ b.start

theorem fitFrom_nil (size reached : Nat) : FitFrom size reached [] where
  inside := by simp
  apart := .nil

theorem fitFrom_cons_iff {size reached : Nat} {span : Span} {rest : List Span} :
    FitFrom size reached (span :: rest) ↔
      reached ≤ span.start ∧ span.stop ≤ size ∧ FitFrom size span.stop rest := by
  constructor
  · rintro ⟨inside, apart⟩
    obtain ⟨behind, restApart⟩ := List.pairwise_cons.mp apart
    obtain ⟨ahead, ends⟩ := inside span (.head _)
    exact ⟨ahead, ends, fun other member =>
      ⟨behind other member, (inside other (.tail _ member)).2⟩, restApart⟩
  · rintro ⟨ahead, ends, inside, apart⟩
    refine ⟨?_, List.pairwise_cons.mpr ⟨fun other member => (inside other member).1, apart⟩⟩
    intro other member
    rcases List.mem_cons.mp member with rfl | member
    · exact ⟨ahead, ends⟩
    · obtain ⟨behind, ends⟩ := inside other member
      exact ⟨Nat.le_trans ahead (Nat.le_trans span.start_le_stop behind), ends⟩

/-! ## What the pieces are -/

section

variable {text : Text} {reached : Nat} {spans : List Span}

theorem gap_of_lt {start stop : Nat} (someBetween : start < stop) :
    gap text start stop = [⟨text.slice start stop, start, none⟩] := if_pos someBetween

theorem gap_of_le {start stop : Nat} (noneBetween : stop ≤ start) : gap text start stop = [] :=
  if_neg (Nat.not_lt.mpr noneBetween)

/-- What lies between two offsets can be put in front of pieces that start at the second. -/
theorem tiles_slice_cons {start stop : Nat} (ordered : start ≤ stop) (inside : stop ≤ text.length)
    {segments : List (Segment Span)} (tiles : Tiles stop (text.drop stop) segments)
    (special : Option Span) :
    Tiles start (text.drop start) (⟨text.slice start stop, start, special⟩ :: segments) := by
  rw [text.drop_eq_slice_append ordered]
  refine .cons ?_
  rwa [Text.length_slice _ _ inside, Nat.add_sub_cancel' ordered]

theorem tiles_gap_append {start stop : Nat} (ordered : start ≤ stop) (inside : stop ≤ text.length)
    {segments : List (Segment Span)} (tiles : Tiles stop (text.drop stop) segments) :
    Tiles start (text.drop start) (gap text start stop ++ segments) := by
  rcases Nat.eq_or_lt_of_le ordered with rfl | someBetween
  · rwa [gap_of_le (Nat.le_refl _)]
  · rw [gap_of_lt someBetween]
    exact tiles_slice_cons ordered inside tiles none

theorem FitFrom.tiles (fit : FitFrom text.length reached spans) (inside : reached ≤ text.length) :
    Tiles reached (text.drop reached) (piecesFrom text reached spans) := by
  induction spans generalizing reached with
  | nil =>
      have ended : Tiles text.length (text.drop text.length) ([] : List (Segment Span)) := by
        rw [List.drop_length]
        exact .nil
      simpa only [piecesFrom, List.append_nil] using
        tiles_gap_append inside (Nat.le_refl _) ended
  | cons span rest ih =>
      obtain ⟨ahead, ends, further⟩ := fitFrom_cons_iff.mp fit
      have fromSpan := tiles_slice_cons span.start_le_stop ends (ih further ends) (some span)
      exact tiles_gap_append ahead (Nat.le_trans span.start_le_stop ends) fromSpan

theorem of_mem_gap {start stop : Nat} (inside : stop ≤ text.length) {piece : Segment Span}
    (member : piece ∈ gap text start stop) : piece.special = none ∧ piece.text ≠ [] := by
  rcases Nat.lt_or_ge start stop with someBetween | noneBetween
  · rw [gap_of_lt someBetween, List.mem_singleton] at member
    subst member
    refine ⟨rfl, List.ne_nil_of_length_pos ?_⟩
    rw [Text.length_slice _ _ inside]
    omega
  · rw [gap_of_le noneBetween] at member
    cases member

theorem filterMap_special_piecesFrom (text : Text) (reached : Nat) (spans : List Span) :
    (piecesFrom text reached spans).filterMap Segment.special = spans := by
  have noneInGap (start stop : Nat) : (gap text start stop).filterMap Segment.special = [] := by
    unfold gap
    split <;> rfl
  induction spans generalizing reached with
  | nil => exact noneInGap _ _
  | cons span rest ih =>
      simp only [piecesFrom, List.filterMap_append, noneInGap, List.nil_append,
        List.filterMap_cons, piece, ih]

theorem FitFrom.of_mem (fit : FitFrom text.length reached spans) {piece : Segment Span}
    (member : piece ∈ piecesFrom text reached spans) :
    (∃ span ∈ spans, piece = span.piece text) ∨ piece.special = none ∧ piece.text ≠ [] := by
  induction spans generalizing reached with
  | nil => exact .inr (of_mem_gap (Nat.le_refl _) member)
  | cons span rest ih =>
      obtain ⟨-, ends, further⟩ := fitFrom_cons_iff.mp fit
      rcases List.mem_append.mp member with before | member
      · exact .inr (of_mem_gap (Nat.le_trans span.start_le_stop ends) before)
      rcases List.mem_cons.mp member with rfl | behind
      · exact .inl ⟨span, .head _, rfl⟩
      · rcases ih further behind with ⟨other, listed, rfl⟩ | found
        · exact .inl ⟨other, .tail _ listed, rfl⟩
        · exact .inr found

theorem gaps_apart_piecesFrom (text : Text) (reached : Nat) (spans : List Span) :
    (piecesFrom text reached spans).IsChain fun a b => a.special ≠ none ∨ b.special ≠ none := by
  induction spans generalizing reached with
  | nil =>
      rw [piecesFrom, gap]
      split
      · exact .singleton _
      · exact .nil
  | cons span rest ih =>
      -- A span stands on one side of each joint but those further on.
      have fromSpan : (span.piece text :: piecesFrom text span.stop rest).IsChain
          fun a b => a.special ≠ none ∨ b.special ≠ none :=
        List.IsChain.cons (ih span.stop) fun _ _ => .inl (Option.some_ne_none span)
      rw [piecesFrom, gap]
      split
      · exact .cons_cons (.inr (Option.some_ne_none span)) fromSpan
      · exact fromSpan

theorem FitFrom.divides (fit : FitFrom text.length 0 (inOrder spans)) :
    Divides text spans (pieces text spans) where
  tiles := fit.tiles (Nat.zero_le _)
  spansPerm := by
    rw [pieces, filterMap_special_piecesFrom]
    exact inOrder_perm spans
  sorted := by
    rw [pieces, filterMap_special_piecesFrom]
    exact pairwise_inOrder spans
  asListed := by
    rw [pieces, filterMap_special_piecesFrom]
    exact filter_inOrder spans
  placed := by
    intro piece member span belongs
    rcases fit.of_mem member with ⟨other, listed, rfl⟩ | ⟨inGap, -⟩
    · cases belongs
      refine ⟨rfl, ?_⟩
      rw [Segment.stop, Span.piece, Text.length_slice _ _ (fit.inside _ listed).2]
      exact Nat.add_sub_cancel' span.start_le_stop
    · rw [inGap] at belongs
      cases belongs
  gapsNonempty := by
    intro piece member inGap
    rcases fit.of_mem member with ⟨span, -, rfl⟩ | ⟨-, nonempty⟩
    · cases inGap
    · exact nonempty
  gapsApart := gaps_apart_piecesFrom text 0 (inOrder spans)

end

end Span

namespace Tokenizer

/-! ## How the pieces are tokenized -/

/-- Options of a strategy and an ideal length; all others are what they are by default. -/
def optionsOf (strategy : Strategy) (idealLength : Number) : Options where
  strategy := strategy
  idealLength := idealLength
  seed := none
  addBos := false
  addEos := false
  preserveSpecial := true
  strict := false

theorem options_eq_optionsOf (span : Span) :
    span.options = optionsOf span.strategy (.real span.idealLength) := rfl

theorem ofStrategy_eq_optionsOf (strategy : Strategy) :
    Options.ofStrategy strategy = optionsOf strategy (.integer 4) := rfl

/-- What a piece is tokenized under: a span by its own strategy and ideal length, a gap by the common
strategy and the ideal length that goes without saying. -/
def pieceOptions (common : Strategy) (piece : Segment Span) : Options :=
  match piece.special with
  | some span => optionsOf span.strategy (.real span.idealLength)
  | none => optionsOf common (.integer 4)

theorem isUnfailing_optionsOf {idealLength : Number} (inRange : idealLength.inRange = true)
    (strategy : Strategy) : (optionsOf strategy idealLength).IsUnfailing where
  measurable := by
    rw [Options.isMeasurable, optionsOf, inRange]
    exact Bool.or_true _
  lenient := rfl
  noBos := rfl
  noEos := rfl

theorem isUnfailing_options (span : Span) : span.options.IsUnfailing := by
  rw [options_eq_optionsOf]
  exact isUnfailing_optionsOf rfl span.strategy

theorem isUnfailing_pieceOptions (common : Strategy) (piece : Segment Span) :
    (pieceOptions common piece).IsUnfailing := by
  unfold pieceOptions
  split
  · exact isUnfailing_optionsOf rfl _
  · exact isUnfailing_optionsOf rfl _

variable {σ : Type} [RandomSource σ]

/-- Pieces that are tokenized one after the other, each with the source that the one before has left. -/
inductive Threads (tokenizer : Tokenizer) (common : Strategy) :
    List (Segment Span) → Desk σ → List Tokenization → Desk σ → Prop where
  | done {desk : Desk σ} : Threads tokenizer common [] desk [] desk
  | piece {piece : Segment Span} {pieces : List (Segment Span)} {desk between after : Desk σ}
      {result : Tokenization} {results : List Tokenization} :
      (tokenizer.tokenize (pieceOptions common piece) piece.text .current).runOn desk =
        (.ok result, between) →
      Threads tokenizer common pieces between results after →
      Threads tokenizer common (piece :: pieces) desk (result :: results) after

section

variable {tokenizer : Tokenizer} {common : Strategy} {text : Text} {desk after : Desk σ}

theorem threads_append_iff {first second : List (Segment Span)} {results : List Tokenization} :
    Threads tokenizer common (first ++ second) desk results after ↔
      ∃ front back between, results = front ++ back ∧
        Threads tokenizer common first desk front between ∧
        Threads tokenizer common second between back after := by
  constructor
  · intro threads
    induction first generalizing desk results with
    | nil => exact ⟨[], results, desk, rfl, .done, threads⟩
    | cons piece rest ih =>
        cases threads with
        | piece returned further =>
            obtain ⟨front, back, between, rfl, threads, behind⟩ := ih further
            exact ⟨_ :: front, back, between, rfl, .piece returned threads, behind⟩
  · rintro ⟨front, back, between, rfl, threads, behind⟩
    induction threads with
    | done => exact behind
    | piece returned _ ih => exact .piece returned (ih behind)

theorem runOn_tokenize_current (options : Options) :
    (tokenizer.tokenize options text .current).runOn desk =
      Computation.outcome (tokenizer.tokenizeHere options text) desk := by
  have begun : (Supply.current : Supply σ).begin? (options.seed.map Int.ofNat) desk.source =
      some desk.source := rfl
  rw [runOn_tokenize_of_begun begun, outcome_tokenizeHere]

theorem threads_singleton_iff {piece : Segment Span} {results : List Tokenization} :
    Threads tokenizer common [piece] desk results after ↔
      ∃ result, results = [result] ∧
        (tokenizer.tokenize (pieceOptions common piece) piece.text .current).runOn desk =
          (.ok result, after) := by
  constructor
  · intro threads
    cases threads with
    | piece returned further =>
        cases further
        exact ⟨_, rfl, returned⟩
  · rintro ⟨result, rfl, returned⟩
    exact .piece returned .done

theorem outcome_idsBetween_eq_ok_iff {options : Options} {start stop : Nat} {ids : List Nat} :
    Computation.outcome (tokenizer.idsBetween options text start stop) desk = (.ok ids, after) ↔
      ∃ result, (tokenizer.tokenize options (text.slice start stop) .current).runOn desk =
        (.ok result, after) ∧ result.ids = ids := by
  rw [idsBetween, Computation.outcome_bind_eq_ok_iff]
  simp only [runOn_tokenize_current, Computation.outcome_pure, Prod.mk.injEq, Except.ok.injEq]
  constructor
  · rintro ⟨result, between, returned, given, rfl⟩
    exact ⟨result, returned, given⟩
  · rintro ⟨result, returned, given⟩
    exact ⟨result, after, returned, given, rfl⟩

theorem outcome_gap_eq_ok_iff {start stop : Nat} {ids : List Nat} :
    Computation.outcome
        (if start < stop then tokenizer.idsBetween (.ofStrategy common) text start stop
          else pure []) desk =
        (.ok ids, after) ↔
      ∃ results, Threads tokenizer common (Span.gap text start stop) desk results after ∧
        ids = results.flatMap Tokenization.ids := by
  by_cases someBetween : start < stop
  · rw [if_pos someBetween, Span.gap_of_lt someBetween, ofStrategy_eq_optionsOf,
      outcome_idsBetween_eq_ok_iff]
    simp only [threads_singleton_iff]
    constructor
    · rintro ⟨result, returned, rfl⟩
      exact ⟨[result], ⟨result, rfl, returned⟩, by simp⟩
    · rintro ⟨_, ⟨result, rfl, returned⟩, rfl⟩
      exact ⟨result, returned, by simp⟩
  · rw [if_neg someBetween, Span.gap_of_le (Nat.not_lt.mp someBetween),
      Computation.outcome_pure]
    constructor
    · intro nothing
      cases nothing
      exact ⟨[], .done, rfl⟩
    · rintro ⟨_, threads, rfl⟩
      cases threads
      rfl

theorem idsFrom_cons_of_overlap {reached : Nat} {span : Span} {rest : List Span}
    (behind : span.start < reached) :
    Computation.outcome (tokenizer.idsFrom (.ofStrategy common) text reached (span :: rest)) desk =
      (.error (.overlap span.start span.stop), desk) := by
  unfold idsFrom
  simp only [behind, ↓reduceIte]
  rfl

theorem idsFrom_cons_of_beyondEnd {reached : Nat} {span : Span} {rest : List Span}
    (ahead : reached ≤ span.start) (beyond : text.length < span.stop) :
    Computation.outcome (tokenizer.idsFrom (.ofStrategy common) text reached (span :: rest)) desk =
      (.error (.beyondEnd span.start span.stop text.length), desk) := by
  unfold idsFrom
  simp only [Nat.not_lt.mpr ahead, beyond, ↓reduceIte]
  rfl

theorem idsFrom_cons {reached : Nat} {span : Span} {rest : List Span}
    (ahead : reached ≤ span.start) (ends : span.stop ≤ text.length) :
    tokenizer.idsFrom (σ := σ) (.ofStrategy common) text reached (span :: rest) =
      (if reached < span.start then
          tokenizer.idsBetween (.ofStrategy common) text reached span.start
        else pure []) >>= fun before => do
      let within ← tokenizer.idsBetween span.options text span.start span.stop
      return before ++ within ++
        (← tokenizer.idsFrom (.ofStrategy common) text span.stop rest) := by
  rw [idsFrom]
  simp only [Nat.not_lt.mpr ahead, Nat.not_lt.mpr ends, ↓reduceIte]
  split <;> rfl

/-- The spans are compressed if they fit, and what is given are the ids of the pieces. -/
theorem outcome_idsFrom_eq_ok_iff {reached : Nat} {spans : List Span} {ids : List Nat} :
    Computation.outcome (tokenizer.idsFrom (.ofStrategy common) text reached spans) desk =
        (.ok ids, after) ↔
      Span.FitFrom text.length reached spans ∧ ∃ results,
        Threads tokenizer common (Span.piecesFrom text reached spans) desk results after ∧
        ids = results.flatMap Tokenization.ids := by
  induction spans generalizing reached desk after ids with
  | nil =>
      rw [idsFrom, outcome_gap_eq_ok_iff, Span.piecesFrom]
      exact (and_iff_right (Span.fitFrom_nil _ _)).symm
  | cons span rest ih =>
      rw [Span.fitFrom_cons_iff]
      rcases Nat.lt_or_ge span.start reached with behind | ahead
      · rw [idsFrom_cons_of_overlap behind]
        simp [Nat.not_le.mpr behind]
      rcases Nat.lt_or_ge text.length span.stop with beyond | ends
      · rw [idsFrom_cons_of_beyondEnd ahead beyond]
        simp [Nat.not_le.mpr beyond]
      rw [idsFrom_cons ahead ends]
      simp only [Computation.outcome_bind_eq_ok_iff, outcome_gap_eq_ok_iff,
        outcome_idsBetween_eq_ok_iff, ih, Computation.outcome_pure]
      constructor
      · rintro ⟨_, _, ⟨first, before, rfl⟩, _, between, ⟨result, within, rfl⟩, _, _,
          ⟨fit, last, threads, rfl⟩, given⟩
        cases given
        refine ⟨⟨ahead, ends, fit⟩, first ++ result :: last, ?_, by simp⟩
        exact threads_append_iff.mpr ⟨_, _, _, rfl, before, .piece within threads⟩
      · rintro ⟨⟨-, -, fit⟩, _, threads, rfl⟩
        obtain ⟨first, _, between, rfl, before, threads⟩ := threads_append_iff.mp threads
        cases threads with
        | piece within threads =>
            exact ⟨_, _, ⟨_, before, rfl⟩, _, _, ⟨_, within, rfl⟩, _, _, ⟨fit, _, threads, rfl⟩,
              by simp⟩

/-- If each character of a text is a token, what its pieces are tokenized to stands for the text. -/
theorem Threads.decode_eq {pieces : List (Segment Span)} {results : List Tokenization}
    (threads : Threads tokenizer common pieces desk results after) {start : Nat} (tiles : Tiles start text pieces)
    (characters : ∀ c ∈ text, [c] ∈ tokenizer.vocabulary.tokens) :
    tokenizer.detokenize ((results.flatMap Tokenization.ids).map Int.ofNat) = text := by
  induction threads generalizing start text with
  | done =>
      cases tiles
      rfl
  | piece returned _ ih =>
      cases tiles with
      | @cons _ front rest special _ further =>
          have plain := isUnfailing_pieceOptions common ⟨front, start, special⟩
          have decoded := (lossless_of_characters
            (fun c member => characters c (List.mem_append_left rest member))
            plain.noBos plain.noEos returned).2
          have behind := ih further fun c member => characters c (List.mem_append_right front member)
          rw [detokenize] at decoded behind ⊢
          rw [List.flatMap_cons, decode_append, decoded, behind]

/-! ## Selective compression -/

/-- If there are a strategy of the name and a source for the seed, a call is told by the ids that are
given from there. -/
theorem runOn_compressSelectively {strategy : String} {common : Strategy}
    (named : Strategy.ofName? strategy = some common) {supply : Supply σ} {seed : Option Int}
    {source : σ} (begun : supply.begin? seed desk.source = some source) (spans : List Span) :
    (tokenizer.compressSelectively text spans strategy seed supply).runOn desk =
      match Computation.outcome (tokenizer.idsFrom (.ofStrategy common) text 0 (Span.inOrder spans))
          { desk with source := source } with
      | (.ok ids, after) => (.ok (tokenizer.compressed text ids), after)
      | (.error failure, after) => (.error failure, after) := by
  change Computation.outcome (tokenizer.compressSelectively text spans strategy seed supply) desk = _
  rw [compressSelectively, Computation.outcome_bind, override_named,
    checkStrategy_eq_ok_iff.mpr named]
  simp only [Except.map, Call.ofOptions, Computation.outcome_pure]
  rw [Computation.outcome_bind, outcome_start, begun]
  dsimp only
  rw [Computation.outcome_bind]
  rcases Computation.outcome (tokenizer.idsFrom (.ofStrategy common) text 0 (Span.inOrder spans))
    { desk with source := source } with ⟨ending, last⟩
  cases ending <;> rfl

theorem exists_begun_of_compressSelectively {spans : List Span} {strategy : String}
    {seed : Option Int} {supply : Supply σ} {result : Compressed}
    (accepted : (tokenizer.compressSelectively text spans strategy seed supply).runOn desk =
      (.ok result, after)) :
    ∃ common source, Strategy.ofName? strategy = some common ∧
      supply.begin? seed desk.source = some source := by
  change Computation.outcome (tokenizer.compressSelectively text spans strategy seed supply) desk = _
    at accepted
  rw [compressSelectively, Computation.outcome_bind_eq_ok_iff, override_named] at accepted
  obtain ⟨options, between, overridden, accepted⟩ := accepted
  obtain ⟨_, _, started, -⟩ := Computation.outcome_bind_eq_ok_iff.mp accepted
  cases checked : Options.checkStrategy strategy with
  | error cause =>
      rw [checked] at overridden
      cases overridden
  | ok common =>
      rw [checked] at overridden
      cases overridden
      rw [outcome_start] at started
      cases begun : supply.begin? seed desk.source with
      | none =>
          rw [begun] at started
          cases started
      | some source => exact ⟨common, source, checkStrategy_eq_ok_iff.mp checked, rfl⟩

end

/-- The spans in order of their starts and the gaps between them make up the text, and what is given are
the ids of these pieces, one piece after the other: each span is tokenized by its own strategy and ideal
length, a gap by the common strategy, with the source that the piece before it has left. So if each
character of the text is a token, the ids are those of the whole text. -/
theorem compressSelectively_divides (tokenizer : Tokenizer) (text : Text) (spans : List Span)
    (strategy : String) (seed : Option Int) (supply : Supply σ) (desk after : Desk σ)
    (result : Compressed)
    (accepted : (tokenizer.compressSelectively text spans strategy seed supply).runOn desk =
      (.ok result, after)) :
    (∃ pieces common source results, Span.Divides text spans pieces ∧
      Strategy.ofName? strategy = some common ∧ supply.begin? seed desk.source = some source ∧
      tokenizer.Threads common pieces { desk with source := source } results after ∧
      result.ids = (results.flatMap Tokenization.ids).map Int.ofNat ∧
      result = tokenizer.compressed text (results.flatMap Tokenization.ids)) ∧
    ((∀ c ∈ text, [c] ∈ tokenizer.vocabulary.tokens) → tokenizer.detokenize result.ids = text) := by
  obtain ⟨common, source, named, begun⟩ := exists_begun_of_compressSelectively accepted
  rw [runOn_compressSelectively named begun] at accepted
  cases given : Computation.outcome
      (tokenizer.idsFrom (.ofStrategy common) text 0 (Span.inOrder spans))
      { desk with source := source } with
  | mk ending last =>
      rw [given] at accepted
      cases ending with
      | error failure => cases accepted
      | ok ids =>
          cases accepted
          obtain ⟨fit, results, threads, rfl⟩ := outcome_idsFrom_eq_ok_iff.mp given
          constructor
          · exact ⟨Span.pieces text spans, common, source, results, fit.divides, named, begun,
              threads, rfl, rfl⟩
          · exact threads.decode_eq fit.divides.tiles

/-- The spans are listed in another order than they stand in, two of them side by side and one of them
empty, between two gaps. Each of the three has a strategy of its own. -/
theorem compressSelectively_divides_of_unsorted :
    let tokenizer := ofVocabulary {
      tokens := #[['a'], ['b'], ['c'], "ab".toList, "bc".toList]
      merges := none
      bos := none
      eos := none
      modelType := none
      specialIds := []
      bos_lt_size := by decide
      eos_lt_size := by decide
      specialIds_lt_size := by decide }
    let desk : Desk Script := Desk.fresh ⟨[], [], 0, 0⟩
    let text : Text := "abcabc".toList
    let late : Span := ⟨3, 5, .shortest, 4, by decide⟩
    let empty : Span := ⟨1, 1, .random, 4, by decide⟩
    let early : Span := ⟨1, 3, .longest, 4, by decide⟩
    let result : Compressed := tokenizer.compressed text [0, 4, 0, 1, 2]
    (∃ after, (tokenizer.compressSelectively text [late, empty, early] "longest" none
      .current).runOn desk = (.ok result, after)) ∧
    Span.Divides text [late, empty, early]
      [⟨['a'], 0, none⟩, ⟨[], 1, some empty⟩, ⟨"bc".toList, 1, some early⟩,
        ⟨"ab".toList, 3, some late⟩, ⟨['c'], 5, none⟩] ∧
    (∃ pieces results after, Span.Divides text [late, empty, early] pieces ∧
      tokenizer.Threads .longest pieces desk results after ∧
      results.flatMap Tokenization.ids = [0, 4, 0, 1, 2]) ∧
    tokenizer.detokenize result.ids = text := by
  intro tokenizer desk text late empty early result
  have sorted : Span.inOrder [late, empty, early] = [empty, early, late] := by
    simp [Span.inOrder, List.mergeSort, late, empty, early]
  have accepted : (tokenizer.compressSelectively text [late, empty, early] "longest" none
      .current).runOn desk = (.ok result, ⟨⟨[], [], 0, 5⟩, #[]⟩) := by
    rw [compressSelectively, sorted]
    rfl
  have fit : Span.FitFrom text.length 0 (Span.inOrder [late, empty, early]) := by
    rw [sorted]
    constructor
    · simp [text, late, empty, early]
    · simp [late, empty, early]
  have piecesEq : Span.pieces text [late, empty, early] =
      [⟨['a'], 0, none⟩, ⟨[], 1, some empty⟩, ⟨"bc".toList, 1, some early⟩,
        ⟨"ab".toList, 3, some late⟩, ⟨['c'], 5, none⟩] := by
    rw [Span.pieces, sorted]
    rfl
  have characters : ∀ c ∈ text, [c] ∈ tokenizer.vocabulary.tokens := by
    simp [text, tokenizer, ofVocabulary]
  obtain ⟨⟨pieces, common, source, results, divides, named, begun, threads, ids, -⟩, whole⟩ :=
    compressSelectively_divides tokenizer text [late, empty, early] "longest" none .current desk _
      result accepted
  cases named
  cases begun
  refine ⟨⟨_, accepted⟩, piecesEq ▸ fit.divides, ⟨pieces, results, _, divides, threads, ?_⟩,
    whole characters⟩
  exact (List.map_injective_iff.mpr fun _ _ => Int.ofNat.inj) ids.symm

end Tokenizer

end Tessera
