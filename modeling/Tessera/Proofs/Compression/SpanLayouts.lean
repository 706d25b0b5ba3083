import Tessera.Proofs.Compression.SpanPieces
import Tessera.Proofs.Order.StableSort

/-!
# Layouts of spans

Spans that have a character in common, or that end behind the text, are refused. So are empty spans
inside other ones, although they have no character to share, and empty spans at the start of other ones,
depending on which of the two is listed first. Apart from that it makes no difference how spans are
listed.
-/

set_option autoImplicit false

namespace Tessera

namespace Span

/-- Whether the character at a place belongs to a span. -/
def Holds (span : Span) (place : Nat) : Prop := span.start ≤ place ∧ place < span.stop

def Apart (a b : Span) : Prop := ∀ place, ¬ (a.Holds place ∧ b.Holds place)

instance : Std.Symm Apart where
  symm _ _ apart place := fun ⟨bHolds, aHolds⟩ => apart place ⟨aHolds, bHolds⟩

/-- Whether two entries of a list have a character in common. -/
def Overlapping (spans : List Span) : Prop :=
  ∃ a b, [a, b].Sublist spans ∧ ¬ a.Apart b

/-- Whether an empty span stands inside another one, or at the start of one that is listed before it. -/
def Straying (spans : List Span) : Prop :=
  ∃ outer inner, inner.start = inner.stop ∧ inner.start < outer.stop ∧
    (outer ∈ spans ∧ inner ∈ spans ∧ outer.start < inner.start ∨
      [outer, inner].Sublist spans ∧ outer.start = inner.start)

/-- Whether no empty span stands inside another one or at its start. -/
def EmptyApart (spans : List Span) : Prop :=
  ∀ outer ∈ spans, ∀ inner ∈ spans, inner.start = inner.stop → outer.start ≤ inner.start →
    outer.stop ≤ inner.start

variable {spans others : List Span} {size : Nat}

/-! ## Spans in order -/

theorem pairwise_inOrder_iff {relation : Span → Span → Prop} :
    (inOrder spans).Pairwise relation ↔
      (∀ a ∈ spans, ∀ b ∈ spans, a.start < b.start → relation a b) ∧
      spans.Pairwise fun a b => a.start = b.start → relation a b := by
  rw [inOrder, pairwise_mergeSort_iff (key_le_trans start) (key_le_total start)]
  simp only [decide_eq_false_iff_not, decide_eq_true_eq, Nat.not_le, and_congr_right_iff]
  intro _
  refine List.Pairwise.iff fun {a b} => ?_
  exact ⟨fun related same => related (Nat.le_of_eq same) (Nat.le_of_eq same.symm),
    fun related leAb leBa => related (Nat.le_antisymm leAb leBa)⟩

theorem not_overlapping_iff : ¬ Overlapping spans ↔ spans.Pairwise Apart := by
  simp only [List.pairwise_iff_forall_sublist, Overlapping, not_exists, not_and, not_not]

/-- A span that starts no later than one with characters ends no later than that starts, if the two
have no character in common. -/
theorem Apart.stop_le {a b : Span} (apart : a.Apart b) (ordered : a.start ≤ b.start)
    (nonempty : b.start ≠ b.stop) : a.stop ≤ b.start := by
  by_contra ahead
  have := b.start_le_stop
  exact apart b.start ⟨⟨ordered, Nat.not_le.mp ahead⟩, Nat.le_refl _, by omega⟩

theorem apart_of_stop_le {a b : Span} (ahead : a.stop ≤ b.start) : a.Apart b := by
  rintro place ⟨⟨-, before⟩, ⟨behind, -⟩⟩
  omega

/-- Spans in order stand one behind the other if they have no character in common and no empty one of
them goes astray. -/
theorem apart_inOrder_iff :
    ((inOrder spans).Pairwise fun a b => a.stop ≤ b.start) ↔
      ¬ Overlapping spans ∧ ¬ Straying spans := by
  rw [pairwise_inOrder_iff, List.pairwise_iff_forall_sublist]
  constructor
  · rintro ⟨byStart, byListing⟩
    constructor
    · rintro ⟨a, b, pair, shared⟩
      have aListed := pair.subset (.head _)
      have bListed := pair.subset (.tail _ (.head _))
      rcases Nat.lt_trichotomy a.start b.start with ahead | same | behind
      · exact shared (apart_of_stop_le (byStart a aListed b bListed ahead))
      · exact shared (apart_of_stop_le (byListing pair same))
      · exact shared (symm (apart_of_stop_le (byStart b bListed a aListed behind)))
    · rintro ⟨outer, inner, -, reaches, ⟨outerListed, innerListed, inside⟩ | ⟨pair, same⟩⟩
      · exact Nat.not_le.mpr reaches (byStart outer outerListed inner innerListed inside)
      · exact Nat.not_le.mpr reaches (byListing pair same)
  · rintro ⟨apart, straight⟩
    rw [not_overlapping_iff] at apart
    constructor
    · intro a aListed b bListed ahead
      by_cases empty : b.start = b.stop
      · by_contra reaches
        exact straight ⟨a, b, empty, Nat.not_le.mp reaches, .inl ⟨aListed, bListed, ahead⟩⟩
      · have different : a ≠ b := by
          rintro rfl
          exact Nat.lt_irrefl _ ahead
        exact (apart.forall aListed bListed different).stop_le (Nat.le_of_lt ahead) empty
    · intro a b pair same
      by_cases empty : b.start = b.stop
      · by_contra reaches
        exact straight ⟨a, b, empty, Nat.not_le.mp reaches, .inr ⟨pair, same⟩⟩
      · exact (List.pairwise_iff_forall_sublist.mp apart pair).stop_le (Nat.le_of_eq same) empty

theorem fitFrom_inOrder_iff :
    FitFrom size 0 (inOrder spans) ↔
      (∀ span ∈ spans, span.stop ≤ size) ∧ ¬ Overlapping spans ∧ ¬ Straying spans := by
  rw [← apart_inOrder_iff]
  constructor
  · rintro ⟨inside, apart⟩
    exact ⟨fun span listed => (inside span ((inOrder_perm spans).mem_iff.mpr listed)).2, apart⟩
  · rintro ⟨inside, apart⟩
    exact ⟨fun span listed =>
      ⟨Nat.zero_le _, inside span ((inOrder_perm spans).mem_iff.mp listed)⟩, apart⟩

/-! ## Other listings -/

theorem overlapping_perm (perm : others.Perm spans) : Overlapping others ↔ Overlapping spans := by
  rw [← not_iff_not, not_overlapping_iff, not_overlapping_iff]
  exact perm.pairwise_iff fun apart => symm apart

theorem EmptyApart.of_perm (emptyApart : EmptyApart spans) (perm : others.Perm spans) :
    EmptyApart others := by
  intro outer outerListed inner innerListed
  exact emptyApart outer (perm.mem_iff.mp outerListed) inner (perm.mem_iff.mp innerListed)

theorem EmptyApart.not_straying (emptyApart : EmptyApart spans) : ¬ Straying spans := by
  rintro ⟨outer, inner, empty, reaches, ⟨outerListed, innerListed, inside⟩ | ⟨pair, same⟩⟩
  · exact Nat.not_le.mpr reaches
      (emptyApart outer outerListed inner innerListed empty (Nat.le_of_lt inside))
  · exact Nat.not_le.mpr reaches (emptyApart outer (pair.subset (.head _)) inner
      (pair.subset (.tail _ (.head _))) empty (Nat.le_of_eq same))

theorem exists_straying_of_not_emptyApart (nested : ¬ EmptyApart spans) :
    ∃ others : List Span, others.Perm spans ∧ Straying others := by
  simp only [EmptyApart, not_forall, Nat.not_le] at nested
  obtain ⟨outer, outerListed, inner, innerListed, empty, ordered, reaches⟩ := nested
  obtain ⟨before, behind, rfl⟩ := List.append_of_mem outerListed
  have innerOther : inner ∈ before ++ behind := by
    have different : inner ≠ outer := by
      rintro rfl
      omega
    simpa [different] using innerListed
  obtain ⟨front, back, split⟩ := List.append_of_mem innerOther
  refine ⟨outer :: inner :: (front ++ back), ?_, outer, inner, empty, reaches, ?_⟩
  · refine .trans (.cons outer ?_) List.perm_middle.symm
    rw [split]
    exact List.perm_middle.symm
  · rcases Nat.eq_or_lt_of_le ordered with same | inside
    · exact .inr ⟨by simp, same⟩
    · exact .inl ⟨by simp, by simp, inside⟩

/-- A span without characters is compressed to nothing, whatever its options. This is the span with
options that do not matter made the same. -/
def settled (span : Span) : Span :=
  if span.start = span.stop then { span with strategy := .random, idealLength := 0 } else span

theorem start_settled (span : Span) : span.settled.start = span.start := by
  unfold settled
  split <;> rfl

theorem stop_settled (span : Span) : span.settled.stop = span.stop := by
  unfold settled
  split <;> rfl

/-- Two spans each of which ends before the other starts are empty, and at one place. -/
theorem settled_eq_of_stop_le {a b : Span} (ab : a.stop ≤ b.start) (ba : b.stop ≤ a.start) :
    a.settled = b.settled := by
  obtain ⟨start, stop, _, _, ordered⟩ := a
  obtain ⟨start', stop', _, _, ordered'⟩ := b
  dsimp only at ab ba
  obtain rfl : stop = start := by omega
  obtain rfl : stop' = stop := by omega
  obtain rfl : start' = stop' := by omega
  simp only [settled, ↓reduceIte]

/-- Spans that fit in two listings are the same ones in order, but for empty ones at one place. -/
theorem FitFrom.map_settled_eq {reached reached' : Nat} {first second : List Span}
    (fit : FitFrom size reached first) (also : FitFrom size reached' second)
    (perm : first.Perm second) : first.map settled = second.map settled := by
  have inOrder {listed : List Span} (apart : listed.Pairwise fun a b => a.stop ≤ b.start) :
      (listed.map settled).Pairwise fun a b => a.stop ≤ b.start := by
    rw [List.pairwise_map]
    simpa only [start_settled, stop_settled] using apart
  refine (perm.map settled).eq_of_pairwise ?_ (inOrder fit.apart) (inOrder also.apart)
  intro _ _ aListed bListed ab ba
  obtain ⟨a, -, rfl⟩ := List.mem_map.mp aListed
  obtain ⟨b, -, rfl⟩ := List.mem_map.mp bListed
  rw [stop_settled, start_settled] at ab ba
  exact settled_eq_of_stop_le ab ba

end Span

namespace Tokenizer

variable {σ : Type} [RandomSource σ]

section

variable (tokenizer : Tokenizer) {options common : Options} {text : Text}

/-! ## Empty spans -/

theorem outcome_tokenizeHere_nil (unfailing : options.IsUnfailing) (desk : Desk σ) :
    Computation.outcome (tokenizer.tokenizeHere options []) desk = (.ok ⟨[], [], []⟩, desk) := by
  have nothing : tokenizer.walk options [] desk.source = ⟨[], none, desk.source⟩ := rfl
  rw [outcome_tokenizeHere, nothing, ended, outcome_of_unmarked unfailing.noBos unfailing.noEos rfl]
  simp [unfailing.measurable, Walk.ids, Walk.skipped, lastNotices, Tokenization.isLossless,
    Call.noticesOf]

theorem idsBetween_self (unfailing : options.IsUnfailing) (place : Nat) :
    tokenizer.idsBetween (σ := σ) options text place place = pure [] := by
  funext desk
  have empty : text.slice place place = [] := by simp [Text.slice]
  change Computation.outcome (tokenizer.idsBetween options text place place) desk = _
  rw [idsBetween, empty, Computation.outcome_bind, outcome_tokenizeHere_nil tokenizer unfailing]
  rfl

theorem idsBetween_settled (span : Span) :
    tokenizer.idsBetween (σ := σ) span.settled.options text span.start span.stop =
      tokenizer.idsBetween span.options text span.start span.stop := by
  by_cases empty : span.start = span.stop
  · rw [← empty, idsBetween_self tokenizer (isUnfailing_options span),
      idsBetween_self tokenizer (isUnfailing_options span.settled)]
  · rw [Span.settled, if_neg empty]

theorem idsFrom_map_settled (reached : Nat) (spans : List Span) :
    tokenizer.idsFrom (σ := σ) common text reached (spans.map Span.settled) =
      tokenizer.idsFrom common text reached spans := by
  induction spans generalizing reached with
  | nil => rfl
  | cons span rest ih =>
      simp only [List.map_cons, idsFrom, Span.start_settled, Span.stop_settled, idsBetween_settled, ih]

/-! ## Runs through spans -/

theorem exists_tokenization_here (unfailing : options.IsUnfailing) (text : Text) (desk : Desk σ) :
    ∃ result after, (tokenizer.tokenize options text .current).runOn desk = (.ok result, after) := by
  have begun : (Supply.current : Supply σ).begin? (options.seed.map Int.ofNat) desk.source =
      some desk.source := rfl
  obtain ⟨notices, returned⟩ := runOn_tokenize_of_isUnfailing unfailing begun tokenizer text
  exact ⟨_, _, returned⟩

theorem exists_threads (common : Strategy) (pieces : List (Segment Span)) (desk : Desk σ) : ∃ results after, Threads tokenizer common pieces desk results after := by
  induction pieces generalizing desk with
  | nil => exact ⟨[], desk, .done⟩
  | cons piece rest ih =>
      obtain ⟨result, between, returned⟩ := exists_tokenization_here tokenizer
        (isUnfailing_pieceOptions common piece) piece.text desk
      obtain ⟨results, after, threads⟩ := ih between
      exact ⟨result :: results, after, .piece returned threads⟩

/-- How a span is refused for its place in a text. -/
inductive Refuses (text : Text) (span : Span) : Failure → Prop where
  | overlap : Refuses text span (.overlap span.start span.stop)
  | beyondEnd : Refuses text span (.beyondEnd span.start span.stop text.length)

theorem exists_refused_of_not_fitFrom (common : Strategy) {reached : Nat}
    {spans : List Span} (unfit : ¬ Span.FitFrom text.length reached spans) (desk : Desk σ) :
    ∃ failure after,
      Computation.outcome (tokenizer.idsFrom (.ofStrategy common) text reached spans) desk =
        (.error failure, after) ∧ ∃ span ∈ spans, Refuses text span failure := by
  induction spans generalizing reached desk with
  | nil => exact absurd (Span.fitFrom_nil _ _) unfit
  | cons span rest ih =>
      rcases Nat.lt_or_ge span.start reached with behind | ahead
      · exact ⟨_, _, idsFrom_cons_of_overlap behind, span, .head _, .overlap⟩
      rcases Nat.lt_or_ge text.length span.stop with beyond | ends
      · exact ⟨_, _, idsFrom_cons_of_beyondEnd ahead beyond, span, .head _, .beyondEnd⟩
      -- This span fits, so the run gets to the rest, from whatever source it leaves.
      have restUnfit : ¬ Span.FitFrom text.length span.stop rest := fun fit =>
        unfit (Span.fitFrom_cons_iff.mpr ⟨ahead, ends, fit⟩)
      obtain ⟨before, between, threads⟩ :=
        exists_threads tokenizer common (Span.gap text reached span.start) desk
      obtain ⟨result, next, within⟩ := exists_tokenization_here tokenizer
        (isUnfailing_options span) (text.slice span.start span.stop) between
      obtain ⟨failure, after, refused, found⟩ := ih restUnfit next
      refine ⟨failure, after, ?_, found.imp fun _ => .imp_left (.tail _)⟩
      rw [idsFrom_cons ahead ends, Computation.outcome_bind,
        outcome_gap_eq_ok_iff.mpr ⟨before, threads, rfl⟩]
      dsimp only
      rw [Computation.outcome_bind, outcome_idsBetween_eq_ok_iff.mpr ⟨result, within, rfl⟩]
      dsimp only
      rw [Computation.outcome_bind, refused]

end

/-! ## Listings that are refused -/

/-- Whether a call refuses a list of spans, for the place of one of them. -/
def RejectsSpans (tokenizer : Tokenizer) (text : Text) (spans : List Span) (strategy : String)
    (seed : Option Int) (supply : Supply σ) (desk : Desk σ) : Prop :=
  ∃ failure after,
    (tokenizer.compressSelectively text spans strategy seed supply).runOn desk =
      (.error failure, after) ∧
    ∃ span ∈ spans, Refuses text span failure

section

variable {tokenizer : Tokenizer} {text : Text} {strategy : String} {common : Strategy}
  (named : Strategy.ofName? strategy = some common) {supply : Supply σ} {seed : Option Int}
  {desk : Desk σ} {source : σ} (begun : supply.begin? seed desk.source = some source)
  {spans others : List Span}

include named begun

theorem exists_compressed_of_fitFrom (fit : Span.FitFrom text.length 0 (Span.inOrder spans)) :
    ∃ result after, (tokenizer.compressSelectively text spans strategy seed supply).runOn desk =
      (.ok result, after) := by
  obtain ⟨results, after, threads⟩ := exists_threads tokenizer common
    (Span.pieces text spans) { desk with source := source }
  rw [runOn_compressSelectively named begun,
    outcome_idsFrom_eq_ok_iff.mpr ⟨fit, results, threads, rfl⟩]
  exact ⟨_, _, rfl⟩

theorem rejectsSpans_iff_not_fitFrom :
    tokenizer.RejectsSpans text spans strategy seed supply desk ↔
      ¬ Span.FitFrom text.length 0 (Span.inOrder spans) := by
  constructor
  · rintro ⟨failure, after, refused, -⟩ fit
    obtain ⟨result, last, accepted⟩ : ∃ result last,
        (tokenizer.compressSelectively text spans strategy seed supply).runOn desk =
          (.ok result, last) := exists_compressed_of_fitFrom named begun fit
    rw [refused] at accepted
    cases accepted
  · intro unfit
    obtain ⟨failure, after, refused, span, listed, refuses⟩ := exists_refused_of_not_fitFrom
      tokenizer common unfit { desk with source := source }
    refine ⟨failure, after, ?_, span, (Span.inOrder_perm spans).mem_iff.mp listed, refuses⟩
    rw [runOn_compressSelectively named begun, refused]

theorem rejectsSpans_iff :
    tokenizer.RejectsSpans text spans strategy seed supply desk ↔
      (∃ span ∈ spans, text.length < span.stop) ∨ Span.Overlapping spans ∨
        Span.Straying spans := by
  rw [rejectsSpans_iff_not_fitFrom named begun, Span.fitFrom_inOrder_iff]
  simp only [not_and_or, not_forall, Nat.not_le, not_not, exists_prop]

theorem exists_compressed_of_not_rejectsSpans
    (accepted : ¬ tokenizer.RejectsSpans text spans strategy seed supply desk) :
    ∃ result after, (tokenizer.compressSelectively text spans strategy seed supply).runOn desk =
      (.ok result, after) := by
  rw [rejectsSpans_iff_not_fitFrom named begun, not_not] at accepted
  exact exists_compressed_of_fitFrom named begun accepted

theorem runOn_compressSelectively_perm (perm : others.Perm spans)
    (accepted : ¬ tokenizer.RejectsSpans text others strategy seed supply desk)
    (also : ¬ tokenizer.RejectsSpans text spans strategy seed supply desk) :
    (tokenizer.compressSelectively text others strategy seed supply).runOn desk =
      (tokenizer.compressSelectively text spans strategy seed supply).runOn desk := by
  rw [rejectsSpans_iff_not_fitFrom named begun, not_not] at accepted also
  have same : (Span.inOrder others).map Span.settled = (Span.inOrder spans).map Span.settled :=
    accepted.map_settled_eq also
      ((Span.inOrder_perm others).trans (perm.trans (Span.inOrder_perm spans).symm))
  rw [runOn_compressSelectively named begun, runOn_compressSelectively named begun,
    ← idsFrom_map_settled tokenizer 0 (Span.inOrder others), same, idsFrom_map_settled]

/-- Where no empty span stands inside another one or at its start, all listings are refused for the same
reasons. -/
theorem rejectsSpans_iff_of_emptyApart (emptyApart : Span.EmptyApart spans)
    (perm : others.Perm spans) :
    tokenizer.RejectsSpans text others strategy seed supply desk ↔
      (∃ span ∈ spans, text.length < span.stop) ∨ Span.Overlapping spans := by
  rw [rejectsSpans_iff named begun, or_iff_left (emptyApart.of_perm perm).not_straying,
    Span.overlapping_perm perm]
  simp only [perm.mem_iff]

theorem forall_listings_accepted_iff :
    (∀ others, others.Perm spans →
        ¬ tokenizer.RejectsSpans text others strategy seed supply desk) ↔
      (∀ span ∈ spans, span.stop ≤ text.length) ∧ ¬ Span.Overlapping spans ∧
        Span.EmptyApart spans := by
  constructor
  · intro accepted
    have emptyApart : Span.EmptyApart spans := by
      by_contra nested
      obtain ⟨others, perm, straying⟩ := Span.exists_straying_of_not_emptyApart nested
      exact accepted others perm ((rejectsSpans_iff named begun).mpr (.inr (.inr straying)))
    have here := accepted spans (.refl _)
    rw [rejectsSpans_iff_of_emptyApart named begun emptyApart (.refl _), not_or] at here
    obtain ⟨noneBeyond, apart⟩ := here
    refine ⟨fun span listed => ?_, apart, emptyApart⟩
    exact Nat.not_lt.mp fun beyond => noneBeyond ⟨span, listed, beyond⟩
  · rintro ⟨inside, apart, emptyApart⟩ others perm rejected
    rcases (rejectsSpans_iff_of_emptyApart named begun emptyApart perm).mp rejected with
      ⟨span, listed, beyond⟩ | overlapping
    · exact Nat.not_lt.mpr (inside span listed) beyond
    · exact apart overlapping

end

/-- Spans are refused if one ends behind the text, two have a character in common, or an empty one goes
astray, and otherwise compressed. How they are listed makes no difference to what is given, but it does
to whether anything is given. All listings are accepted if and only if no span ends behind the text, none
share a character and no empty span stands inside another one or at its start. As long as none does, the
spans are refused in all listings or in none, and only for ending behind the text or for sharing
characters. -/
theorem rejectsSpans_of_listings (tokenizer : Tokenizer) (text : Text) (spans : List Span)
    (strategy : String) (seed : Option Int) (supply : Supply σ) (desk : Desk σ)
    (named : (Strategy.ofName? strategy).isSome = true)
    (begun : (supply.begin? seed desk.source).isSome = true) :
    let run := fun listed =>
      (tokenizer.compressSelectively text listed strategy seed supply).runOn desk
    let rejects := fun listed => tokenizer.RejectsSpans text listed strategy seed supply desk
    (rejects spans ↔ (∃ span ∈ spans, text.length < span.stop) ∨ Span.Overlapping spans ∨
      Span.Straying spans) ∧
    (¬ rejects spans → ∃ result after, run spans = (.ok result, after)) ∧
    (∀ others, others.Perm spans → ¬ rejects others → ¬ rejects spans → run others = run spans) ∧
    ((∀ others, others.Perm spans → ¬ rejects others) ↔
      (∀ span ∈ spans, span.stop ≤ text.length) ∧ ¬ Span.Overlapping spans ∧
        Span.EmptyApart spans) ∧
    (Span.EmptyApart spans →
      (rejects spans ↔ (∃ span ∈ spans, text.length < span.stop) ∨ Span.Overlapping spans) ∧
      ∀ others, others.Perm spans → (rejects others ∧ rejects spans) ∨
        ∃ result after, run others = (.ok result, after) ∧ run spans = (.ok result, after)) := by
  intro run rejects
  obtain ⟨common, named⟩ := Option.isSome_iff_exists.mp named
  obtain ⟨source, begun⟩ := Option.isSome_iff_exists.mp begun
  refine ⟨rejectsSpans_iff named begun, exists_compressed_of_not_rejectsSpans named begun,
    fun others => runOn_compressSelectively_perm named begun,
    forall_listings_accepted_iff named begun, fun emptyApart => ?_⟩
  have rejectsIff : ∀ others, others.Perm spans →
      (rejects others ↔ (∃ span ∈ spans, text.length < span.stop) ∨ Span.Overlapping spans) :=
    fun others => rejectsSpans_iff_of_emptyApart named begun emptyApart
  refine ⟨rejectsIff spans (.refl _), fun others perm => ?_⟩
  have same : rejects others ↔ rejects spans :=
    (rejectsIff others perm).trans (rejectsIff spans (.refl _)).symm
  by_cases rejected : rejects spans
  · exact .inl ⟨same.mpr rejected, rejected⟩
  · obtain ⟨result, after, returned⟩ := exists_compressed_of_not_rejectsSpans named begun rejected
    have alike : run others = run spans :=
      runOn_compressSelectively_perm named begun perm (mt same.mp rejected) rejected
    exact .inr ⟨result, after, alike.trans returned, returned⟩

/-- An empty span between two others is compressed alike in two listings; spans that share a character
are refused. -/
theorem rejectsSpans_of_listings_reversed :
    let tokenizer := ofVocabulary {
      tokens := #[['a'], ['b'], ['c'], ['d']]
      merges := none
      bos := none
      eos := none
      modelType := none
      specialIds := []
      bos_lt_size := by decide
      eos_lt_size := by decide
      specialIds_lt_size := by decide }
    let desk : Desk Script := Desk.fresh ⟨[], [], 0, 0⟩
    let text : Text := "abcd".toList
    let late : Span := ⟨2, 4, .random, 4, by decide⟩
    let empty : Span := ⟨1, 1, .shortest, 4, by decide⟩
    let early : Span := ⟨0, 1, .longest, 4, by decide⟩
    let wide : Span := ⟨1, 3, .longest, 4, by decide⟩
    (Strategy.ofName? "longest").isSome = true ∧
    ((Supply.current : Supply Script).begin? none desk.source).isSome = true ∧
    Span.EmptyApart [late, empty, early] ∧
    (∃ result after,
      (tokenizer.compressSelectively text [early, empty, late] "longest" none .current).runOn desk =
        (.ok result, after) ∧
      (tokenizer.compressSelectively text [late, empty, early] "longest" none .current).runOn desk =
        (.ok result, after)) ∧
    tokenizer.RejectsSpans text [late, wide] "longest" none .current desk := by
  intro tokenizer desk text late empty early wide
  have emptyApart : Span.EmptyApart [late, empty, early] := by
    simp [Span.EmptyApart, late, empty, early]
  have sorted : Span.inOrder [late, empty, early] = [early, empty, late] := by
    simp [Span.inOrder, List.mergeSort, late, empty, early]
  have accepted : (tokenizer.compressSelectively text [late, empty, early] "longest" none
      .current).runOn desk =
        (.ok (tokenizer.compressed text [0, 1, 2, 3]), ⟨⟨[], [], 0, 4⟩, #[]⟩) := by
    rw [compressSelectively, sorted]
    rfl
  refine ⟨rfl, rfl, emptyApart, ?_, ?_⟩
  · obtain ⟨-, -, -, -, tidy⟩ := rejectsSpans_of_listings tokenizer text [late, empty, early]
      "longest" none .current desk rfl rfl
    have reversed : [early, empty, late].Perm [late, empty, early] :=
      List.reverse_perm [late, empty, early]
    rcases (tidy emptyApart).2 _ reversed with ⟨-, _, _, refused, -⟩ | alike
    · rw [accepted] at refused
      cases refused
    · exact alike
  · obtain ⟨rejectsIff, -⟩ := rejectsSpans_of_listings tokenizer text [late, wide]
      "longest" none .current desk rfl rfl
    refine rejectsIff.mpr (.inr (.inl ⟨late, wide, .refl _, fun apart => ?_⟩))
    exact apart 2 ⟨⟨by decide, by decide⟩, ⟨by decide, by decide⟩⟩

/-- An empty span at the start of another one shares no character with it. It is refused if it is listed
behind that one, and compressed if it is listed before. -/
theorem compressSelectively_depends_on_listing :
    let tokenizer := ofVocabulary {
      tokens := #[['a'], ['b'], ['c'], ['d']]
      merges := none
      bos := none
      eos := none
      modelType := none
      specialIds := []
      bos_lt_size := by decide
      eos_lt_size := by decide
      specialIds_lt_size := by decide }
    let desk : Desk Script := Desk.fresh ⟨[], [], 0, 0⟩
    let text : Text := "abcd".toList
    let wide : Span := ⟨1, 3, .longest, 4, by decide⟩
    let empty : Span := ⟨1, 1, .longest, 4, by decide⟩
    (∀ span ∈ [wide, empty], span.stop ≤ text.length) ∧ ¬ Span.Overlapping [wide, empty] ∧
    [empty, wide].Perm [wide, empty] ∧
    (∃ after,
      (tokenizer.compressSelectively text [wide, empty] "longest" none .current).runOn desk =
        (.error (.overlap 1 1), after)) ∧
    ∃ after,
      (tokenizer.compressSelectively text [empty, wide] "longest" none .current).runOn desk =
        (.ok (tokenizer.compressed text [0, 1, 2, 3]), after) := by
  intro tokenizer desk text wide empty
  have asListed : Span.inOrder [wide, empty] = [wide, empty] := by
    simp [Span.inOrder, List.mergeSort, wide, empty]
  have asListed' : Span.inOrder [empty, wide] = [empty, wide] := by
    simp [Span.inOrder, List.mergeSort, wide, empty]
  refine ⟨by simp [wide, empty, text], ?_, .swap _ _ _, ?_, ?_⟩
  · rw [Span.not_overlapping_iff, List.pairwise_pair]
    exact symm (Span.apart_of_stop_le (a := empty) (b := wide) (Nat.le_refl 1))
  · rw [compressSelectively, asListed]
    exact ⟨_, rfl⟩
  · rw [compressSelectively, asListed']
    exact ⟨_, rfl⟩

end Tokenizer

end Tessera
