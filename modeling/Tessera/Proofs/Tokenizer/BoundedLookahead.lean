import Mathlib.Data.List.TakeWhile
import Tessera.Proofs.Tokenizer.StaysAhead
import Tessera.Proofs.Tokenizer.StrictWalks
import Tessera.Proofs.Vocabulary.TrieLookup

/-!
# How far a walk looks ahead

What matches at a place is decided by as many characters as the longest token has. So where two texts agree
up to some place, and no special text is kept together, walks from one source do the same at each place from
which the longest token would not reach beyond it.
-/

set_option autoImplicit false

namespace Tessera

/-! ## Matches -/

namespace Trie

variable {ι : Type}

theorem length_le_maxDepth {entries : List (Text × ι)} {entry : Text × ι} (listed : entry ∈ entries) :
    entry.1.length ≤ ((empty : Trie ι).insertEach entries).maxDepth := by
  rw [maxDepth_insertEach_empty]
  exact List.le_max?_getD_of_mem (List.mem_map_of_mem listed)

theorem isPrefixOf_eq_of_take {key text other : Text} {depth : Nat} (short : key.length ≤ depth)
    (agree : text.take depth = other.take depth) : key.isPrefixOf text = key.isPrefixOf other := by
  have within (text : Text) : key <+: text.take depth ↔ key <+: text :=
    List.prefix_take_iff.trans (and_iff_left short)
  rw [Bool.eq_iff_iff, List.isPrefixOf_iff_prefix, List.isPrefixOf_iff_prefix, ← within, agree, within]

/-- The matches of a text depend on no more characters than the trie is deep. -/
theorem matchesOf_eq_of_take (tokens : List Text) {text other : Text}
    (agree : text.take (ofTokens tokens).maxDepth = other.take (ofTokens tokens).maxDepth) :
    (ofTokens tokens).matchesOf text = (ofTokens tokens).matchesOf other := by
  rw [ofTokens, insertAll_eq_insertEach] at agree ⊢
  rw [matchesOf_insertEach, matchesOf_insertEach, matchesAmong, matchesAmong]
  have sameStarts : ∀ entry ∈ tokens.zipIdx,
      (!entry.1.isEmpty && entry.1.isPrefixOf text) =
        (!entry.1.isEmpty && entry.1.isPrefixOf other) := by
    intro entry listed
    rw [isPrefixOf_eq_of_take (length_le_maxDepth listed) agree]
  rw [List.filter_congr sameStarts]

end Trie

namespace Tokenizer

variable {σ : Type}

theorem choose_eq_of_take [RandomSource σ] (tokenizer : Tokenizer) (options : Options)
    {text other : Text}
    (agree : text.take tokenizer.trie.maxDepth = other.take tokenizer.trie.maxDepth) (source : σ) :
    tokenizer.choose options text source = tokenizer.choose options other source := by
  have sameMatches : tokenizer.trie.matchesOf text = tokenizer.trie.matchesOf other := by
    rw [tokenizer.trie_eq] at agree ⊢
    exact Trie.matchesOf_eq_of_take _ agree
  rw [choose, choose, sameMatches]

/-! ## Decisions with a common beginning -/

/-- Whether two lists of decisions begin alike, and behind that a property holds of none. -/
inductive SharesFront (kept : Decision → Prop) : List Decision → List Decision → Prop where
  | apart {decisions others : List Decision} :
      (∀ decision ∈ decisions, ¬ kept decision) → (∀ decision ∈ others, ¬ kept decision) →
      SharesFront kept decisions others
  | cons (decision : Decision) {decisions others : List Decision} :
      SharesFront kept decisions others →
      SharesFront kept (decision :: decisions) (decision :: others)

namespace SharesFront

variable {kept : Decision → Prop} {decisions others : List Decision}

theorem filter_eq [DecidablePred kept] (shares : SharesFront kept decisions others) :
    decisions.filter kept = others.filter kept := by
  induction shares with
  | apart noneKept noneOther =>
      have empty {decisions : List Decision} (noneKept : ∀ decision ∈ decisions, ¬ kept decision) :
          decisions.filter kept = [] := by simpa using noneKept
      rw [empty noneKept, empty noneOther]
  | cons decision _ ih => rw [List.filter_cons, List.filter_cons, ih]

theorem takeWhile (shares : SharesFront kept decisions others) (goesOn : Decision → Bool) :
    SharesFront kept (decisions.takeWhile goesOn) (others.takeWhile goesOn) := by
  induction shares with
  | apart noneKept noneOther =>
      refine .apart (fun decision member => ?_) (fun decision member => ?_)
      · exact noneKept decision ((List.takeWhile_prefix _).subset member)
      · exact noneOther decision ((List.takeWhile_prefix _).subset member)
  | cons decision _ ih =>
      rw [List.takeWhile_cons, List.takeWhile_cons]
      cases goesOn decision with
      | true => exact .cons decision ih
      | false => exact .apart (by simp) (by simp)

end SharesFront

/-- Whether a decision is settled by the characters before a place: it is made at one of them, and no match
there reaches beyond the place. -/
def Decision.IsSettled (depth known : Nat) (decision : Decision) : Prop :=
  decision.position < known ∧ decision.position + depth ≤ known

instance (depth known : Nat) : DecidablePred (Decision.IsSettled depth known) :=
  fun _ => inferInstanceAs (Decidable (_ ∧ _))

/-! ## Walks -/

theorem position_le_of_mem_after {walk : Walk σ} {first decision : Decision} {position : Nat}
    (here : first.position = position)
    (later : decision ∈ walk.decisions → position + 1 ≤ decision.position)
    (member : decision ∈ (walk.after first).decisions) : position ≤ decision.position := by
  rcases List.mem_cons.mp member with rfl | behind
  · exact here.ge
  · exact (Nat.le_succ _).trans (later behind)

theorem position_le_of_mem_along {choose : Text → σ → Option (Match Nat × σ)} {strict : Bool}
    {covered position : Nat} {text : Text} {source : σ} {decision : Decision}
    (member : decision ∈ (Walk.along choose strict covered position text source).decisions) :
    position ≤ decision.position := by
  induction text generalizing covered position source with
  | nil => cases member
  | cons c rest ih =>
      cases covered with
      | succ more => exact (Nat.le_succ _).trans (ih member)
      | zero =>
          rw [Walk.along] at member
          split at member
          · exact position_le_of_mem_after rfl ih member
          · split at member
            · cases member
            · exact position_le_of_mem_after rfl ih member

theorem not_isSettled_of_mem_along {depth known : Nat} {choose : Text → σ → Option (Match Nat × σ)}
    {strict : Bool} {covered position : Nat} {text : Text} {source : σ}
    (behind : ¬ (position < known ∧ position + depth ≤ known)) :
    ∀ decision ∈ (Walk.along choose strict covered position text source).decisions,
      ¬ decision.IsSettled depth known := by
  intro decision member settled
  have later := position_le_of_mem_along member
  have inside := settled.1
  have reached := settled.2
  exact behind ⟨by omega, by omega⟩

/-- Where a choice sees no more than some characters of a text, walks along texts that agree up to a place
share all that is settled by then. -/
theorem along_sharesFront {choose : Text → σ → Option (Match Nat × σ)} {depth : Nat}
    (sees : ∀ {text other : Text}, text.take depth = other.take depth →
      ∀ source, choose text source = choose other source)
    (strict : Bool) (covered : Nat) {known position : Nat} {text other : Text} (source : σ)
    (agree : text.take (known - position) = other.take (known - position)) :
    SharesFront (Decision.IsSettled depth known)
      (Walk.along choose strict covered position text source).decisions
      (Walk.along choose strict covered position other source).decisions := by
  induction text generalizing covered position other source with
  | nil =>
      by_cases settled : position < known ∧ position + depth ≤ known
      · have ahead : known - position ≠ 0 := by omega
        obtain rfl : other = [] := by
          rw [List.take_nil] at agree
          exact (List.take_eq_nil_iff.mp agree.symm).resolve_left ahead
        exact .apart (by simp [Walk.along]) (by simp [Walk.along])
      · exact .apart (not_isSettled_of_mem_along settled) (not_isSettled_of_mem_along settled)
  | cons c rest ih =>
      by_cases settled : position < known ∧ position + depth ≤ known
      · -- The longest token does not reach beyond what is known, so the same is chosen in both texts.
        have seen : (c :: rest).take depth = other.take depth := by
          have fewer : min depth (known - position) = depth := by omega
          rw [← fewer, ← List.take_take, agree, List.take_take]
        have ahead : known - position = known - (position + 1) + 1 := by omega
        rw [ahead] at agree
        cases other with
        | nil => cases agree
        | cons d further =>
            rw [List.take_succ_cons, List.take_succ_cons] at agree
            obtain ⟨rfl, agreeBehind⟩ := List.cons.inj agree
            cases covered with
            | succ more => exact ih more source agreeBehind
            | zero =>
                rw [Walk.along, Walk.along, ← sees seen source]
                cases choose (c :: rest) source with
                | some selected => exact .cons _ (ih _ selected.2 agreeBehind)
                | none =>
                    cases strict with
                    | true => exact .apart (by simp) (by simp)
                    | false => exact .cons _ (ih 0 source agreeBehind)
      · exact .apart (not_isSettled_of_mem_along settled) (not_isSettled_of_mem_along settled)

/-! ## Calls -/

section

variable {tokenizer : Tokenizer} {options : Options}

/-- Where no special text is kept together, a walk through a text is one along the whole of it. -/
theorem decisions_walk_of_whole
    (whole : tokenizer.vocabulary.registeredIds = [] ∨ options.preserveSpecial = false)
    (text : Text) [RandomSource σ] (source : σ) :
    (tokenizer.walk options text source).decisions =
      (Walk.along (tokenizer.choose options) options.strict 0 0 text source).decisions := by
  have uncut : tokenizer.segments options text = if text = [] then [] else [⟨text, 0, none⟩] := by
    rcases whole with unregistered | brokenUp
    · exact segments_of_no_special unregistered text
    · rw [segments, brokenUp]
      exact SpecialIndex.split_nil text
  rw [walk, uncut]
  split
  · next empty =>
      rw [empty]
      rfl
  · simp only [walkSegments]
    split
    · rfl
    · exact List.append_nil _

variable [RandomSource σ]

/-- What a call decides, one place after the other, until it ends: where no token can be selected, it comes
only to the first that is to be. -/
def decisionsMade (tokenizer : Tokenizer) (options : Options) (text : Text) (source : σ) :
    List Decision :=
  if options.isMeasurable then (tokenizer.walk options text source).decisions
  else (tokenizer.walk options text source).beforeSelection

/-- A call that returns has decided all that its walk does. -/
theorem decisionsMade_of_ended {text : Text} {source : σ} {desk after : Desk σ} {result : Tokenization}
    (returned : tokenizer.ended options text desk (tokenizer.walk options text source) =
      (.ok result, after)) :
    tokenizer.decisionsMade options text source = (tokenizer.walk options text source).decisions := by
  unfold decisionsMade
  split
  · rfl
  · next unmeasurable =>
      rw [Walk.beforeSelection, List.takeWhile_eq_self_iff]
      intro decision member
      cases emits : decision.isEmit with
      | false => rfl
      | true =>
          have selects := List.any_eq_true.mpr ⟨decision, member, emits⟩
          rw [ended_of_blocked (by simpa using unmeasurable) selects] at returned
          cases returned

/-- Calls on texts that agree up to a place, from one source, decide the same wherever that is settled. -/
theorem decisionsMade_eq_of_agree
    (whole : tokenizer.vocabulary.registeredIds = [] ∨ options.preserveSpecial = false)
    {text other : Text} {known : Nat} (agree : text.take known = other.take known) (source : σ) :
    (tokenizer.decisionsMade options text source).filter
        (Decision.IsSettled tokenizer.trie.maxDepth known) =
      (tokenizer.decisionsMade options other source).filter
        (Decision.IsSettled tokenizer.trie.maxDepth known) := by
  have shares : SharesFront (Decision.IsSettled tokenizer.trie.maxDepth known)
      (tokenizer.walk options text source).decisions
      (tokenizer.walk options other source).decisions := by
    rw [decisions_walk_of_whole whole, decisions_walk_of_whole whole]
    exact along_sharesFront (tokenizer.choose_eq_of_take options) options.strict 0 source agree
  unfold decisionsMade
  split
  · exact shares.filter_eq
  · exact (shares.takeWhile _).filter_eq

/-- Two texts that part behind a token. What follows it is not settled in either. -/
theorem decisionsMade_eq_of_agree_behind_token :
    let tokenizer := ofVocabulary {
      tokens := #[['a'], ['a', 'b'], ['b', 'c']]
      merges := none
      bos := none
      eos := none
      modelType := none
      specialIds := []
      bos_lt_size := by decide
      eos_lt_size := by decide
      specialIds_lt_size := by decide }
    let text : Text := ['?', 'a', 'b', 'b', 'c']
    let other : Text := ['?', 'a', 'b', 'b', 'a']
    tokenizer.vocabulary.registeredIds = [] ∧ text.take 4 = other.take 4 ∧
      tokenizer.decisionsMade .default text (⟨[], [1], 0, 0⟩ : Script) =
        [.skip 0 '?', .emit 1 ⟨1, 2, ['a', 'b']⟩, .emit 3 ⟨2, 2, ['b', 'c']⟩] ∧
      (tokenizer.decisionsMade .default other (⟨[], [1], 0, 0⟩ : Script)).filter
          (Decision.IsSettled tokenizer.trie.maxDepth 4) =
        [.skip 0 '?', .emit 1 ⟨1, 2, ['a', 'b']⟩] := by
  intro tokenizer text other
  have unregistered : tokenizer.vocabulary.registeredIds = [] := rfl
  have agree : text.take 4 = other.take 4 := rfl
  refine ⟨unregistered, agree, rfl, ?_⟩
  rw [← decisionsMade_eq_of_agree (.inl unregistered) agree]
  rfl

/-- Where no token has a character, the place up to which texts agree is not settled: one of them may end
there. -/
theorem decisionsMade_ne_where_a_text_ends :
    let tokenizer := ofVocabulary {
      tokens := #[]
      merges := none
      bos := none
      eos := none
      modelType := none
      specialIds := []
      bos_lt_size := by decide
      eos_lt_size := by decide
      specialIds_lt_size := by decide }
    let source : Script := ⟨[], [0], 0, 0⟩
    let text : Text := ['a']
    let other : Text := []
    let told (decisions : List Decision) : List (Nat × Option Nat) :=
      (decisions.filter fun decision => decision.position + tokenizer.trie.maxDepth ≤ 0).map
        fun decision => (decision.position, decision.id?)
    tokenizer.vocabulary.registeredIds = [] ∧ Options.default.strict = false ∧
      text.take 0 = other.take 0 ∧
      told (tokenizer.decisionsMade .default text source) ≠
        told (tokenizer.decisionsMade .default other source) := by
  decide

end

end Tokenizer

end Tessera
