import Tessera.Proofs.Tokenizer.Uncovered

/-!
# Ways to make up a text

What random tokens can attain, and how the longest ones keep up with every other way.
-/

set_option autoImplicit false

/-! ## Tokenizations that can be attained

Under the random strategy each way to make up a text out of tokens is attained by some source of
random numbers, and nothing else is.
-/

namespace Tessera

/-- Whether ids are those of tokens that make up a text. None of the tokens is empty. -/
def Vocabulary.Spells (vocabulary : Vocabulary) (ids : List Nat) (text : Text) : Prop :=
  (∀ id ∈ ids, ∃ token, vocabulary.tokens[id]? = some token ∧ token ≠ []) ∧
    vocabulary.decode (ids.map Int.ofNat) = text

/-! ### Draws of a script -/

theorem Script.turn_append_cons {α : Type} (given further : List α) (next : α) :
    turn (given ++ next :: further) given.length = some next := by
  have inside : given.length < (given ++ next :: further).length := by simp
  rw [turn, Nat.mod_eq_of_lt inside]
  simp

theorem Selection.uniform_script {α : Type} {elements : List α} {place : Nat} {element : α}
    (placed : elements[place]? = some element) {script : Script}
    (told : Script.turn script.integers script.integersGiven = some (place : Int)) :
    uniform elements script =
      some (element, { script with integersGiven := script.integersGiven + 1 }) := by
  obtain ⟨inside, rfl⟩ := List.getElem?_eq_some_iff.mp placed
  cases elements with
  | nil => cases inside
  | cons first rest =>
      rw [List.length_cons] at inside
      have drawn : ((place : Int) % ((rest.length + 1 : Nat) : Int)).toNat = place := by
        rw [← Int.natCast_emod, Nat.mod_eq_of_lt inside, Int.toNat_natCast]
      simp only [uniform, RandomSource.below, told, Option.getD_some, drawn, List.get_eq_getElem]

namespace Tokenizer

/-! ### Vocabularies without special ids -/

variable {tokenizer : Tokenizer} {options : Options}

theorem segments_of_no_special (plain : tokenizer.vocabulary.registeredIds = []) (text : Text) :
    tokenizer.segments options text = if text = [] then [] else [⟨text, 0, none⟩] := by
  have noneRegistered : tokenizer.special = [] := by
    rw [tokenizer.special_eq, SpecialIndex.ofVocabulary, plain, List.foldl_nil]
  simp only [segments, noneRegistered, ite_self, SpecialIndex.split_nil]

theorem eligible_of_no_special (plain : tokenizer.vocabulary.registeredIds = [])
    (candidates : List (Match Nat)) : tokenizer.eligible options candidates = candidates := by
  have allPlain : candidates.filter (fun m => !tokenizer.vocabulary.isSpecial m.id) =
      candidates := by
    simp [Vocabulary.isSpecial, plain]
  simp only [eligible, allPlain, ite_self]

/-- A trace through a whole text is a trace through its only segment. -/
theorem Trace.traces_of_no_special {σ : Type} [RandomSource σ]
    (plain : tokenizer.vocabulary.registeredIds = []) {text : Text} {source last : σ}
    {decisions : List Decision}
    (trace : Trace (tokenizer.choose options) 0 text source decisions last) :
    Traces (tokenizer.choose options) (tokenizer.segments options text) source decisions last := by
  rw [segments_of_no_special plain]
  by_cases empty : text = []
  · subst empty
    obtain ⟨rfl, rfl⟩ := trace.of_nil (choose_sound tokenizer options)
    exact .done
  · rw [if_neg empty, ← List.append_nil decisions]
    exact .plain rfl trace .done

/-! ### Scripts for tokenizations -/

/-- Some further draws of a script have the tokens of a text selected one by one, whatever the script
has given before. -/
theorem exists_draws (plain : tokenizer.vocabulary.registeredIds = [])
    (random : options.strategy = .random) {ids : List Nat} {text : Text}
    (spells : tokenizer.vocabulary.Spells ids text) (given : List Int) (position : Nat) :
    ∃ draws decisions last, Trace (tokenizer.choose options) position text
        (⟨[], given ++ draws, 0, given.length⟩ : Script) decisions last ∧
      decisions.filterMap Decision.id? = ids ∧ decisions.filterMap Decision.skipped? = [] := by
  induction ids generalizing text given position with
  | nil =>
      cases spells.2
      exact ⟨[], [], _, .done, rfl, rfl⟩
  | cons id rest ih =>
      obtain ⟨tokens, rfl⟩ := spells
      obtain ⟨token, held, nonempty⟩ := tokens id (.head _)
      have restSpells : tokenizer.vocabulary.Spells rest
          (tokenizer.vocabulary.decode (rest.map Int.ofNat)) :=
        ⟨fun other member => tokens other (.tail _ member), rfl⟩
      rw [decode_cons, held, Option.getD_some]
      generalize tokenizer.vocabulary.decode (rest.map Int.ofNat) = after at restSpells
      let candidate : Match Nat := ⟨id, token.length, token⟩
      have listed : candidate ∈ tokenizer.trie.matchesOf (token ++ after) :=
        mem_matchesOf held nonempty (List.prefix_append _ _)
      obtain ⟨place, placed⟩ := List.mem_iff_getElem?.mp listed
      obtain ⟨draws, decisions, last, further, idsEq, lossless⟩ :=
        ih restSpells (given ++ [(place : Int)]) (position + token.length)
      rw [List.append_assoc, List.singleton_append, List.length_append, List.length_singleton]
        at further
      have selected : tokenizer.choose options (candidate.text ++ after)
          (⟨[], given ++ (place : Int) :: draws, 0, given.length⟩ : Script) =
          some (candidate, ⟨[], given ++ (place : Int) :: draws, 0, given.length + 1⟩) := by
        rw [choose, random, eligible_of_no_special plain]
        exact Selection.uniform_script placed (Script.turn_append_cons given draws (place : Int))
      exact ⟨place :: draws, .emit position candidate :: decisions, last, .emit selected further,
        by simp [Decision.id?, candidate, idsEq], by simpa [Decision.skipped?] using lossless⟩

/-! ### What is attained -/

/-- Whether some source makes a call give some ids, with nothing left out. -/
def Attains (tokenizer : Tokenizer) (options : Options) (text : Text) (ids : List Nat) : Prop :=
  ∃ (σ : Type) (_ : RandomSource σ) (supply : Supply σ) (desk after : Desk σ)
    (result : Tokenization),
    (tokenizer.tokenize options text supply).runOn desk = (.ok result, after) ∧
      result.skipped = [] ∧ result.ids = ids

/-- Without special ids and marks, random selection attains exactly the ids that spell the text. -/
theorem attains_iff_spells (plain : tokenizer.vocabulary.registeredIds = [])
    (random : options.strategy = .random) (noBos : options.addBos = false)
    (noEos : options.addEos = false) (text : Text) (ids : List Nat) :
    tokenizer.Attains options text ids ↔ tokenizer.vocabulary.Spells ids text := by
  constructor
  · rintro ⟨σ, _, supply, desk, after, result, returned, lossless, rfl⟩
    obtain ⟨source, finished, first, last, bos, eos, rfl⟩ := exists_walk_of_tokenize returned
    cases mark_of_not_requested noBos bos
    cases mark_of_not_requested noEos eos
    have covers := walk_covers tokenizer options text source finished
    rw [List.nil_append, List.append_nil]
    exact ⟨fun id member => covers.isToken_of_id member, covers.decode_eq_self lossless⟩
  · intro spells
    obtain ⟨draws, decisions, last, trace, rfl, lossless⟩ :=
      exists_draws plain random spells [] 0
    let script : Script := ⟨[], draws, 0, 0⟩
    have walked : tokenizer.walk options text script = ⟨decisions, none, last⟩ :=
      (trace.traces_of_no_special plain).walkSegments_eq fun _ => lossless
    have measurable : options.isMeasurable = true := by simp [Options.isMeasurable, random]
    let desk : Desk Script := .fresh script
    have begun : (Supply.current : Supply Script).begin? (options.seed.map Int.ofNat) desk.source =
        some script := rfl
    obtain ⟨notices, given⟩ := runOn_tokenize measurable begun tokenizer text
    rw [walked, outcome_of_unmarked noBos noEos rfl] at given
    exact ⟨Script, _, .current, _, _, _, given, lossless, rfl⟩

/-- Either of two equal tokens is attained; an empty token never is, and neither is a text that
breaks off. -/
theorem attains_iff_spells_with_duplicates :
    let tokenizer := ofVocabulary {
      tokens := #[['a'], ['a', 'b'], ['b', 'c'], ['a', 'b'], [], ['c']]
      merges := none
      bos := none
      eos := none
      modelType := none
      specialIds := []
      bos_lt_size := by decide
      eos_lt_size := by decide
      specialIds_lt_size := by decide }
    let text : Text := "abc".toList
    tokenizer.vocabulary.registeredIds = [] ∧
      tokenizer.Attains .default text [0, 2] ∧ tokenizer.Attains .default text [3, 5] ∧
      ¬ tokenizer.Attains .default text [1, 4, 5] ∧ ¬ tokenizer.Attains .default text [1] := by
  intro tokenizer text
  have attains : ∀ ids, tokenizer.Attains .default text ids ↔
      tokenizer.vocabulary.Spells ids text :=
    attains_iff_spells rfl rfl rfl rfl text
  refine ⟨rfl, (attains [0, 2]).mpr ⟨?_, rfl⟩, (attains [3, 5]).mpr ⟨?_, rfl⟩, ?_, ?_⟩
  · simp [tokenizer, ofVocabulary]
  · simp [tokenizer, ofVocabulary]
  · intro attained
    obtain ⟨tokens, -⟩ := (attains [1, 4, 5]).mp attained
    obtain ⟨token, held, nonempty⟩ := tokens 4 (by simp)
    cases held
    exact nonempty rfl
  · intro attained
    obtain ⟨-, decoded⟩ := (attains [1]).mp attained
    exact absurd decoded (by decide)

end Tokenizer

/-! ## How the longest tokens keep up

A walk by the longest tokens may take more of them than another way to make up the text. It does not if
it keeps up: wherever it has fallen back within a piece of the other way, one token takes it to the end
of the piece, or beyond.
-/

/-- A place in a text is past its first piece or falls within it. -/
theorem past_or_within {beginning text piece further : Text}
    (stands : beginning ++ text = piece ++ further) :
    (∃ beyond, beginning = piece ++ beyond ∧ beyond ++ text = further) ∨
      ∃ ending, ending ≠ [] ∧ piece = beginning ++ ending ∧ text = ending ++ further := by
  rcases List.append_eq_append_iff.mp stands with ⟨ending, rfl, rfl⟩ | ⟨beyond, rfl, rfl⟩
  · by_cases empty : ending = []
    · exact .inl ⟨[], by simp [empty], by simp [empty]⟩
    · exact .inr ⟨ending, empty, rfl, rfl⟩
  · exact .inl ⟨beyond, rfl, rfl⟩

namespace Vocabulary

variable {vocabulary : Vocabulary}

/-! ### Shortest and longest tokens -/

def IsShortest (vocabulary : Vocabulary) (piece text : Text) : Prop :=
  ∀ token ∈ vocabulary.tokens, token ≠ [] → token <+: text → piece.length ≤ token.length

def IsLongest (vocabulary : Vocabulary) (piece text : Text) : Prop :=
  ∀ token ∈ vocabulary.tokens, token ≠ [] → token <+: text → token.length ≤ piece.length

/-- The pieces that a walk by the shortest tokens takes off a text. There are none for a text that
such a walk leaves something out of. -/
inductive ShortestPieces (vocabulary : Vocabulary) : Text → List Text → Prop where
  | done : ShortestPieces vocabulary [] []
  | take {piece rest : Text} {pieces : List Text} :
      piece ∈ vocabulary.tokens → piece ≠ [] → vocabulary.IsShortest piece (piece ++ rest) →
      ShortestPieces vocabulary rest pieces →
      ShortestPieces vocabulary (piece ++ rest) (piece :: pieces)

theorem ShortestPieces.flatten_eq {text : Text} {pieces : List Text}
    (shortest : vocabulary.ShortestPieces text pieces) : pieces.flatten = text := by
  induction shortest with
  | done => rfl
  | take _ _ _ _ ih => rw [List.flatten_cons, ih]

theorem ShortestPieces.listed {text : Text} {pieces : List Text}
    (shortest : vocabulary.ShortestPieces text pieces) :
    ∀ piece ∈ pieces, piece ∈ vocabulary.tokens := by
  induction shortest with
  | done => simp
  | take listed _ _ _ ih => exact List.forall_mem_cons.mpr ⟨listed, ih⟩

/-! ### Keeping up -/

/-- Whether, wherever tokens get to behind a front, a token stands there that reaches the end of the
piece. -/
inductive KeepsUp (vocabulary : Vocabulary) : Text → List Text → Prop where
  | done {front : Text} : KeepsUp vocabulary front []
  | piece {front piece : Text} {pieces : List Text} :
      (∀ beginning ending ids, beginning ++ ending = piece → ending ≠ [] →
        vocabulary.Spells ids (front ++ beginning) →
        ∃ token ∈ vocabulary.tokens, ending <+: token ∧ token <+: ending ++ pieces.flatten) →
      KeepsUp vocabulary (front ++ piece) pieces → KeepsUp vocabulary front (piece :: pieces)

/-- Where the ends of tokens are tokens, each end of a piece is such a token itself. -/
theorem keepsUp_of_endings
    (closed : ∀ token ∈ vocabulary.tokens, ∀ ending, ending ≠ [] → ending <:+ token →
      ending ∈ vocabulary.tokens)
    {pieces : List Text} (listed : ∀ piece ∈ pieces, piece ∈ vocabulary.tokens) (front : Text) :
    vocabulary.KeepsUp front pieces := by
  induction pieces generalizing front with
  | nil => exact .done
  | cons piece pieces ih =>
      obtain ⟨first, others⟩ := List.forall_mem_cons.mp listed
      refine .piece (fun beginning ending _ whole nonempty _ => ?_) (ih others _)
      exact ⟨ending, closed piece first ending nonempty ⟨beginning, whole⟩, List.prefix_rfl,
        List.prefix_append _ _⟩

/-- Where the characters are tokens, the shortest pieces are characters. -/
theorem ShortestPieces.keepsUp_of_characters {text : Text} {pieces : List Text}
    (characters : ∀ c ∈ text, [c] ∈ vocabulary.tokens)
    (shortest : vocabulary.ShortestPieces text pieces) (front : Text) :
    vocabulary.KeepsUp front pieces := by
  induction shortest generalizing front with
  | done => exact .done
  | @take piece rest pieces listed nonempty least _ ih =>
      have others : ∀ c ∈ rest, [c] ∈ vocabulary.tokens :=
        fun c member => characters c (List.mem_append_right _ member)
      obtain ⟨c, further, rfl⟩ := List.exists_cons_of_ne_nil nonempty
      have single := least [c] (characters c (.head _)) (List.cons_ne_nil _ _)
        (List.prefix_append [c] (further ++ rest))
      obtain rfl : further = [] := List.length_eq_zero_iff.mp (by simpa using single)
      refine .piece (fun beginning ending _ whole endingNonempty _ => ?_) (ih others _)
      have ends : ending <:+ [c] := ⟨beginning, whole⟩
      obtain rfl : ending = [c] := (List.suffix_cons_iff.mp ends).resolve_right (by simpa)
      exact ⟨[c], listed, List.prefix_rfl, List.prefix_append _ _⟩

theorem IsLongest.reaches {piece rest ending further token : Text}
    (longest : vocabulary.IsLongest piece (piece ++ rest)) (whole : piece ++ rest = ending ++ further)
    (nonempty : ending ≠ []) (listed : token ∈ vocabulary.tokens) (reached : ending <+: token)
    (starts : token <+: ending ++ further) :
    ∃ beyond, piece = ending ++ beyond ∧ beyond ++ rest = further := by
  have tokenNonempty : token ≠ [] := fun empty => nonempty (List.prefix_nil.mp (empty ▸ reached))
  have asLong := longest token listed tokenNonempty (whole ▸ starts)
  have stands : ending <+: piece ++ rest := whole ▸ List.prefix_append _ _
  obtain ⟨beyond, rfl⟩ : ending <+: piece :=
    List.prefix_of_prefix_length_le stands (List.prefix_append _ _)
      (Nat.le_trans reached.length_le asLong)
  rw [List.append_assoc] at whole
  exact ⟨beyond, rfl, List.append_cancel_left whole⟩

theorem Spells.append {ids : List Nat} {text : Text} (spells : vocabulary.Spells ids text)
    {found : Match Nat} (isToken : found.IsToken vocabulary) :
    vocabulary.Spells (ids ++ [found.id]) (text ++ found.text) := by
  obtain ⟨tokens, rfl⟩ := spells
  constructor
  · intro id member
    rcases List.mem_append.mp member with member | member
    · exact tokens id member
    · obtain rfl := List.mem_singleton.mp member
      exact ⟨found.text, isToken.token_eq, isToken.nonempty⟩
  · rw [Tokenizer.decode_append, Tokenizer.decode_cons, isToken.token_eq]
    simp [decode]

end Vocabulary

namespace Tokenizer

variable {σ : Type}

/-! ### Walks by the longest and the shortest tokens -/

section

variable [RandomSource σ] {tokenizer : Tokenizer} {options : Options} {text : Text}
  {source next : σ} {selected : Match Nat}

theorem forall_token_of_forall_candidate (bounded : Nat → Prop)
    (candidates : ∀ found ∈ tokenizer.trie.matchesOf text, bounded found.length) :
    ∀ token ∈ tokenizer.vocabulary.tokens, token ≠ [] → token <+: text → bounded token.length := by
  intro token listed nonempty starts
  obtain ⟨id, held⟩ := Array.mem_iff_getElem?.mp listed
  exact candidates _ (mem_matchesOf held nonempty starts)

theorem isShortest_of_choose (strategy : options.strategy = .shortest)
    (whole : options.preserveSpecial = true)
    (chosen : tokenizer.choose options text source = some (selected, next)) :
    tokenizer.vocabulary.IsShortest selected.text text := by
  simp only [choose, Selection.select, strategy, eligible, whole, ↓reduceIte] at chosen
  obtain ⟨member, least⟩ := Selection.mem_shortestOf_iff.mp (Selection.mem_of_uniform chosen)
  rw [Vocabulary.IsShortest, ← (matchesOf_isToken tokenizer member).1.length_eq]
  exact forall_token_of_forall_candidate (selected.length ≤ ·)
    fun other listed => Int.ofNat_le.mp (least other listed)

theorem isLongest_of_choose (strategy : options.strategy = .longest)
    (whole : options.preserveSpecial = true)
    (chosen : tokenizer.choose options text source = some (selected, next)) :
    tokenizer.vocabulary.IsLongest selected.text text := by
  simp only [choose, Selection.select, strategy, eligible, whole, ↓reduceIte] at chosen
  obtain ⟨member, greatest⟩ := Selection.mem_longestOf_iff.mp (Selection.mem_of_uniform chosen)
  rw [Vocabulary.IsLongest, ← (matchesOf_isToken tokenizer member).1.length_eq]
  exact forall_token_of_forall_candidate (· ≤ selected.length)
    fun other listed => Int.ofNat_le.mp (greatest other listed)

end

structure ShortestChoice (vocabulary : Vocabulary) (choose : Text → σ → Option (Match Nat × σ)) :
    Prop where
  sound : SoundChoice vocabulary choose
  isShortest : ∀ text source token next, choose text source = some (token, next) →
    vocabulary.IsShortest token.text text

structure LongestChoice (vocabulary : Vocabulary) (choose : Text → σ → Option (Match Nat × σ)) :
    Prop where
  sound : SoundChoice vocabulary choose
  isLongest : ∀ text source token next, choose text source = some (token, next) →
    vocabulary.IsLongest token.text text

theorem choose_shortest [RandomSource σ] (tokenizer : Tokenizer) {options : Options}
    (strategy : options.strategy = .shortest) (whole : options.preserveSpecial = true) :
    ShortestChoice tokenizer.vocabulary (tokenizer.choose (σ := σ) options) where
  sound := choose_sound tokenizer options
  isShortest _ _ _ _ chosen := isShortest_of_choose strategy whole chosen

theorem choose_longest [RandomSource σ] (tokenizer : Tokenizer) {options : Options}
    (strategy : options.strategy = .longest) (whole : options.preserveSpecial = true) :
    LongestChoice tokenizer.vocabulary (tokenizer.choose (σ := σ) options) where
  sound := choose_sound tokenizer options
  isLongest _ _ _ _ chosen := isLongest_of_choose strategy whole chosen

section

variable {vocabulary : Vocabulary} {choose : Text → σ → Option (Match Nat × σ)}
  {position : Nat} {text : Text} {source last : σ} {decisions : List Decision}

theorem Trace.shortestPieces (shortest : ShortestChoice vocabulary choose)
    (trace : Trace choose position text source decisions last)
    (lossless : decisions.filterMap Decision.skipped? = []) :
    ∃ pieces, vocabulary.ShortestPieces text pieces ∧ pieces.length = decisions.length := by
  induction trace with
  | done => exact ⟨[], .done, rfl⟩
  | emit selected _ ih =>
      obtain ⟨pieces, behind, count⟩ := ih lossless
      have isToken := (shortest.sound _ _ _ _ selected).1
      have listed := Array.mem_of_getElem? isToken.token_eq
      exact ⟨_, .take listed isToken.nonempty (shortest.isShortest _ _ _ _ selected) behind,
        congrArg Nat.succ count⟩
  | skip => simp [Decision.skipped?] at lossless

/-- A walk by the longest tokens takes no more of them than there are pieces with which it keeps up,
wherever among the pieces it starts. -/
theorem Trace.length_le_of_keepsUp (longest : LongestChoice vocabulary choose)
    {front beginning : Text} {pieces : List Text} (keepsUp : vocabulary.KeepsUp front pieces)
    (trace : Trace choose position text source decisions last)
    (lossless : decisions.filterMap Decision.skipped? = [])
    (stands : beginning ++ text = pieces.flatten)
    {ids : List Nat} (spells : vocabulary.Spells ids (front ++ beginning)) :
    decisions.length ≤ pieces.length := by
  induction keepsUp generalizing position text source decisions beginning ids with
  | done =>
      obtain ⟨-, rfl⟩ := List.append_eq_nil_iff.mp stands
      obtain ⟨rfl, -⟩ := trace.of_nil longest.sound
      exact Nat.le_refl _
  | @piece front piece pieces reaches _ ih =>
      rcases past_or_within stands with ⟨beyond, rfl, beyondStands⟩ | ⟨ending, nonempty, rfl, whole⟩
      · rw [← List.append_assoc] at spells
        exact Nat.le_succ_of_le (ih trace lossless beyondStands spells)
      · obtain ⟨token, listed, reached, starts⟩ := reaches _ _ _ rfl nonempty spells
        cases trace with
        | done => exact absurd (List.append_eq_nil_iff.mp whole.symm).1 nonempty
        | skip => simp [Decision.skipped?] at lossless
        | @emit _ rest _ _ _ selected _ chosen further =>
            obtain ⟨beyond, taken, restStands⟩ :=
              (longest.isLongest _ _ _ _ chosen).reaches whole nonempty listed reached starts
            have regrouped : front ++ beginning ++ selected.text =
                front ++ (beginning ++ ending) ++ beyond := by
              simp only [taken, List.append_assoc]
            have restSpells := regrouped ▸ spells.append (longest.sound _ _ _ _ chosen).1
            exact Nat.succ_le_succ (ih further lossless restStands restSpells)

end

/-- Over the same segments, walks by the longest tokens take no more of them than walks by the shortest
ones, if they keep up in each plain segment. -/
theorem Traces.length_le {vocabulary : Vocabulary} {σ τ : Type}
    {byLongest : Text → σ → Option (Match Nat × σ)} {byShortest : Text → τ → Option (Match Nat × τ)}
    (longest : LongestChoice vocabulary byLongest) (shortest : ShortestChoice vocabulary byShortest)
    {segments : List (Segment Nat)} {source last : σ} {otherSource otherLast : τ}
    {decisions others : List Decision}
    (keepsUp : ∀ segment ∈ segments, segment.special = none →
      ∀ pieces, vocabulary.ShortestPieces segment.text pieces → vocabulary.KeepsUp [] pieces)
    (traces : Traces byLongest segments source decisions last)
    (otherTraces : Traces byShortest segments otherSource others otherLast)
    (lossless : decisions.filterMap Decision.skipped? = [])
    (othersLossless : others.filterMap Decision.skipped? = []) :
    decisions.length ≤ others.length := by
  induction traces generalizing otherSource others with
  | done =>
      cases otherTraces
      exact Nat.le_refl _
  | special special _ ih =>
      cases otherTraces with
      | special _ further =>
          exact Nat.succ_le_succ (ih (fun segment member => keepsUp segment (.tail _ member))
            further lossless othersLossless)
      | plain plain => simp [special] at plain
  | @plain segment _ _ _ _ _ _ plain trace _ ih =>
      cases otherTraces with
      | special special => simp [plain] at special
      | plain _ otherTrace further =>
          rw [List.filterMap_append, List.append_eq_nil_iff] at lossless othersLossless
          obtain ⟨pieces, taken, count⟩ := otherTrace.shortestPieces shortest othersLossless.1
          have stands : [] ++ segment.text = pieces.flatten := taken.flatten_eq.symm
          have spells : vocabulary.Spells [] ([] ++ []) := ⟨by simp, rfl⟩
          have within := trace.length_le_of_keepsUp longest (keepsUp _ (.head _) plain pieces taken)
            lossless.1 stands spells
          have beyond := ih (fun segment member => keepsUp segment (.tail _ member)) further
            lossless.2 othersLossless.2
          simp only [List.length_append]
          omega

theorem length_ids_of_lossless {decisions : List Decision}
    (lossless : decisions.filterMap Decision.skipped? = []) :
    (decisions.filterMap Decision.id?).length = decisions.length := by
  induction decisions with
  | nil => rfl
  | cons decision rest ih =>
      cases decision with
      | emit => exact congrArg Nat.succ (ih lossless)
      | preserve => exact congrArg Nat.succ (ih lossless)
      | skip => simp [Decision.skipped?] at lossless

end Tokenizer

end Tessera
