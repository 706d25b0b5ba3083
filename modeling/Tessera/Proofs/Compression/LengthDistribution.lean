import Mathlib.Algebra.BigOperators.Ring.Finset
import Mathlib.Tactic.Ring
import Tessera.Proofs.Compression.Results
import Tessera.Proofs.Order.StableSort
import Tessera.Proofs.Tokenizer.Endings
import Tessera.Proofs.Tokenizer.Uncovered

/-!
# Distributions of lengths

A distribution lists numbers in increasing order, each with its count. Nothing gets lost in it, so the
lengths of the longest tokens add up to the text but for the characters that were left out.
-/

set_option autoImplicit false

namespace Tessera

namespace Distribution

variable {key : Int} {distribution : Distribution}

/-! ## What numbers weigh -/

/-- What the numbers of a distribution weigh together, each as often as it was counted. -/
def weighed (weight : Int → Int) (distribution : Distribution) : Int :=
  (distribution.map fun entry => weight entry.1 * entry.2).sum

theorem weighed_add (weight : Int → Int) (key : Int) (distribution : Distribution) :
    (distribution.add key).weighed weight = weight key + distribution.weighed weight := by
  induction distribution with
  | nil => simp [add, weighed]
  | cons first rest ih =>
      obtain ⟨other, count⟩ := first
      unfold add
      split
      · next same =>
          subst same
          simp only [weighed, List.map_cons, List.sum_cons]
          ring
      · simp only [weighed, List.map_cons, List.sum_cons] at ih ⊢
        rw [ih]
        ring

theorem weighed_counted (weight : Int → Int) (numbers : List Nat) :
    (counted numbers).weighed weight = (numbers.map fun number : Nat => weight number).sum := by
  have added (distribution : Distribution) :
      (numbers.foldl (fun (known : Distribution) (number : Nat) => known.add number)
        distribution).weighed weight =
      distribution.weighed weight + (numbers.map fun number : Nat => weight number).sum := by
    induction numbers generalizing distribution with
    | nil => simp
    | cons number rest ih =>
        rw [List.foldl_cons, ih, weighed_add, List.map_cons, List.sum_cons]
        ring
  exact (added []).trans (Int.zero_add _)

theorem ofList_perm (numbers : List Nat) : (ofList numbers).Perm (counted numbers) :=
  List.mergeSort_perm _ _

theorem weighed_ofList (weight : Int → Int) (numbers : List Nat) :
    (ofList numbers).weighed weight = (numbers.map fun number : Nat => weight number).sum := by
  rw [← weighed_counted, weighed, weighed]
  exact ((ofList_perm numbers).map _).sum_eq

theorem sum_counts_ofList (numbers : List Nat) :
    ((ofList numbers).map Prod.snd).sum = (numbers.length : Int) := by
  simpa [weighed] using weighed_ofList (fun _ => 1) numbers

theorem sum_products_ofList (numbers : List Nat) :
    ((ofList numbers).map fun entry => entry.1 * entry.2).sum = (numbers.sum : Int) := by
  have weighedSelf := weighed_ofList id numbers
  rw [Nat.cast_list_sum]
  exact weighedSelf

/-! ## Numbers in order -/

def IsIncreasing (distribution : Distribution) : Prop :=
  distribution.Pairwise fun entry next => entry.1 < next.1

theorem forall_mem_add {property : Int → Prop} (holds : property key)
    (each : ∀ entry ∈ distribution, property entry.1) :
    ∀ entry ∈ distribution.add key, property entry.1 := by
  induction distribution with
  | nil => exact List.forall_mem_singleton.mpr holds
  | cons first rest ih =>
      obtain ⟨other, count⟩ := first
      obtain ⟨firstHolds, restHold⟩ := List.forall_mem_cons.mp each
      unfold add
      split
      · exact List.forall_mem_cons.mpr ⟨firstHolds, restHold⟩
      · exact List.forall_mem_cons.mpr ⟨firstHolds, ih restHold⟩

/-- Whether no number is there twice. -/
def IsDistinct (distribution : Distribution) : Prop :=
  distribution.Pairwise fun entry next => entry.1 ≠ next.1

theorem IsDistinct.add (distinct : distribution.IsDistinct) (key : Int) :
    (distribution.add key).IsDistinct := by
  induction distribution with
  | nil => exact List.pairwise_singleton _ _
  | cons first rest ih =>
      obtain ⟨other, count⟩ := first
      obtain ⟨different, restDistinct⟩ := List.pairwise_cons.mp distinct
      unfold Distribution.add
      split
      · exact List.pairwise_cons.mpr ⟨different, restDistinct⟩
      · next notSame =>
          exact List.pairwise_cons.mpr ⟨forall_mem_add notSame different, ih restDistinct⟩

theorem isDistinct_counted (numbers : List Nat) : (counted numbers).IsDistinct :=
  List.foldlRecOn numbers _ List.Pairwise.nil fun _ distinct number _ => distinct.add number

theorem isIncreasing_ofList (numbers : List Nat) : (ofList numbers).IsIncreasing := by
  have sorted := List.pairwise_mergeSort (key_le_trans Prod.fst) (key_le_total Prod.fst)
    (counted numbers)
  have distinct : (ofList numbers).IsDistinct :=
    (isDistinct_counted numbers).perm (ofList_perm numbers).symm Ne.symm
  refine (sorted.and distinct).imp ?_
  intro entry next both
  exact lt_of_le_of_ne (of_decide_eq_true both.1) both.2

theorem forall_mem_ofList {property : Int → Prop} {numbers : List Nat}
    (each : ∀ number ∈ numbers, property (number : Int)) :
    ∀ entry ∈ ofList numbers, property entry.1 := by
  have eachCounted : ∀ entry ∈ counted numbers, property entry.1 := by
    refine List.foldlRecOn (motive := fun known : Distribution => ∀ entry ∈ known, property entry.1)
      numbers _ nofun ?_
    intro known knownHold number member
    exact forall_mem_add (each number member) knownHold
  intro entry member
  exact eachCounted entry ((ofList_perm numbers).mem_iff.mp member)

end Distribution

namespace Tokenizer

variable {σ : Type}

/-! ## Lengths of a tokenization -/

/-- Every character belongs to what the ids decode to, or was left out. -/
theorem Covers.length_decode {vocabulary : Vocabulary} {position : Nat} {text : Text}
    {decisions : List Decision} (covers : Covers vocabulary position text decisions) :
    (vocabulary.decode ((decisions.filterMap Decision.id?).map Int.ofNat)).length +
      (decisions.filterMap Decision.skipped?).length = text.length := by
  induction covers with
  | done => rfl
  | emit isToken _ ih =>
      simp only [List.filterMap_cons, Decision.id?, Decision.skipped?, decode_cons,
        isToken.token_eq, Option.getD_some, List.length_append]
      omega
  | preserve held _ _ ih =>
      simp only [List.filterMap_cons, Decision.id?, Decision.skipped?, decode_cons, held,
        Option.getD_some, List.length_append]
      omega
  | skip _ ih =>
      simp only [List.filterMap_cons, Decision.id?, Decision.skipped?, List.length_cons]
      omega

/-- Whether statistics account for all tokens of a tokenization of a text, and for all characters of
the text that it did not leave out. -/
structure AccountsFor (text : Text) (longest : Tokenization) (statistics : Statistics) : Prop where
  totalChars_eq : statistics.totalChars = text.length
  minTokens_eq : statistics.minTokens = longest.count
  increasing : statistics.lengths.IsIncreasing
  positive : ∀ entry ∈ statistics.lengths, 0 < entry.1
  counts_eq : (statistics.lengths.map Prod.snd).sum = statistics.minTokens
  lengths_eq : (statistics.lengths.map fun entry => entry.1 * entry.2).sum =
    statistics.totalChars - longest.skipped.length
  lossless_iff : (statistics.lengths.map fun entry => entry.1 * entry.2).sum =
    statistics.totalChars ↔ longest.isLossless = true

section

variable {tokenizer : Tokenizer} {text : Text}

/-- Where no piece is empty, the lengths of all of them are counted. -/
theorem lengths_statisticsOf {ids : List Nat} (nonempty : ∀ id ∈ ids, tokenizer.piece id ≠ [])
    (shortest : List Nat) :
    (tokenizer.statisticsOf text ids shortest).lengths =
      .ofList (ids.map fun id => (tokenizer.piece id).length) := by
  have allKept : (ids.map tokenizer.piece).filter (fun piece => !piece.isEmpty) =
      ids.map tokenizer.piece := by
    apply List.filter_eq_self.mpr
    intro piece member
    obtain ⟨id, idMember, rfl⟩ := List.mem_map.mp member
    simp [nonempty id idMember]
  rw [statisticsOf, allKept, List.map_map]
  rfl

theorem statisticsOf_accountsFor {decisions : List Decision}
    (covers : Covers tokenizer.vocabulary 0 text decisions) (shortest : List Nat) :
    AccountsFor text
      ⟨text, decisions.filterMap Decision.id?, decisions.filterMap Decision.skipped?⟩
      (tokenizer.statisticsOf text (decisions.filterMap Decision.id?) shortest) := by
  have nonempty : ∀ id ∈ decisions.filterMap Decision.id?, tokenizer.piece id ≠ [] :=
    fun id member => (covers.piece_of_id member).2
  have decoded := covers.length_decode
  rw [← flatten_pieces_compressed tokenizer text, compressed, List.length_flatten, List.map_map]
    at decoded
  generalize decisions.filterMap Decision.skipped? = skipped at decoded ⊢
  generalize decisions.filterMap Decision.id? = ids at decoded nonempty ⊢
  have lengthsEq : (tokenizer.statisticsOf text ids shortest).lengths = _ :=
    lengths_statisticsOf nonempty shortest
  have total : ((tokenizer.statisticsOf text ids shortest).lengths.map fun entry =>
      entry.1 * entry.2).sum = (text.length : Int) - skipped.length := by
    have pieces : (ids.map fun id => (tokenizer.piece id).length).sum + skipped.length =
        text.length := decoded
    rw [lengthsEq, Distribution.sum_products_ofList]
    omega
  exact {
    totalChars_eq := rfl
    minTokens_eq := rfl
    increasing := lengthsEq ▸ Distribution.isIncreasing_ofList _
    positive := by
      rw [lengthsEq]
      apply Distribution.forall_mem_ofList
      intro number member
      obtain ⟨id, idMember, rfl⟩ := List.mem_map.mp member
      exact Int.ofNat_lt.mpr (List.length_pos_iff.mpr (nonempty id idMember))
    counts_eq := by
      rw [lengthsEq, Distribution.sum_counts_ofList, List.length_map]
      rfl
    lengths_eq := total
    lossless_iff := by
      rw [total, Tokenization.isLossless, List.isEmpty_iff_length_eq_zero]
      change (text.length : Int) - skipped.length = text.length ↔ skipped.length = 0
      omega }

end

/-! ## Calls -/

theorem exists_checked_of_not_negative {seed : Option Int}
    (notNegative : ∀ value ∈ seed, 0 ≤ value) : ∃ checked, seed = Option.map Int.ofNat checked := by
  cases seed with
  | none => exact ⟨none, rfl⟩
  | some value =>
      have same := Int.toNat_of_nonneg (notNegative value rfl)
      exact ⟨some value.toNat, congrArg some same.symm⟩

theorem outcome_ofOptions_eq_ok_iff {checked : Except OptionError Options} {desk after : Desk σ}
    {options : Options} :
    Computation.outcome (Call.ofOptions checked) desk = (.ok options, after) ↔
      checked = .ok options ∧ desk = after := by
  cases checked with
  | error cause => simp [Call.ofOptions]
  | ok chosen => simp [Call.ofOptions]

variable [RandomSource σ]

/-- Statistics that are given rest on a tokenization by the longest tokens. -/
theorem exists_longest_of_statistics {tokenizer : Tokenizer} {text : Text} {seed : Option Int}
    {supply : Supply σ} {desk after : Desk σ} {statistics : Statistics}
    (returned : (tokenizer.statistics text seed supply).runOn desk = (.ok statistics, after)) :
    ∃ checked longest between shortest, seed = Option.map Int.ofNat checked ∧
      (tokenizer.tokenize { Options.ofStrategy .longest with seed := checked } text supply).runOn
        desk = (.ok longest, between) ∧
      statistics = tokenizer.statisticsOf text longest.ids shortest := by
  obtain ⟨ids, between, byLongest, rest⟩ := Computation.outcome_bind_eq_ok_iff.mp returned
  obtain ⟨shortest, _, -, given⟩ := Computation.outcome_bind_eq_ok_iff.mp rest
  obtain ⟨options, _, chosen, tokens⟩ := Computation.outcome_bind_eq_ok_iff.mp byLongest
  obtain ⟨longest, _, tokenized, idsGiven⟩ := Computation.outcome_bind_eq_ok_iff.mp tokens
  obtain ⟨overridden, same⟩ := outcome_ofOptions_eq_ok_iff.mp chosen
  subst same
  have seeded : options.seed.map Int.ofNat = seed :=
    @Options.seed_of_override .default options
      { Options.Overrides.none with strategy := some Strategy.longest.name } seed overridden
  subst seeded
  have optionsEq : { Options.ofStrategy .longest with seed := options.seed } = options :=
    Except.ok.inj ((override_strategy .longest options.seed none).symm.trans overridden)
  rw [← optionsEq] at tokenized
  cases idsGiven
  cases given
  exact ⟨_, longest, _, shortest, rfl, tokenized, rfl⟩

/-- Statistics account for each token and each character: the counts of their lengths add up to the
least number of tokens, and the lengths to the text but for the characters that the tokenization by the
longest tokens leaves out. -/
theorem statistics_accountFor (tokenizer : Tokenizer) (text : Text) (seed : Option Int)
    (supply : Supply σ) (desk : Desk σ) :
    (∀ statistics after,
      (tokenizer.statistics text seed supply).runOn desk = (.ok statistics, after) →
      ∃ checked longest between, seed = Option.map Int.ofNat checked ∧
        (tokenizer.tokenize { Options.ofStrategy .longest with seed := checked } text supply).runOn
          desk = (.ok longest, between) ∧
        AccountsFor text longest statistics) ∧
    (supply.IsReady → (∀ value ∈ seed, 0 ≤ value) → ∃ statistics after,
      (tokenizer.statistics text seed supply).runOn desk = (.ok statistics, after)) := by
  constructor
  · intro statistics after returned
    obtain ⟨checked, longest, between, shortest, seeded, byLongest, rfl⟩ :=
      exists_longest_of_statistics returned
    obtain ⟨source, finished, rfl⟩ := exists_walk_of_unmarked rfl rfl byLongest
    have covers := walk_covers tokenizer _ text source finished
    exact ⟨checked, _, between, seeded, byLongest, statisticsOf_accountsFor covers shortest⟩
  · intro ready notNegative
    obtain ⟨checked, rfl⟩ := exists_checked_of_not_negative notNegative
    obtain ⟨longest, between, byLongest⟩ :=
      exists_tokenization (.ofStrategy .longest) (.inl rfl) rfl rfl rfl ready checked tokenizer text
        desk
    obtain ⟨shortest, after, byShortest⟩ :=
      exists_tokenization (.ofStrategy .shortest) (.inr rfl) rfl rfl rfl ready checked tokenizer text
        between
    exact ⟨_, after, runOn_statistics checked byLongest byShortest⟩

/-- A special text, tokens that occur twice, an empty token and two characters without any. -/
theorem statistics_accountFor_with_duplicates :
    let tokenizer := ofVocabulary {
      tokens := #["<s>".toList, ['a'], ['a', 'b'], [], ['a', 'b'], ['a']]
      merges := none
      bos := some 0
      eos := none
      modelType := none
      specialIds := []
      bos_lt_size := by decide
      eos_lt_size := by decide
      specialIds_lt_size := by decide }
    let text : Text := "ab?a<s>ab!".toList
    let desk := Desk.fresh (⟨[], [], 0, 0⟩ : Script)
    ∃ statistics after,
      (tokenizer.statistics text none .current).runOn desk = (.ok statistics, after) ∧
      (statistics.lengths.map Prod.snd).sum = 4 ∧
      (statistics.lengths.map fun entry => entry.1 * entry.2).sum = 8 ∧
      statistics.totalChars = 10 := by
  intro tokenizer text desk
  obtain ⟨accounts, returns⟩ := statistics_accountFor tokenizer text none .current desk
  obtain ⟨statistics, after, returned⟩ := returns (fun _ _ => rfl) nofun
  obtain ⟨checked, longest, between, unseeded, tokenized, accountsFor⟩ :=
    accounts statistics after returned
  cases Option.map_eq_none_iff.mp unseeded.symm
  have byLongest : (tokenizer.tokenize { Options.ofStrategy .longest with seed := none } text
      .current).runOn desk = (.ok ⟨text, [2, 1, 0, 2], [2, 9]⟩, _) := rfl
  have same : longest = ⟨text, [2, 1, 0, 2], [2, 9]⟩ :=
    Except.ok.inj (congrArg Prod.fst (tokenized.symm.trans byLongest))
  subst same
  have total : statistics.totalChars = 10 := accountsFor.totalChars_eq
  have counted := accountsFor.counts_eq.trans accountsFor.minTokens_eq
  have lengths := accountsFor.lengths_eq
  rw [total] at lengths
  exact ⟨statistics, after, returned, counted, lengths, total⟩

end Tokenizer

end Tessera
