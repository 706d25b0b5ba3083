import Mathlib.Data.List.Basic
import Mathlib.Logic.IsEmpty.Basic
import Tessera.Inspection.Basic
import Tessera.Proofs.Tokenizer.Endings
import Tessera.Random.Scripted

/-!
# Series of draws and their seeds

A tokenization keeps to the seed of its options. A series of draws does not: each of its draws has a
seed that comes from the seed of the series, and none if the series has none. So it is the seed of the
series that makes it independent of the source that a call without a seed would have.
-/

set_option autoImplicit false

namespace Tessera

open Tessera.Computation

/-! ## Supplies with a factory -/

section

variable {σ : Type}

/-- A supply that makes a source for each seed, as far as it can, and has the source of a call without a
seed from a factory. -/
def Supply.ofFactory (seeded : Int → Option σ) (factory : σ → σ) : Supply σ :=
  .starting fun seed last =>
    match seed with
    | some seed => seeded seed
    | none => some (factory last)

/-- The supply of a source that is set is of that kind: it records what is asked for. -/
theorem Source.supply_some (source : Source) :
    Source.supply (some source) =
      .ofFactory (fun seed => (Generator.ofSeed? seed).map .inl)
        fun last => Source.recording last.requests source := by
  refine congrArg Supply.starting (funext fun seed => ?_)
  cases seed <;> rfl

end

/-! ## Calls that do not depend on the desk -/

namespace Call

variable {σ α β : Type}

/-- Whether a call gives a result at every desk. -/
def Gives (call : Call σ α) (result : Except Failure α) : Prop :=
  ∀ desk, (call.runOn desk).1 = result

theorem gives_pure (value : α) : (pure value : Call σ α).Gives (.ok value) := fun _ => rfl

theorem Gives.bind {call : Call σ α} {result : Except Failure α} (gives : call.Gives result)
    {next : α → Call σ β} {results : α → Except Failure β}
    (nextGives : ∀ value, result = .ok value → (next value).Gives (results value)) :
    (call >>= next).Gives (result >>= results) := by
  intro desk
  have ended := gives desk
  change (outcome (call >>= next) desk).1 = _
  change (outcome call desk).1 = _ at ended
  rw [outcome_bind]
  cases ending : outcome call desk with
  | mk first between =>
      rw [ending] at ended
      subst ended
      cases first with
      | error failure => rfl
      | ok value => exact nextGives value rfl between

end Call

namespace Tokenizer

variable {σ : Type} [RandomSource σ] {tokenizer : Tokenizer} {text : Text} {options : Options}
  {given : Options.Overrides} {supply : Supply σ}

/-! ## Single tokenizations -/

/-- What a tokenization from a source comes to. -/
def ending (tokenizer : Tokenizer) (options : Options) (text : Text) (source : σ) :
    Except Failure Tokenization :=
  ((tokenizer.tokenizeHere options text).runOn (.fresh source)).1

omit [RandomSource σ] in
theorem fst_ended_congr (desk other : Desk σ) (walk : Walk σ) :
    (tokenizer.ended options text desk walk).1 = (tokenizer.ended options text other walk).1 := by
  unfold ended
  rw [apply_ite Prod.fst, apply_ite Prod.fst]

theorem fst_runOn_tokenizeHere (desk : Desk σ) :
    ((tokenizer.tokenizeHere options text).runOn desk).1 =
      tokenizer.ending options text desk.source := by
  change (Computation.outcome (tokenizer.tokenizeHere options text) desk).1 =
    (Computation.outcome (tokenizer.tokenizeHere options text) (.fresh desk.source)).1
  rw [outcome_tokenizeHere, outcome_tokenizeHere]
  exact fst_ended_congr desk _ _

/-- What a tokenization comes to for which a source may have been found. -/
def endingOf (tokenizer : Tokenizer) (options : Options) (text : Text) :
    Option σ → Except Failure Tokenization
  | none => .error .badSeed
  | some source => tokenizer.ending options text source

theorem fst_runOn_tokenize (desk : Desk σ) :
    ((tokenizer.tokenize options text supply).runOn desk).1 =
      tokenizer.endingOf options text (supply.begin? (options.seed.map Int.ofNat) desk.source) := by
  cases begun : supply.begin? (options.seed.map Int.ofNat) desk.source with
  | none => rw [runOn_tokenize_of_not_begun begun, endingOf]
  | some source =>
      rw [runOn_tokenize_of_begun begun, endingOf, ← fst_runOn_tokenizeHere ⟨source, desk.notices⟩]
      change _ = (Computation.outcome (tokenizer.tokenizeHere options text) _).1
      rw [outcome_tokenizeHere]

/-- A tokenization gives the same from every desk if its supply begins with the same source. -/
theorem gives_tokenize {source? : Option σ}
    (begun : ∀ last, supply.begin? (options.seed.map Int.ofNat) last = source?) :
    (tokenizer.tokenize options text supply).Gives (tokenizer.endingOf options text source?) :=
  fun desk => by rw [fst_runOn_tokenize, begun]

theorem gives_inspect {result : Except Failure Tokenization}
    (gives : (tokenizer.tokenize options text supply).Gives result) :
    (tokenizer.inspect text options supply).Gives (result.map tokenizer.inspectionOf) := by
  have inspected := gives.bind fun value _ => Call.gives_pure (tokenizer.inspectionOf value)
  cases result <;> exact inspected

/-! ## Single draws -/

/-- An inspection under options whose seed is overridden. -/
def inspectSeeded (tokenizer : Tokenizer) (text : Text) (options : Options)
    (given : Options.Overrides) (seed : Option Int) (supply : Supply σ) : Call σ Inspection := do
  let chosen ← Call.ofOptions (options.override { given with seed := some seed })
  tokenizer.inspect text chosen supply

theorem gives_inspectSeeded {seed : Option Int} {chosen : Options}
    (overridden : options.override { given with seed := some seed } = .ok chosen)
    {result : Except Failure Tokenization}
    (gives : (tokenizer.tokenize chosen text supply).Gives result) :
    (tokenizer.inspectSeeded text options given seed supply).Gives
      (result.map tokenizer.inspectionOf) := by
  intro desk
  rw [inspectSeeded, overridden]
  exact gives_inspect gives desk

theorem gives_inspectSeeded_of_refused {seed : Option Int} {cause : OptionError}
    (refused : options.override { given with seed := some seed } = .error cause) :
    (tokenizer.inspectSeeded text options given seed supply).Gives (.error (.badOption cause)) := by
  intro desk
  rw [inspectSeeded, refused]
  rfl

/-- A draw with a seed is the same whatever the factory makes. -/
theorem exists_gives_inspectSeeded (tokenizer : Tokenizer) (text : Text) (options : Options)
    (given : Options.Overrides) (seeded : Int → Option σ) (seed : Int) :
    ∃ result, ∀ factory,
      (tokenizer.inspectSeeded text options given (some seed) (.ofFactory seeded factory)).Gives
        result := by
  cases checked : options.override { given with seed := some (some seed) } with
  | error cause => exact ⟨_, fun _ => gives_inspectSeeded_of_refused checked⟩
  | ok chosen =>
      refine ⟨(tokenizer.endingOf chosen text (seeded seed)).map tokenizer.inspectionOf,
        fun factory => gives_inspectSeeded checked (gives_tokenize fun last => ?_)⟩
      rw [Options.seed_of_override checked]
      rfl

/-! ## Series of draws -/

theorem samplesFrom_succ (seed : Option Int) (draw more : Nat) :
    tokenizer.samplesFrom text options given seed supply draw (more + 1) =
      (do
        let inspection ← tokenizer.inspectSeeded text options given (drawSeed seed draw) supply
        let others ← tokenizer.samplesFrom text options given seed supply (draw + 1) more
        return inspection :: others) := by
  simp only [samplesFrom, inspectSeeded, bind_assoc]

/-- Draws that do not depend on the desk make a series that does not. -/
theorem gives_samplesFrom {seed : Option Int} {results : Nat → Except Failure Inspection}
    (drawsGive : ∀ draw, (tokenizer.inspectSeeded text options given (drawSeed seed draw) supply).Gives
      (results draw)) (draw count : Nat) :
    (tokenizer.samplesFrom text options given seed supply draw count).Gives
      ((List.range' draw count).mapM results) := by
  induction count generalizing draw with
  | zero => exact Call.gives_pure []
  | succ more ih =>
      rw [samplesFrom_succ, List.range'_succ, List.mapM_cons]
      refine (drawsGive draw).bind fun inspection _ => ?_
      exact (ih (draw + 1)).bind fun others _ => Call.gives_pure _

/-- The seed of the options has no part in a series of draws. -/
theorem sample_of_options_seed (draws : Int) (seed : Option Int) (other : Option Nat) :
    tokenizer.sample text draws { options with seed := other } given seed supply =
      tokenizer.sample text draws options given seed supply := by
  have same (draw count : Nat) :
      tokenizer.samplesFrom text { options with seed := other } given seed supply draw count =
        tokenizer.samplesFrom text options given seed supply draw count := by
    induction count generalizing draw with
    | zero => rfl
    | succ more ih =>
        rw [samplesFrom_succ, samplesFrom_succ, ih, inspectSeeded, Options.override_of_seed]
        rfl
  exact same 0 draws.toNat

theorem drawSeed_some (seed : Int) (draw : Nat) :
    drawSeed (some seed) draw = some (seed + draw) := rfl

theorem drawSeed_none (draw : Nat) : drawSeed none draw = none := rfl

/-! ### Draws that are all alike -/

theorem mapM_const {ε α β : Type} (result : Except ε α) (first : β) (rest : List β) :
    (first :: rest).mapM (fun _ => result) =
      result.map (List.replicate (first :: rest).length) := by
  induction rest generalizing first with
  | nil => cases result <;> rfl
  | cons second more ih =>
      rw [List.mapM_cons, ih]
      cases result <;> rfl

theorem map_injective {ε α β : Type} {f : α → β} (injective : Function.Injective f) :
    Function.Injective (Except.map f : Except ε α → Except ε β) := by
  intro first second same
  cases first <;> cases second <;> simp_all [Except.map, injective.eq_iff]

theorem info_injective (tokenizer : Tokenizer) : Function.Injective tokenizer.info :=
  fun _ _ same => Int.ofNat_inj.mp (congrArg TokenInfo.id same)

theorem inspectionOf_injective (tokenizer : Tokenizer) :
    Function.Injective tokenizer.inspectionOf := by
  rintro ⟨text, ids, skipped⟩ ⟨other, others, more⟩ same
  obtain ⟨sameText, sameIds, sameSkipped⟩ := Inspection.mk.inj same
  have idsEq : ids = others := List.map_injective_iff.mpr tokenizer.info_injective sameIds
  have skippedEq : skipped = more :=
    List.map_injective_iff.mpr (fun _ _ => Int.ofNat_inj.mp) sameSkipped
  subst sameText idsEq skippedEq
  rfl

theorem gives_sample_of_alike {draws : Int} (positive : 0 < draws)
    {result : Except Failure Inspection}
    (alike : (tokenizer.inspectSeeded text options given none supply).Gives result) :
    (tokenizer.sample text draws options given none supply).Gives
      (result.map (List.replicate draws.toNat)) := by
  obtain ⟨more, count⟩ := Nat.exists_eq_add_one_of_ne_zero (show draws.toNat ≠ 0 by omega)
  have drawsGive (draw : Nat) : (tokenizer.inspectSeeded text options given (drawSeed none draw)
      supply).Gives result := by
    rw [drawSeed_none]
    exact alike
  have series := gives_samplesFrom drawsGive 0 draws.toNat
  rw [count, List.range'_succ, mapM_const, List.length_cons, List.length_range', ← count] at series
  exact series

theorem gives_sample_of_none {draws : Int} (noneAsked : draws ≤ 0) (seed : Option Int) :
    (tokenizer.sample text draws options given seed supply).Gives (.ok []) := by
  rw [sample, Int.toNat_of_nonpos noneAsked]
  exact Call.gives_pure []

section

variable {seeded : Int → Option σ} {chosen : Options} {draws : Int}
  (overridden : options.override { given with seed := some none } = .ok chosen)

include overridden

omit [RandomSource σ] in
theorem begin?_ofFactory_of_override (factory : σ → σ) (last : σ) :
    (Supply.ofFactory seeded factory).begin? (chosen.seed.map Int.ofNat) last =
      some (factory last) := by
  rw [Options.seed_of_override overridden]
  rfl

/-- Series without a seed that agree, whatever the factory makes, are made of tokenizations that come to
the same from every source. -/
theorem exists_gives_tokenizeHere (positive : 0 < draws) {result : Except Failure (List Inspection)}
    (gives : ∀ factory : σ → σ,
      (tokenizer.sample text draws options given none (.ofFactory seeded factory)).Gives result) :
    ∃ ending, (tokenizer.tokenizeHere chosen text : Call σ Tokenization).Gives ending := by
  -- A factory that makes one source only tells what comes of that source.
  have fromSource (source : σ) : ((tokenizer.ending chosen text source).map
      tokenizer.inspectionOf).map (List.replicate draws.toNat) = result := by
    have begun (last : σ) : (Supply.ofFactory seeded fun _ => source).begin?
        (chosen.seed.map Int.ofNat) last = some source :=
      begin?_ofFactory_of_override overridden (fun _ => source) last
    have alike : (tokenizer.inspectSeeded text options given none
        (.ofFactory seeded fun _ => source)).Gives
        ((tokenizer.ending chosen text source).map tokenizer.inspectionOf) :=
      gives_inspectSeeded overridden (gives_tokenize begun)
    exact (gives_sample_of_alike positive alike (.fresh source)).symm.trans
      (gives (fun _ => source) (.fresh source))
  rcases isEmpty_or_nonempty σ with empty | ⟨⟨base⟩⟩
  · exact ⟨.error .badSeed, fun desk => empty.elim desk.source⟩
  · refine ⟨tokenizer.ending chosen text base, fun desk => ?_⟩
    rw [fst_runOn_tokenizeHere]
    have same := (fromSource desk.source).trans (fromSource base).symm
    have replicateInjective :
        Function.Injective (List.replicate draws.toNat : Inspection → List Inspection) :=
      List.replicate_right_injective (by omega)
    exact map_injective tokenizer.inspectionOf_injective (map_injective replicateInjective same)

theorem gives_sample_of_settled (positive : 0 < draws) {result : Except Failure Tokenization}
    (settled : (tokenizer.tokenizeHere chosen text : Call σ Tokenization).Gives result)
    (factory : σ → σ) :
    (tokenizer.sample text draws options given none (.ofFactory seeded factory)).Gives
      ((result.map tokenizer.inspectionOf).map (List.replicate draws.toNat)) := by
  refine gives_sample_of_alike positive (gives_inspectSeeded overridden fun desk => ?_)
  rw [fst_runOn_tokenize, begin?_ofFactory_of_override overridden]
  exact settled (.fresh (factory desk.source))

end

/-- A tokenization keeps to the seed of its options. -/
theorem gives_tokenize_of_seed (tokenizer : Tokenizer) (text : Text) (options : Options)
    (seeded : Int → Option σ) (seed : Nat) (factory : σ → σ) :
    (tokenizer.tokenize { options with seed := some seed } text (.ofFactory seeded factory)).Gives
      (tokenizer.endingOf { options with seed := some seed } text (seeded seed)) :=
  gives_tokenize fun _ => rfl

/-- A series with a seed is the same whatever the factory makes, each draw with the next seed. -/
theorem exists_gives_sample_of_seed (tokenizer : Tokenizer) (text : Text) (draws : Int)
    (options : Options) (given : Options.Overrides) (seeded : Int → Option σ) (seed : Int) :
    ∃ results : Nat → Except Failure Inspection, ∀ factory : σ → σ,
      (∀ draw : Nat, (tokenizer.inspectSeeded text options given (some (seed + draw))
        (.ofFactory seeded factory)).Gives (results draw)) ∧
      (tokenizer.sample text draws options given (some seed) (.ofFactory seeded factory)).Gives
        ((List.range draws.toNat).mapM results) := by
  choose results drawsGive using fun draw : Nat =>
    tokenizer.exists_gives_inspectSeeded text options given seeded (seed + draw)
  refine ⟨results, fun factory => ⟨fun draw => drawsGive draw factory, ?_⟩⟩
  have drawsGiveHere (draw : Nat) : (tokenizer.inspectSeeded text options given
      (drawSeed (some seed) draw) (.ofFactory seeded factory)).Gives (results draw) := by
    rw [drawSeed_some]
    exact drawsGive draw factory
  rw [List.range_eq_range']
  exact gives_samplesFrom drawsGiveHere 0 draws.toNat

/-- A series without a seed is the same whatever the factory makes only if nothing is drawn or there is
but one way to tokenize. -/
theorem exists_gives_sample_iff (tokenizer : Tokenizer) (text : Text) (draws : Int)
    (options : Options) (given : Options.Overrides) (seeded : Int → Option σ) :
    (∃ result, ∀ factory : σ → σ,
      (tokenizer.sample text draws options given none (.ofFactory seeded factory)).Gives result) ↔
      draws ≤ 0 ∨ ∀ chosen, options.override { given with seed := some none } = .ok chosen →
        ∃ ending, (tokenizer.tokenizeHere chosen text : Call σ Tokenization).Gives ending := by
  rcases Int.lt_or_le 0 draws with positive | noneAsked
  · constructor
    · rintro ⟨result, gives⟩
      exact .inr fun chosen overridden => exists_gives_tokenizeHere overridden positive gives
    · intro either
      have settled := either.resolve_left (Int.not_le.mpr positive)
      cases checked : options.override { given with seed := some none } with
      | error cause =>
          have refused (factory : σ → σ) : (tokenizer.inspectSeeded text options given none
              (.ofFactory seeded factory)).Gives (.error (.badOption cause)) :=
            gives_inspectSeeded_of_refused checked
          exact ⟨_, fun factory => gives_sample_of_alike positive (refused factory)⟩
      | ok chosen =>
          obtain ⟨ending, gives⟩ := settled chosen checked
          exact ⟨_, gives_sample_of_settled checked positive gives⟩
  · exact ⟨fun _ => .inl noneAsked,
      fun _ => ⟨_, fun factory => gives_sample_of_none noneAsked none⟩⟩

/-- The seed of the options has no part in a series of draws, though a single tokenization keeps to it. A
series with a seed of its own is the same whatever a factory makes, each draw with the next seed. A
series without one is the same only if nothing is drawn or there is but one way to tokenize. -/
theorem sample_keeps_to_own_seed (tokenizer : Tokenizer) (text : Text) (draws : Int)
    (options : Options) (given : Options.Overrides) (seeded : Int → Option σ) :
    (∀ seed : Nat, ∃ result, ∀ factory : σ → σ,
      (tokenizer.tokenize { options with seed := some seed } text
        (.ofFactory seeded factory)).Gives result) ∧
    (∀ seed other (supply : Supply σ),
      tokenizer.sample text draws { options with seed := other } given seed supply =
        tokenizer.sample text draws options given seed supply) ∧
    (∀ seed : Int, ∃ results : Nat → Except Failure Inspection, ∀ factory : σ → σ,
      (∀ draw : Nat, (tokenizer.inspectSeeded text options given (some (seed + draw))
        (.ofFactory seeded factory)).Gives (results draw)) ∧
      (tokenizer.sample text draws options given (some seed) (.ofFactory seeded factory)).Gives
        ((List.range draws.toNat).mapM results)) ∧
    ((∃ result, ∀ factory : σ → σ,
      (tokenizer.sample text draws options given none (.ofFactory seeded factory)).Gives result) ↔
      draws ≤ 0 ∨ ∀ chosen, options.override { given with seed := some none } = .ok chosen →
        ∃ ending, (tokenizer.tokenizeHere chosen text : Call σ Tokenization).Gives ending) :=
  ⟨fun seed => ⟨_, gives_tokenize_of_seed tokenizer text options seeded seed⟩,
    fun seed other _ => sample_of_options_seed draws seed other,
    exists_gives_sample_of_seed tokenizer text draws options given seeded,
    exists_gives_sample_iff tokenizer text draws options given seeded⟩

/-- Two factories of which one gives zeros and the other ones: a draw under options with a seed begins
with another token. -/
theorem sample_forgets_seed_of_options :
    let tokenizer := ofVocabulary {
      tokens := #["a".toList, "b".toList, "ab".toList]
      merges := none
      bos := none
      eos := none
      modelType := none
      specialIds := []
      bos_lt_size := by decide
      eos_lt_size := by decide
      specialIds_lt_size := by decide }
    let options : Options := { Options.default with seed := some 7 }
    let giving (integer : Int) : Source := .inr (.fresh ⟨[], [integer], 0, 0⟩)
    let tokens (source : Source) : Except Failure (List (List Text)) :=
      ((tokenizer.sample "ab".toList 1 options Options.Overrides.none none
        (Source.supply (some source))).runOn (.fresh source)).1.map
          (List.map fun inspection => inspection.tokens.map TokenInfo.text)
    tokens (giving 0) = .ok [["a".toList, "b".toList]] ∧ tokens (giving 1) = .ok [["ab".toList]] :=
  ⟨rfl, rfl⟩

end Tokenizer

end Tessera
