import Mathlib
import Tessera.Grammar.Collection
import Tessera.Proofs.Grammar.Compilation
import Tessera.Proofs.Grammar.CycleDetection
import Tessera.Proofs.Grammar.LookupGraph
import Tessera.Proofs.Grammar.ReferringBodies

/-!
# Undefined references

A grammar finds its undefined references in bodies with references, a strict compiler in the bodies that
it writes. These mention other names when they are inline, yet the same names that nothing produces.
-/

set_option autoImplicit false

namespace Tessera.Grammar

open Tessera.Computation

theorem nodup_eraseDups {α : Type} [BEq α] [LawfulBEq α] (values : List α) :
    values.eraseDups.Nodup := by
  cases values with
  | nil => exact List.nodup_nil
  | cons first rest =>
      rw [List.eraseDups_cons, List.nodup_cons]
      refine ⟨?_, nodup_eraseDups _⟩
      rw [List.mem_eraseDups]
      simp
termination_by values.length
decreasing_by exact Nat.lt_succ_of_le (List.length_filter_le _ rest)

namespace Compiler

/-! ## Names in order -/

theorem mem_sortedNames {name : Name} {names : List Name} :
    name ∈ sortedNames names ↔ name ∈ names := by
  rw [sortedNames, List.mem_mergeSort, List.mem_eraseDups]

theorem pairwise_sortedNames (names : List Name) : (sortedNames names).Pairwise (· < ·) := by
  have ordered := @List.pairwise_mergeSort Name (fun a b => decide (a ≤ b))
    (fun a b c ab bc => by simpa using String.le_trans (by simpa using ab) (by simpa using bc))
    (fun a b => by simpa using String.le_total a b) names.eraseDups
  have distinct : (sortedNames names).Nodup :=
    (List.mergeSort_perm _ _).nodup_iff.mpr (nodup_eraseDups names)
  exact ordered.imp₂ (fun a b ab apart => lt_of_le_of_ne (of_decide_eq_true ab) apart) distinct

/-! ## Names that are mentioned -/

variable {compiler : Compiler} {name owner : Name} {body : Rule} {definition : Definition}
  {bodies : List (Name × Rule)}

/-- Whether some definition of the grammar has a reference of its own to a name. -/
def Spells (compiler : Compiler) (name : Name) : Prop :=
  ∃ owner definition, compiler.definitions.lookup owner = some definition ∧
    name ∈ definition.spelled

/-- References that answer lookups name the rules that are looked up. -/
theorem IsReferring.mentions_iff (isReferring : compiler.IsReferring owner body)
    (defined : compiler.definitions.lookup owner = some definition) :
    body.Mentions name ↔ name ∈ definition.spelled ∨
      ∃ other ∈ definition.lookups, compiler.options.productionName other = name := by
  obtain ⟨-, _, sameDefined, made⟩ := isReferring
  rw [defined] at sameDefined
  cases sameDefined
  refine Definition.mentions_value_iff (fun access other found answered => ?_) made
  obtain ⟨-, rfl⟩ := placeholder_eq_ok_iff.mp answered
  rw [Rule.mentions_iff]
  simp [Rule.children]

theorem IsReferring.lookups_subset (isReferring : compiler.IsReferring owner body)
    (defined : compiler.definitions.lookup owner = some definition) :
    definition.lookups ⊆ compiler.names := by
  obtain ⟨-, _, sameDefined, made⟩ := isReferring
  rw [defined] at sameDefined
  cases sameDefined
  intro other listed
  obtain ⟨access, found, answered⟩ := Definition.exists_answer_of_value made listed
  exact (placeholder_eq_ok_iff.mp answered).1.2

theorem IsReferring.mentions_iff_spelled (isReferring : compiler.IsReferring owner body)
    (defined : compiler.definitions.lookup owner = some definition)
    (undefined : name ∉ compiler.names.map compiler.options.productionName) :
    body.Mentions name ↔ name ∈ definition.spelled := by
  rw [isReferring.mentions_iff defined]
  refine or_iff_left fun lookedUp => ?_
  obtain ⟨other, listed, rfl⟩ := lookedUp
  exact undefined (List.mem_map_of_mem (isReferring.lookups_subset defined listed))

theorem IsValue.mentions_iff (isValue : compiler.IsValue bodies owner body)
    (defined : compiler.definitions.lookup owner = some definition) :
    body.Mentions name ↔ name ∈ definition.spelled ∨
      ∃ other ∈ definition.lookups, ∃ found, bodies.lookup other = some found ∧
        found.Mentions name := by
  obtain ⟨-, _, sameDefined, made⟩ := isValue
  rw [defined] at sameDefined
  cases sameDefined
  refine Definition.mentions_value_iff ?_ (made (.ofTable fun other => bodies.lookup other) ?_)
  · intro access other found answered
    cases kept : bodies.lookup other with
    | none =>
        simp only [Answer.ofTable, kept] at answered
        cases answered
    | some old =>
        simp only [Answer.ofTable, kept] at answered
        cases answered
        simp
  · intro access other old _ _ kept
    simp only [Answer.ofTable, kept]

/-- What a body mentions is spelled out by its definition, or mentioned by the body of a rule that is
looked up there; there is an end to looking up rules. -/
theorem IsGround.spells (ground : compiler.IsGround owner) (justified : compiler.Justified bodies)
    (kept : bodies.lookup owner = some body) (mentions : body.Mentions name) :
    compiler.Spells name := by
  induction ground generalizing body with
  | intro owner _ ih =>
      have isValue := justified owner body kept
      obtain ⟨definition, defined, -⟩ := isValue.made
      rcases (isValue.mentions_iff defined).mp mentions with
        spelled | ⟨other, listed, found, otherKept, further⟩
      · exact ⟨owner, definition, defined, spelled⟩
      · exact ih other ⟨definition, defined, listed⟩ otherKept further

theorem isReferring_of_bodies {after : Session}
    (resolved : outcome compiler.bodies .start = (.ok bodies, after)) :
    ∀ name ∈ compiler.names, ∃ reference, compiler.IsReferring name reference := by
  cases inline : compiler.options.inline with
  | false =>
      exact isReferring_of_resolveAll (fun name body found => by cases found)
        ((referring_eq_self inline).symm ▸ resolved)
  | true =>
      obtain ⟨justified, -, namesEq, kept⟩ := keeps_resolveAll inline
        (fun name body found => by cases found) resolved
      intro name member
      obtain ⟨body, -, listed⟩ := lookup_of_mem_names (namesEq ▸ member)
      exact (justified name body (kept _ listed)).exists_referring justified

theorem isGround_of_bodies {after : Session} (inline : compiler.options.inline = true)
    (resolved : outcome compiler.bodies .start = (.ok bodies, after)) :
    ∀ name ∈ compiler.names, compiler.IsGround name := by
  have referable := isReferring_of_bodies resolved
  have ending := ends_resolveAll inline referable (List.Subset.refl _) [] rfl .start
    (fun name body found => by cases found)
  rw [Compiler.bodies] at resolved
  rw [resolved] at ending
  exact ending.2.2

theorem exists_mentions_iff_spells {after : Session} (inline : compiler.options.inline = true)
    (resolved : outcome compiler.bodies .start = (.ok bodies, after)) :
    (∃ entry ∈ bodies, entry.2.Mentions name) ↔ compiler.Spells name := by
  obtain ⟨justified, -, namesEq, kept⟩ := keeps_resolveAll inline
    (fun name body found => by cases found) resolved
  constructor
  · rintro ⟨entry, listed, mentions⟩
    have defined : entry.1 ∈ compiler.names := namesEq ▸ List.mem_map_of_mem listed
    have ground := isGround_of_bodies inline resolved entry.1 defined
    exact ground.spells justified (kept entry listed) mentions
  · rintro ⟨owner, definition, defined, spelled⟩
    have member : owner ∈ compiler.names := List.mem_map_of_mem (mem_of_lookup_eq_some defined)
    obtain ⟨body, -, listed⟩ := lookup_of_mem_names (namesEq ▸ member)
    have isValue := justified owner body (kept _ listed)
    exact ⟨_, listed, (isValue.mentions_iff defined).mpr (.inl spelled)⟩

theorem exists_mentions_iff_spells_of_referring {references : List (Name × Rule)} {last : Session}
    (undefined : name ∉ compiler.names.map compiler.options.productionName)
    (referred : outcome compiler.referring.bodies .start = (.ok references, last)) :
    (∃ entry ∈ references, entry.2.Mentions name) ↔ compiler.Spells name := by
  have allReferring := isReferring_of_mem_references referred
  have namesEq : references.map Prod.fst = compiler.names := names_of_resolveAll referred
  constructor
  · rintro ⟨entry, listed, mentions⟩
    obtain ⟨definition, defined, -⟩ := (allReferring entry listed).2
    exact ⟨entry.1, definition, defined,
      ((allReferring entry listed).mentions_iff_spelled defined undefined).mp mentions⟩
  · rintro ⟨owner, definition, defined, spelled⟩
    have member : owner ∈ compiler.names := List.mem_map_of_mem (mem_of_lookup_eq_some defined)
    obtain ⟨body, -, listed⟩ := lookup_of_mem_names (namesEq ▸ member)
    exact ⟨_, listed, ((allReferring _ listed).mentions_iff_spelled defined undefined).mpr spelled⟩

/-! ## References that nothing produces -/

/-- The names of the productions that a grammar has. -/
def produced (compiler : Compiler) : List Name :=
  compiler.names.map compiler.options.productionName

theorem missingReferences_eq (namesEq : bodies.map Prod.fst = compiler.names) :
    compiler.missingReferences bodies =
      sortedNames ((bodies.flatMap fun entry => entry.2.references).filter
        fun name => !compiler.produced.contains name) := by
  have producedEq : bodies.map (fun entry => compiler.options.productionName entry.1) =
      compiler.produced := by
    rw [produced, ← namesEq, List.map_map]
    rfl
  rw [missingReferences, producedEq]

theorem mem_missingReferences_iff (namesEq : bodies.map Prod.fst = compiler.names) :
    name ∈ compiler.missingReferences bodies ↔
      (∃ entry ∈ bodies, entry.2.Mentions name) ∧ name ∉ compiler.produced := by
  rw [missingReferences_eq namesEq, mem_sortedNames, List.mem_filter, List.mem_flatMap]
  simp only [Rule.mem_references_iff, List.contains_eq_mem, Bool.not_eq_true',
    decide_eq_false_iff_not]

/-- The references that nothing produces are spelled out by definitions, in whichever way builders are
answered. -/
theorem mem_missingReferences_iff_spells {after : Session}
    (resolved : outcome compiler.bodies .start = (.ok bodies, after)) :
    name ∈ compiler.missingReferences bodies ↔ compiler.Spells name ∧ name ∉ compiler.produced := by
  rw [mem_missingReferences_iff (names_of_resolveAll resolved)]
  refine and_congr_left fun undefined => ?_
  cases inline : compiler.options.inline with
  | true => exact exists_mentions_iff_spells inline resolved
  | false =>
      -- The references that stand for lookups name productions, so they are not among these.
      exact exists_mentions_iff_spells_of_referring undefined
        ((referring_eq_self inline).symm ▸ resolved)

/-- The bodies that a compiler writes and the bodies with references leave out the same references. -/
theorem exists_references_of_bodies {after : Session}
    (resolved : outcome compiler.bodies .start = (.ok bodies, after)) :
    ∃ references last, outcome compiler.referring.bodies .start = (.ok references, last) ∧
      compiler.referring.missingReferences references = compiler.missingReferences bodies := by
  obtain ⟨references, last, referred, -⟩ := resolveAll_referring
    (isReferring_of_bodies resolved) .start (fun name body found => by cases found)
  refine ⟨references, last, referred, ?_⟩
  refine (pairwise_sortedNames _).eq_of_mem_iff (pairwise_sortedNames _) fun name => ?_
  have referringIff : name ∈ compiler.referring.missingReferences references ↔
      compiler.Spells name ∧ name ∉ compiler.produced :=
    mem_missingReferences_iff_spells referred
  exact referringIff.trans (mem_missingReferences_iff_spells resolved).symm

/-! ## Strict compilation -/

/-- Only a strict compiler reports undefined references, and only once all rules are resolved. -/
theorem compile_eq_undefinedReferences_iff {missing : List Name} :
    (outcome compiler.compile .start).1 = .error (.undefinedReferences missing) ↔
      ∃ bodies, (outcome compiler.bodies .start).1 = .ok bodies ∧
        compiler.refused bodies = missing ∧ missing ≠ [] := by
  have resolving := bodies_ne_undefinedReferences compiler .start missing
  rw [compile_eq, outcome_bind]
  cases ended : outcome compiler.bodies .start with
  | mk result between =>
      rw [ended] at resolving
      cases result with
      | error cause => simpa using resolving
      | ok bodies => simp [written_eq_undefinedReferences_iff]

def withStrict (compiler : Compiler) (strict : Bool) : Compiler :=
  { compiler with options := { compiler.options with strict := strict } }

theorem bodies_withStrict (strict : Bool) :
    (compiler.withStrict strict).bodies = compiler.bodies :=
  ResolvesLike.bodies_eq ⟨rfl, rfl, fun _ => rfl⟩

theorem productions_withStrict (strict : Bool) (bodies : List (Name × Rule)) :
    (compiler.withStrict strict).productions bodies = compiler.productions bodies := by
  induction bodies with
  | nil => rfl
  | cons entry rest ih =>
      rw [productions, productions, ih]
      rfl

theorem written_withStrict (strict : Bool) (bodies : List (Name × Rule)) :
    (compiler.withStrict strict).written bodies =
      if strict = true ∧ compiler.missingReferences bodies ≠ [] then
        .error (.undefinedReferences (compiler.missingReferences bodies))
      else (compiler.productions bodies).map (['\n'].intercalate ·) := by
  have refusedEq : (compiler.withStrict strict).refused bodies =
      if strict then compiler.missingReferences bodies else [] := rfl
  rw [written, refusedEq, productions_withStrict]
  cases strict with
  | false => simp
  | true =>
      cases compiler.missingReferences bodies with
      | nil => simp
      | cons first rest => simp

end Compiler

variable {grammar : Grammar}

/-- The compiler of a grammar with its own options. -/
def compiler (grammar : Grammar) : Compiler := ⟨grammar.definitions, grammar.options⟩

def Options.Overrides.ofStrict (strict : Bool) : Overrides := { none with strict := some strict }

theorem outcome_undefinedReferences {references : List (Name × Rule)} {last : Session}
    (referred : outcome grammar.compiler.referring.bodies .start = (.ok references, last)) :
    outcome grammar.undefinedReferences .start =
      (.ok (grammar.compiler.referring.missingReferences references), last) := by
  have namesEq : references.map Prod.fst = grammar.compiler.referring.names :=
    Compiler.names_of_resolveAll referred
  rw [Compiler.missingReferences_eq namesEq]
  have referringEq : (⟨grammar.definitions, { grammar.options with inline := false }⟩ : Compiler) =
      grammar.compiler.referring := rfl
  simp only [undefinedReferences, Grammar.references, referringEq, outcome_bind, referred,
    outcome_pure, List.flatMap_map]
  rfl

/-- A grammar that compiles when it is not strict compiles to the same text when it is, unless it has
undefined references; then these are reported, in order and each once. -/
theorem compile_strict_eq {text : Text} {after : Session}
    (compiled : outcome (grammar.compile (.ofStrict false)) .start = (.ok text, after)) :
    ∃ missing last, outcome grammar.undefinedReferences .start = (.ok missing, last) ∧
      missing.Pairwise (· < ·) ∧
      outcome (grammar.compile (.ofStrict true)) .start =
        (if missing = [] then .ok text else .error (.undefinedReferences missing), after) ∧
      (Error.undefinedReferences missing).message =
        "Undefined rule references: " ++ ", ".intercalate missing := by
  have compile_eq (strict : Bool) : grammar.compile (.ofStrict strict) =
      (grammar.compiler.withStrict strict).compile := rfl
  rw [compile_eq, Compiler.outcome_compile_eq_ok_iff, Compiler.bodies_withStrict] at compiled
  obtain ⟨bodies, resolved, written⟩ := compiled
  rw [Compiler.written_withStrict] at written
  obtain ⟨references, last, referred, missingEq⟩ := Compiler.exists_references_of_bodies resolved
  refine ⟨grammar.compiler.missingReferences bodies, last, ?_, Compiler.pairwise_sortedNames _, ?_,
    rfl⟩
  · rw [outcome_undefinedReferences referred, missingEq]
  · rw [compile_eq, Compiler.compile_eq, Compiler.bodies_withStrict, outcome_bind, resolved]
    simp only [Bool.false_eq_true, false_and, ↓reduceIte] at written
    simp only [outcome_ofExcept, Compiler.written_withStrict, true_and, written]
    by_cases complete : grammar.compiler.missingReferences bodies = []
    · simp [complete]
    · simp [complete]

/-- References inside a rule that is inlined count, and names that lack the qualifier are undefined. -/
theorem compile_strict_eq_of_inlined :
    let grammar (mentioned : List Name) : Grammar :=
      ⟨[("root", .builder "root" (.oneOrMore true (.lookup .attribute "item"))),
        ("item", .builder "item" (.choice true (mentioned.map .reference)))],
        ⟨true, "p", true, false⟩⟩
    let partialGrammar := grammar ["zeta", "p-root", "item"]
    let whole := grammar ["p-root", "p-item"]
    (∃ text after, outcome (partialGrammar.compile (.ofStrict false)) .start = (.ok text, after)) ∧
    (outcome partialGrammar.undefinedReferences .start).1 = .ok ["item", "zeta"] ∧
    (outcome (partialGrammar.compile (.ofStrict true)) .start).1 =
      .error (.undefinedReferences ["item", "zeta"]) ∧
    (outcome (whole.compile (.ofStrict true)) .start).1 =
      .ok "p-root ::= (p-root | p-item)+\np-item ::= (p-root | p-item)".toList := by
  intro grammar partialGrammar whole
  have undefined : (outcome partialGrammar.undefinedReferences .start).1 =
      .ok ["item", "zeta"] := by cbv
  have defined : (outcome whole.undefinedReferences .start).1 = .ok [] := by cbv
  have partialCompiled : ∃ text after,
      outcome (partialGrammar.compile (.ofStrict false)) .start = (.ok text, after) :=
    ⟨_, _, by cbv⟩
  have wholeCompiled : ∃ after, outcome (whole.compile (.ofStrict false)) .start =
      (.ok "p-root ::= (p-root | p-item)+\np-item ::= (p-root | p-item)".toList, after) :=
    ⟨_, by cbv⟩
  obtain ⟨text, after, written⟩ := partialCompiled
  obtain ⟨missing, last, found, -, refused, -⟩ := compile_strict_eq written
  rw [found] at undefined
  cases undefined
  obtain ⟨wholeAfter, wholeWritten⟩ := wholeCompiled
  obtain ⟨noneMissing, wholeLast, wholeFound, -, accepted, -⟩ := compile_strict_eq wholeWritten
  rw [wholeFound] at defined
  cases defined
  refine ⟨⟨text, after, written⟩, by rw [found], ?_, ?_⟩
  · rw [refused]
    rfl
  · rw [accepted]
    rfl

end Tessera.Grammar
