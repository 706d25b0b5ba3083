import Mathlib
import Tessera.Proofs.Grammar.UndefinedReferences

/-!
# References that a grammar has given

Adding a rule to a grammar gives a reference to its production. The reference has the qualifier of that
moment, while a compilation goes by options of its own, so that it may come to name no production. A
grammar that is edited by such references alone has no other undefined references.
-/

set_option autoImplicit false

namespace Tessera.Grammar

open Tessera.Computation

/-! ## Definitions that are set -/

namespace Definitions

variable {name other : Name} {definition : Definition} {definitions : Definitions}

theorem lookup_cons : List.lookup other ((name, definition) :: definitions) =
    if other = name then some definition else definitions.lookup other := by
  rw [List.lookup_cons]
  by_cases same : other = name
  · simp [same]
  · rw [beq_eq_false_iff_ne.mpr same, if_neg same]

theorem lookup_set : (set name definition definitions).lookup other =
    if other = name then some definition else definitions.lookup other := by
  induction definitions with
  | nil => exact lookup_cons
  | cons entry rest ih =>
      obtain ⟨first, old⟩ := entry
      rw [set, lookup_cons]
      by_cases found : first = name
      · subst found
        rw [if_pos rfl, lookup_cons]
        by_cases same : other = first
        · simp [same]
        · simp [same]
      · rw [if_neg found, lookup_cons, ih]
        by_cases here : other = first
        · subst here
          simp [found]
        · simp [here]

theorem mem_names_set : other ∈ (set name definition definitions).names ↔
    other = name ∨ other ∈ definitions.names := by
  induction definitions with
  | nil => simp [set, names]
  | cons entry rest ih =>
      obtain ⟨first, old⟩ := entry
      rw [set]
      by_cases found : first = name
      · subst found
        simp [names]
      · rw [if_neg found]
        simp only [names, List.map_cons, List.mem_cons] at ih ⊢
        rw [ih]
        exact or_left_comm

end Definitions

section

variable {grammar next : Grammar} {name other : Name} {definition : Definition} {given : Rule}

theorem spells_of_spells_set (spelled : (grammar.set name definition).compiler.Spells other) :
    other ∈ definition.spelled ∨ grammar.compiler.Spells other := by
  obtain ⟨owner, found, defined, listed⟩ := spelled
  have definedEq : (grammar.set name definition).compiler.definitions.lookup owner =
      if owner = name then some definition else grammar.definitions.lookup owner :=
    Definitions.lookup_set
  rw [definedEq] at defined
  by_cases same : owner = name
  · rw [if_pos same] at defined
    cases defined
    exact .inl listed
  · rw [if_neg same] at defined
    exact .inr ⟨owner, found, defined, listed⟩

theorem add_eq_ok_iff : grammar.add name definition = .ok (given, next) ↔
    name ∉ grammar.names ∧ given = .reference (grammar.options.productionName name) ∧
      next = grammar.set name definition := by
  unfold add
  by_cases defined : grammar.contains name = true
  · have listed : name ∈ grammar.names := List.contains_iff_mem.mp defined
    simp [defined, listed]
  · have absent : name ∉ grammar.names := fun listed => defined (List.contains_iff_mem.mpr listed)
    simp [defined, absent, eq_comm]

end

/-! ## Editing a grammar -/

inductive Edit where
  | add (name : Name) (definition : Definition)
  | register (label : Name) (body : Expr) (name : Option Name)
  | set (name : Name) (definition : Definition)
  | setOptions (options : Options)

/-- The names of the references in what an edit defines, lookups aside. -/
def Edit.spelled : Edit → List Name
  | .add _ definition => definition.spelled
  | .register _ body _ => body.spelled
  | .set _ definition => definition.spelled
  | .setOptions _ => []

/-- What adding a rule has given, and under which options. -/
structure Issue where
  given : Rule
  rule : Name
  options : Options

/-- A grammar that is being edited, with what adding rules to it has given so far. -/
structure Draft where
  grammar : Grammar
  issued : List Issue

namespace Draft

/-- An edit that is refused changes nothing. -/
def after (draft : Draft) : Edit → Draft
  | .add name definition =>
    match draft.grammar.add name definition with
    | .ok (given, grammar) => ⟨grammar, draft.issued ++ [⟨given, name, draft.grammar.options⟩]⟩
    | .error _ => draft
  | .register label body name =>
    match draft.grammar.register label body name with
    | .ok (_, grammar) => { draft with grammar }
    | .error _ => draft
  | .set name definition => { draft with grammar := draft.grammar.set name definition }
  | .setOptions options => { draft with grammar := { draft.grammar with options } }

def Issues (draft : Draft) (name : Name) : Prop :=
  ∃ issue ∈ draft.issued, issue.given = .reference name

/-- The drafts that edits lead to which spell out only references given before. -/
inductive Reached : Draft → Prop
  | start {grammar : Grammar} (plain : ∀ name, ¬ grammar.compiler.Spells name) :
      Reached ⟨grammar, []⟩
  | edited {draft : Draft} {edit : Edit} (reached : Reached draft)
      (given : ∀ name ∈ edit.spelled, draft.Issues name) : Reached (draft.after edit)

/-- What holds of a draft that is reached: the references in it have been given for rules of its grammar. -/
structure IsSound (draft : Draft) : Prop where
  given : ∀ issue ∈ draft.issued, issue.given = .reference (issue.options.productionName issue.rule)
  kept : ∀ issue ∈ draft.issued, issue.rule ∈ draft.grammar.names
  spelled : ∀ name, draft.grammar.compiler.Spells name → draft.Issues name

variable {draft : Draft} {edit : Edit} {name : Name} {definition : Definition}

theorem IsSound.set (sound : draft.IsSound) (given : ∀ other ∈ definition.spelled, draft.Issues other) :
    IsSound { draft with grammar := draft.grammar.set name definition } where
  given := sound.given
  kept issue listed := Definitions.mem_names_set.mpr (.inr (sound.kept issue listed))
  spelled other spelled := by
    rcases spells_of_spells_set spelled with here | before
    · exact given other here
    · exact sound.spelled other before

theorem IsSound.issuing (sound : draft.IsSound) {issue : Issue}
    (given : issue.given = .reference (issue.options.productionName issue.rule))
    (defined : issue.rule ∈ draft.grammar.names) :
    IsSound { draft with issued := draft.issued ++ [issue] } where
  given other listed := by
    rcases List.mem_append.mp listed with before | last
    · exact sound.given other before
    · cases List.mem_singleton.mp last
      exact given
  kept other listed := by
    rcases List.mem_append.mp listed with before | last
    · exact sound.kept other before
    · cases List.mem_singleton.mp last
      exact defined
  spelled other spelled := by
    obtain ⟨old, listed, givenOld⟩ := sound.spelled other spelled
    exact ⟨old, List.mem_append_left _ listed, givenOld⟩

theorem IsSound.after (sound : draft.IsSound) (given : ∀ name ∈ edit.spelled, draft.Issues name) :
    (draft.after edit).IsSound := by
  cases edit with
  | add name definition =>
      rw [Draft.after]
      split
      · next rule grammar added =>
          obtain ⟨-, rfl, rfl⟩ := add_eq_ok_iff.mp added
          exact (sound.set given).issuing rfl (Definitions.mem_names_set.mpr (.inl rfl))
      · exact sound
  | register label body name =>
      rw [Draft.after]
      split
      · next rule grammar added =>
          obtain ⟨-, -, rfl⟩ := add_eq_ok_iff.mp added
          exact sound.set given
      · exact sound
  | set name definition => exact sound.set given
  | setOptions options => exact ⟨sound.given, sound.kept, sound.spelled⟩

theorem Reached.isSound (reached : draft.Reached) : draft.IsSound := by
  induction reached with
  | start plain =>
      exact {
        given := fun issue listed => by cases listed
        kept := fun issue listed => by cases listed
        spelled := fun name spelled => absurd spelled (plain name) }
  | edited _ given sound => exact sound.after given

end Draft

/-! ## Compiling what has been edited -/

/-- The compiler of a grammar with some of its options replaced. -/
def compilerWith (grammar : Grammar) (overrides : Options.Overrides) : Compiler :=
  ⟨grammar.definitions, grammar.options.override overrides⟩

/-- Whether some definition spells out what an issue has given. -/
def Issue.IsUsed (issue : Issue) (compiler : Compiler) (name : Name) : Prop :=
  issue.given = .reference name ∧ compiler.Spells name

namespace Draft

variable {draft : Draft} {overrides : Options.Overrides} {name : Name} {issue : Issue}

/-- Under the same qualifier, what a rule has been given for is still the name of its production. -/
theorem IsSound.mem_produced (sound : draft.IsSound) (listed : issue ∈ draft.issued)
    (used : issue.IsUsed (draft.grammar.compilerWith overrides) name)
    (same : issue.options.qualifier = (draft.grammar.options.override overrides).qualifier) :
    name ∈ (draft.grammar.compilerWith overrides).produced := by
  have givenEq := used.1.symm.trans (sound.given issue listed)
  cases givenEq
  have nameEq : issue.options.productionName issue.rule =
      (draft.grammar.options.override overrides).productionName issue.rule := by
    rw [Options.productionName, Options.productionName, same]
  rw [nameEq]
  exact List.mem_map_of_mem (sound.kept issue listed)

/-- Whether what has been given is in use, but names no production under the options of a compilation. -/
def IsLost (draft : Draft) (overrides : Options.Overrides) (name : Name) : Prop :=
  (∃ issue ∈ draft.issued, issue.IsUsed (draft.grammar.compilerWith overrides) name) ∧
    name ∉ (draft.grammar.compilerWith overrides).produced

theorem IsSound.mem_missingReferences_iff (sound : draft.IsSound) {bodies : List (Name × Rule)}
    (resolved : (outcome (draft.grammar.compilerWith overrides).bodies .start).1 = .ok bodies) :
    name ∈ (draft.grammar.compilerWith overrides).missingReferences bodies ↔
      draft.IsLost overrides name := by
  rw [Compiler.mem_missingReferences_iff_spells (Prod.ext resolved rfl)]
  refine and_congr_left fun _ => ?_
  constructor
  · intro spelled
    obtain ⟨issue, listed, given⟩ := sound.spelled name spelled
    exact ⟨issue, listed, given, spelled⟩
  · intro used
    obtain ⟨issue, -, -, spelled⟩ := used
    exact spelled

theorem compile_strict_eq_undefinedReferences_iff (strict : overrides.strict = some true)
    {missing : List Name} :
    (outcome (draft.grammar.compile overrides) .start).1 = .error (.undefinedReferences missing) ↔
      ∃ bodies, (outcome (draft.grammar.compilerWith overrides).bodies .start).1 = .ok bodies ∧
        (draft.grammar.compilerWith overrides).missingReferences bodies = missing ∧
        missing ≠ [] := by
  have isStrict : (draft.grammar.compilerWith overrides).options.strict = true := by
    simp [compilerWith, Options.override, strict]
  have compile_eq : draft.grammar.compile overrides = (draft.grammar.compilerWith overrides).compile :=
    rfl
  simp only [compile_eq, Compiler.compile_eq_undefinedReferences_iff, Compiler.refused, isStrict,
    ↓reduceIte]

/-- A strict compilation of a grammar that is edited by the references it has given fails for undefined
ones exactly if some of these are lost, and then reports those. Under the qualifier under which the ones
in use have been given, none are. -/
theorem compile_strict_of_reached (reached : draft.Reached) (strict : overrides.strict = some true) :
    ((∃ missing, (outcome (draft.grammar.compile overrides) .start).1 =
        .error (.undefinedReferences missing)) ↔
      (∃ bodies, (outcome (draft.grammar.compilerWith overrides).bodies .start).1 = .ok bodies) ∧
        ∃ name, draft.IsLost overrides name) ∧
    (∀ missing, (outcome (draft.grammar.compile overrides) .start).1 =
        .error (.undefinedReferences missing) →
      ∀ name, name ∈ missing ↔ draft.IsLost overrides name) ∧
    ((∀ issue ∈ draft.issued, ∀ name, issue.IsUsed (draft.grammar.compilerWith overrides) name →
        issue.options.qualifier = (draft.grammar.options.override overrides).qualifier) →
      ∀ missing, (outcome (draft.grammar.compile overrides) .start).1 ≠
        .error (.undefinedReferences missing)) := by
  have sound := reached.isSound
  refine ⟨?_, ?_, ?_⟩
  · constructor
    · intro fails
      obtain ⟨missing, failed⟩ := fails
      obtain ⟨bodies, resolved, rfl, nonempty⟩ :=
        (compile_strict_eq_undefinedReferences_iff strict).mp failed
      obtain ⟨name, listed⟩ := List.exists_mem_of_ne_nil _ nonempty
      exact ⟨⟨bodies, resolved⟩, name, (sound.mem_missingReferences_iff resolved).mp listed⟩
    · intro both
      obtain ⟨⟨bodies, resolved⟩, name, lost⟩ := both
      have listed := (sound.mem_missingReferences_iff resolved).mpr lost
      exact ⟨_, (compile_strict_eq_undefinedReferences_iff strict).mpr
        ⟨bodies, resolved, rfl, List.ne_nil_of_mem listed⟩⟩
  · intro missing failed name
    obtain ⟨bodies, resolved, rfl, -⟩ :=
      (compile_strict_eq_undefinedReferences_iff strict).mp failed
    exact sound.mem_missingReferences_iff resolved
  · intro same missing failed
    obtain ⟨bodies, resolved, rfl, nonempty⟩ :=
      (compile_strict_eq_undefinedReferences_iff strict).mp failed
    obtain ⟨name, listed⟩ := List.exists_mem_of_ne_nil _ nonempty
    obtain ⟨⟨issue, issued, used⟩, lost⟩ := (sound.mem_missingReferences_iff resolved).mp listed
    exact lost (sound.mem_produced issued used (same issue issued name used))

/-- The qualifier is chosen before the first rule is added, and one rule is a builder. With the options as
they are the grammar compiles; another qualifier for the compilation loses the reference. -/
theorem compile_strict_of_chosen_qualifier :
    let start : Draft := ⟨⟨[], .default⟩, []⟩
    let draft : Draft := start
      |>.after (.setOptions ⟨false, "p", false, false⟩)
      |>.after (.add "value" (.term (.literal "null".toList)))
      |>.after (.set "list" (.term (.zeroOrMore (.reference "p-value"))))
      |>.after (.register "root" (.lookup .attribute "list") none)
    let overrides (qualifier : Option String) : Options.Overrides :=
      { Options.Overrides.ofStrict true with qualifier := qualifier }
    draft.Reached ∧ (overrides none).strict = some true ∧ (overrides "q").strict = some true ∧
      (∀ issue ∈ draft.issued, ∀ name,
        issue.IsUsed (draft.grammar.compilerWith (overrides none)) name →
        issue.options.qualifier = (draft.grammar.options.override (overrides none)).qualifier) ∧
      (outcome (draft.grammar.compile (overrides none)) .start).1 =
        .ok "p-value ::= \"null\"\np-list ::= p-value*\np-root ::= p-list".toList ∧
      (∀ missing, (outcome (draft.grammar.compile (overrides none)) .start).1 ≠
        .error (.undefinedReferences missing)) ∧
      draft.IsLost (overrides "q") "p-value" ∧
      ∃ missing, (outcome (draft.grammar.compile (overrides "q")) .start).1 =
        .error (.undefinedReferences missing) ∧ "p-value" ∈ missing := by
  intro start draft overrides
  have issuedEq : draft.issued =
      [⟨.reference "p-value", "value", ⟨false, "p", false, false⟩⟩] := by cbv
  have reached : draft.Reached := by
    refine .edited (.edited (.edited (.edited (.start ?_) ?_) ?_) ?_) ?_
    · rintro name ⟨owner, definition, defined, -⟩
      cases defined
    · intro name listed
      cases listed
    · intro name listed
      cbv at listed
      cases listed
    · intro name listed
      cbv at listed
      cases List.mem_singleton.mp listed
      exact ⟨_, issuedEq ▸ List.mem_singleton_self _, rfl⟩
    · intro name listed
      cases listed
  have sameQualifier : ∀ issue ∈ draft.issued, ∀ name,
      issue.IsUsed (draft.grammar.compilerWith (overrides none)) name →
      issue.options.qualifier = (draft.grammar.options.override (overrides none)).qualifier := by
    intro issue listed name _
    rw [issuedEq] at listed
    cases List.mem_singleton.mp listed
    rfl
  have lost : draft.IsLost (overrides "q") "p-value" := by
    refine ⟨⟨_, issuedEq ▸ List.mem_singleton_self _, rfl, "list", _, rfl, ?_⟩, by decide⟩
    exact Rule.mem_references_iff.mpr (.inside (List.mem_singleton_self _) .here)
  have resolved : ∃ bodies,
      (outcome (draft.grammar.compilerWith (overrides "q")).bodies .start).1 = .ok bodies :=
    ⟨_, by cbv⟩
  have strict (qualifier : Option String) : (overrides qualifier).strict = some true := rfl
  obtain ⟨-, -, never⟩ := compile_strict_of_reached reached (strict none)
  obtain ⟨failsIff, reports, -⟩ := compile_strict_of_reached reached (strict "q")
  obtain ⟨missing, failed⟩ := failsIff.mpr ⟨resolved, "p-value", lost⟩
  exact ⟨reached, strict none, strict "q", sameQualifier, by cbv, never sameQualifier, lost, missing, failed,
    (reports missing failed "p-value").mpr lost⟩

/-- A reference is given without a qualifier, used, and lost to the qualifier of the compilation. -/
theorem compile_loses_given_reference :
    let start : Draft := ⟨⟨[], .default⟩, []⟩
    let added : Draft := start.after (.add "value" (.term (.literal "null".toList)))
    let draft : Draft := added.after (.set "root" (.term (.sequence [.reference "value"])))
    let overrides : Options.Overrides :=
      { Options.Overrides.ofStrict true with qualifier := some "p" }
    draft.Reached ∧ added.Issues "value" ∧
      (outcome (draft.grammar.compile overrides) .start).1 =
        .error (.undefinedReferences ["value"]) := by
  intro start added draft overrides
  have given : added.Issues "value" := ⟨_, List.mem_singleton_self _, rfl⟩
  refine ⟨.edited (.edited (.start ?_) ?_) ?_, given, by cbv⟩
  · rintro name ⟨owner, definition, defined, -⟩
    cases defined
  · intro name listed
    cbv at listed
    cases listed
  · intro name listed
    cbv at listed
    cases List.mem_singleton.mp listed
    exact given

end Draft

end Tessera.Grammar
