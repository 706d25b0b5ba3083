import Mathlib
import Tessera.Proofs.Grammar.Resolution

/-!
# Bodies with references and inline bodies

What the bodies of rules are in the two ways to resolve lookups.
-/

set_option autoImplicit false

/-! ## Bodies with references

Without inlining, a builder that asks for a rule is given a reference at once. So a rule is
resolved on its own: it has a body whenever its definition has a value with references for lookups.
-/

namespace Tessera.Grammar

open Tessera.Computation

namespace Compiler

variable {compiler : Compiler} {path : List Name}

/-- The same grammar, with builders given references. -/
def referring (compiler : Compiler) : Compiler :=
  { compiler with options := { compiler.options with inline := false } }

theorem referring_eq_self (inline : compiler.options.inline = false) :
    compiler.referring = compiler := by
  rw [referring, ← inline]

def placeholder (compiler : Compiler) : Answer := fun access name =>
  if access.permits name = true then
    if compiler.names.contains name = true then
      .ok (.reference (compiler.options.productionName name))
    else .error (.unknownRule access name compiler.names)
  else .error (.privateName name)

theorem placeholder_eq_ok_iff {access : Access} {name : Name} {rule : Rule} :
    compiler.placeholder access name = .ok rule ↔
      (access.permits name = true ∧ name ∈ compiler.names) ∧
        .reference (compiler.options.productionName name) = rule := by
  by_cases permitted : access.permits name = true
  · by_cases defined : name ∈ compiler.names
    · simp [placeholder, permitted, defined]
    · simp [placeholder, permitted, defined]
  · simp [placeholder, permitted]

theorem settling_find (compiler : Compiler) (path : List Name) (depth : Nat) (access : Access)
    (name : Name) :
    settling.relates (compiler.referring.find (compiler.referring.resolver depth path) access name)
      (compiler.placeholder access name) := by
  intro session
  have namesEq : compiler.referring.names = compiler.names := rfl
  have given : compiler.referring.resolver depth path name =
      pure (.reference (compiler.options.productionName name)) := rfl
  match access with
  | .subscript =>
      simp only [find, placeholder, Access.permits, namesEq, given, ↓reduceIte]
      split <;> exact ⟨rfl, rfl⟩
  | .attribute =>
      by_cases hidden : name.startsWith "_" = true
      · simp [find, placeholder, Access.permits, hidden]
      · simp only [find, placeholder, Access.permits, namesEq, given, hidden, Bool.not_false,
          Bool.false_eq_true, ↓reduceIte, outcome_tryCatch]
        cases compiler.names.contains name <;> exact ⟨rfl, rfl⟩

/-- Whether a body is the value of its definition with references for lookups. -/
def IsReferring (compiler : Compiler) (name : Name) (body : Rule) : Prop :=
  body.isRule = true ∧ ∃ definition, compiler.definitions.lookup name = some definition ∧
    definition.value compiler.placeholder = .ok body

theorem IsReferring.unique {name : Name} {body other : Rule}
    (first : compiler.IsReferring name body) (second : compiler.IsReferring name other) :
    body = other := by
  obtain ⟨-, definition, defined, made⟩ := first
  obtain ⟨-, _, sameDefined, otherMade⟩ := second
  rw [defined] at sameDefined
  cases sameDefined
  rw [made] at otherMade
  exact Except.ok.inj otherMade

theorem evaluate_referring {body : Rule} {definition : Definition} (accepted : body.isRule = true)
    (made : definition.value compiler.placeholder = .ok body) (depth : Nat) (path : List Name)
    (name : Name) (session : Session) :
    ∃ after, outcome (compiler.referring.evaluate (compiler.referring.resolver depth path) name
        definition) session = (.ok body, after) ∧ after.bodies = session.bodies := by
  cases definition with
  | term rule =>
      cases made
      exact ⟨session, outcome_evaluate_term_eq_ok_iff.mpr ⟨accepted, rfl, rfl⟩, rfl⟩
  | builder label expr =>
      have settled : settling.relates (expr.eval compiler.referring.names
          (compiler.referring.find (compiler.referring.resolver depth path)))
          (expr.value compiler.placeholder) :=
        settling.eval (settling_find compiler path depth) expr
      have ending := settled (session.noting (.started label))
      cases ended : outcome (expr.eval compiler.referring.names
          (compiler.referring.find (compiler.referring.resolver depth path)))
          (session.noting (.started label)) with
      | mk result after =>
          rw [ended] at ending
          obtain ⟨rfl, bodiesEq⟩ := ending
          refine ⟨after, outcome_evaluate_builder_eq_ok_iff.mpr ⟨accepted, ?_⟩, bodiesEq⟩
          rw [ended]
          exact congrArg (·, after) made

theorem IsReferring.resolve {name : Name} {body : Rule}
    (isReferring : compiler.IsReferring name body) {session : Session}
    (kept : ∀ other old, session.bodies.lookup other = some old → compiler.IsReferring other old) :
    ∃ after, outcome (compiler.referring.resolve name) session = (.ok body, after) ∧
      ∀ other old, after.bodies.lookup other = some old → compiler.IsReferring other old := by
  cases recalled : session.bodies.lookup name with
  | some old =>
      cases (kept name old recalled).unique isReferring
      exact ⟨session, outcome_resolveWithin_eq_ok_iff.mpr (.inl ⟨recalled, rfl⟩), kept⟩
  | none =>
      obtain ⟨accepted, definition, defined, made⟩ := id isReferring
      -- No lookup resolves anything here, so one level of depth is enough.
      obtain ⟨further, depthEq⟩ : ∃ further, compiler.definitions.length = further + 1 := by
        cases definitions_eq : compiler.definitions with
        | nil => simp [definitions_eq] at defined
        | cons first rest => exact ⟨rest.length, rfl⟩
      obtain ⟨between, evaluated, bodiesEq⟩ :=
        evaluate_referring accepted made further ([] ++ [name]) name session
      refine ⟨between.completing name body, outcome_resolveWithin_eq_ok_iff.mpr (.inr
        ⟨recalled, by simp, further, definition, between, depthEq, defined, evaluated, rfl⟩), ?_⟩
      intro other old found
      rw [Session.completing, bodiesEq] at found
      rcases lookup_append_singleton found with earlier | ⟨rfl, rfl⟩
      · exact kept other old earlier
      · exact isReferring

theorem isReferring_of_evaluate {name : Name} {definition : Definition} {body : Rule} {depth : Nat}
    {session after : Session}
    (evaluated : outcome (compiler.referring.evaluate (compiler.referring.resolver depth path) name
      definition) session = (.ok body, after)) :
    body.isRule = true ∧ definition.value compiler.placeholder = .ok body ∧
      after.bodies = session.bodies := by
  cases definition with
  | term rule =>
      obtain ⟨accepted, rfl, rfl⟩ := outcome_evaluate_term_eq_ok_iff.mp evaluated
      exact ⟨accepted, rfl, rfl⟩
  | builder label expr =>
      obtain ⟨accepted, made⟩ := outcome_evaluate_builder_eq_ok_iff.mp evaluated
      obtain ⟨valueEq, bodiesEq⟩ :=
        settling.eval (settling_find compiler path depth) expr (session.noting (.started label))
      rw [made] at valueEq bodiesEq
      exact ⟨accepted, valueEq.symm, bodiesEq⟩

theorem isReferring_of_resolve {name : Name} {body : Rule} {session after : Session}
    (kept : ∀ other old, session.bodies.lookup other = some old → compiler.IsReferring other old)
    (resolved : outcome (compiler.referring.resolve name) session = (.ok body, after)) :
    compiler.IsReferring name body ∧
      ∀ other old, after.bodies.lookup other = some old → compiler.IsReferring other old := by
  rcases outcome_resolveWithin_eq_ok_iff.mp resolved with
    ⟨found, rfl⟩ | ⟨-, -, further, definition, between, -, defined, evaluated, rfl⟩
  · exact ⟨kept name body found, kept⟩
  · obtain ⟨accepted, made, bodiesEq⟩ := isReferring_of_evaluate evaluated
    have isReferring : compiler.IsReferring name body := ⟨accepted, definition, defined, made⟩
    refine ⟨isReferring, fun other old found => ?_⟩
    rw [Session.completing, bodiesEq] at found
    rcases lookup_append_singleton found with earlier | ⟨rfl, rfl⟩
    · exact kept other old earlier
    · exact isReferring

theorem isReferring_of_resolveAll {names : List Name} {session after : Session}
    {references : List (Name × Rule)}
    (kept : ∀ name body, session.bodies.lookup name = some body → compiler.IsReferring name body)
    (resolved : outcome (compiler.referring.resolveAll names) session = (.ok references, after)) :
    ∀ name ∈ names, ∃ body, compiler.IsReferring name body := by
  induction names generalizing session after references with
  | nil => simp
  | cons name rest ih =>
      rw [resolveAll] at resolved
      simp only [outcome_bind_eq_ok_iff, outcome_pure] at resolved
      obtain ⟨body, between, first, others, last, restResolved, -⟩ := resolved
      obtain ⟨isReferring, betweenKept⟩ := isReferring_of_resolve kept first
      exact List.forall_mem_cons.mpr ⟨⟨body, isReferring⟩, ih betweenKept restResolved⟩

theorem resolveAll_referring {names : List Name}
    (each : ∀ name ∈ names, ∃ body, compiler.IsReferring name body) (session : Session)
    (kept : ∀ name body, session.bodies.lookup name = some body → compiler.IsReferring name body) :
    ∃ references after,
      outcome (compiler.referring.resolveAll names) session = (.ok references, after) ∧
        references.map Prod.fst = names ∧
        ∀ entry ∈ references, compiler.IsReferring entry.1 entry.2 := by
  induction names generalizing session with
  | nil => exact ⟨[], session, rfl, rfl, by simp⟩
  | cons name rest ih =>
      obtain ⟨body, isReferring⟩ := each name (.head _)
      obtain ⟨between, first, betweenKept⟩ := isReferring.resolve kept
      obtain ⟨references, after, others, namesEq, allReferring⟩ :=
        ih (fun other member => each other (.tail _ member)) between betweenKept
      refine ⟨(name, body) :: references, after, ?_, by rw [List.map_cons, namesEq], ?_⟩
      · simp only [resolveAll, outcome_bind, first, others, outcome_pure]
      · simpa [isReferring] using allReferring

theorem isReferring_of_mem_references {references : List (Name × Rule)} {last : Session}
    (referred : outcome compiler.referring.bodies .start = (.ok references, last)) :
    ∀ entry ∈ references, compiler.IsReferring entry.1 entry.2 := by
  have nothingKept : ∀ name body, Session.start.bodies.lookup name = some body →
      compiler.IsReferring name body := fun name body found => by cases found
  obtain ⟨_, _, resolved, -, allReferring⟩ :=
    resolveAll_referring (isReferring_of_resolveAll nothingKept referred) .start nothingKept
  have same := referred.symm.trans resolved
  cases same
  exact allReferring

theorem eq_of_isReferring {first second : List (Name × Rule)}
    (namesEq : first.map Prod.fst = second.map Prod.fst)
    (firstReferring : ∀ entry ∈ first, compiler.IsReferring entry.1 entry.2)
    (secondReferring : ∀ entry ∈ second, compiler.IsReferring entry.1 entry.2) : first = second := by
  induction first generalizing second with
  | nil => exact (List.map_eq_nil_iff.mp namesEq.symm).symm
  | cons entry rest ih =>
      cases second with
      | nil => cases namesEq
      | cons other others =>
          obtain ⟨nameEq, restEq⟩ := List.cons_eq_cons.mp namesEq
          obtain ⟨name, body⟩ := entry
          obtain ⟨_, otherBody⟩ := other
          cases nameEq
          obtain ⟨entryReferring, restReferring⟩ := List.forall_mem_cons.mp firstReferring
          obtain ⟨otherReferring, othersReferring⟩ := List.forall_mem_cons.mp secondReferring
          cases entryReferring.unique otherReferring
          rw [ih restEq restReferring othersReferring]

/-- Bodies with references are known by their names and by what each of them is. -/
theorem bodies_eq_of_isReferring {bodies : List (Name × Rule)}
    (inline : compiler.options.inline = false) (namesEq : bodies.map Prod.fst = compiler.names)
    (allReferring : ∀ entry ∈ bodies, compiler.IsReferring entry.1 entry.2) :
    ∃ last, outcome compiler.bodies .start = (.ok bodies, last) := by
  have each : ∀ name ∈ compiler.names, ∃ body, compiler.IsReferring name body := by
    intro name member
    obtain ⟨body, -, listed⟩ := lookup_of_mem_names (namesEq ▸ member)
    exact ⟨body, allReferring _ listed⟩
  obtain ⟨references, last, referred, referencesNames, referencesReferring⟩ :=
    resolveAll_referring each .start (fun name body found => by cases found)
  have same := eq_of_isReferring (referencesNames.trans namesEq.symm) referencesReferring
    allReferring
  rw [referring_eq_self inline, same] at referred
  exact ⟨last, referred⟩

/-- A body with references is its definition with the lookups replaced by references. -/
theorem IsReferring.build {name : Name} {body : Rule}
    (isReferring : compiler.IsReferring name body) {definition : Definition}
    (defined : compiler.definitions.lookup name = some definition) :
    (definition.substitute fun other =>
      some (.reference (compiler.options.productionName other))).build = .ok body := by
  obtain ⟨accepted, _, sameDefined, made⟩ := isReferring
  rw [defined] at sameDefined
  cases sameDefined
  rw [Definition.build_substitute]
  cases definition with
  | term rule => exact made
  | builder label expr =>
      obtain ⟨after, evaluated, -⟩ := evaluate_referring accepted made 0 [] name .start
      refine succeeding.eval (fun access other session reference last found => ?_) expr _ body after
        (outcome_evaluate_builder_eq_ok_iff.mp evaluated).2
      obtain ⟨-, -, given⟩ := outcome_find_eq_ok_iff.mp found
      cases given
      rfl

end Compiler

/-! ## Inline bodies as substitution

Inline bodies are the definitions with their lookups replaced by inline bodies. Where they exist,
bodies with references exist as well: the checks on the way ask only whether a term is a rule.
-/

namespace Compiler

variable {compiler : Compiler}

/-- Where lookups are answered inline, references answer them as well. -/
theorem IsValue.exists_referring {bodies : List (Name × Rule)} {name : Name} {body : Rule}
    (justified : compiler.Justified bodies) (isValue : compiler.IsValue bodies name body) :
    ∃ reference, compiler.IsReferring name reference := by
  obtain ⟨definition, defined, made⟩ := isValue.made
  -- Only lookups that a builder may make are answered, so that each of them has a reference.
  let answer : Answer := fun access other =>
    if access.permits other = true ∧ compiler.names.contains other = true then
      Answer.ofTable (fun name => bodies.lookup name) access other
    else .error (.privateName other)
  have agrees : compiler.Agrees answer bodies := by
    intro access other old permitted defined found
    simp only [answer, permitted, defined, Answer.ofTable, found, and_self, ↓reduceIte]
  have follows : ∀ access other,
      Follows Rule.isRule (answer access other) (compiler.placeholder access other) := by
    intro access other old answered
    by_cases asked : access.permits other = true ∧ compiler.names.contains other = true
    · cases found : bodies.lookup other with
      | none =>
          simp only [answer, asked, Answer.ofTable, found, and_self, ↓reduceIte] at answered
          cases answered
      | some kept =>
          simp only [answer, asked, Answer.ofTable, found, and_self, ↓reduceIte] at answered
          cases answered
          refine ⟨.reference (compiler.options.productionName other), ?_, ?_⟩
          · simp only [placeholder, asked, ↓reduceIte]
          · exact (justified other _ found).isRule.symm
    · simp only [answer, asked, ↓reduceIte] at answered
      cases answered
  cases definition with
  | term rule =>
      exact ⟨rule, by cases made answer agrees; exact isValue.isRule, _, defined, rfl⟩
  | builder label expr =>
      obtain ⟨reference, referenceMade, alike⟩ :=
        Expr.follows_value follows expr body (made answer agrees)
      exact ⟨reference, alike.trans isValue.isRule, _, defined, referenceMade⟩

/-- Inline bodies are the definitions with their lookups replaced by inline bodies. Where they
exist, bodies with references exist, and are the definitions with their lookups replaced by
references. Both come in the order of the definitions. -/
theorem inline_bodies_eq_substitute {bodies : List (Name × Rule)} {after : Session}
    (inline : compiler.options.inline = true)
    (resolved : outcome compiler.bodies .start = (.ok bodies, after)) :
    ∃ references last, outcome compiler.referring.bodies .start = (.ok references, last) ∧
      bodies.map Prod.fst = compiler.names ∧ references.map Prod.fst = compiler.names ∧
      ∀ name definition, compiler.definitions.lookup name = some definition →
        ∃ body reference,
          bodies.lookup name = some body ∧
          (definition.substitute fun other => bodies.lookup other).build = .ok body ∧
          references.lookup name = some reference ∧
          (definition.substitute fun other =>
            some (.reference (compiler.options.productionName other))).build = .ok reference := by
  obtain ⟨justified, -, namesEq, kept⟩ := keeps_resolveAll inline
    (fun name body found => by cases found) resolved
  have foundOfMem : ∀ name ∈ compiler.names,
      ∃ body, bodies.lookup name = some body ∧ after.bodies.lookup name = some body := by
    intro name member
    obtain ⟨body, found, listed⟩ := lookup_of_mem_names (namesEq ▸ member)
    exact ⟨body, found, kept _ listed⟩
  have agrees : compiler.Agrees (.ofTable fun other => bodies.lookup other) after.bodies := by
    intro access other old _ defined found
    obtain ⟨body, listed, same⟩ := foundOfMem other (List.contains_iff_mem.mp defined)
    rw [found] at same
    cases same
    simp only [Answer.ofTable, listed]
  have each : ∀ name ∈ compiler.names, ∃ reference, compiler.IsReferring name reference := by
    intro name member
    obtain ⟨body, -, found⟩ := foundOfMem name member
    exact (justified name body found).exists_referring justified
  obtain ⟨references, last, referringResolved, referencesNames, allReferring⟩ :=
    resolveAll_referring each .start (fun name body found => by cases found)
  refine ⟨references, last, referringResolved, namesEq, referencesNames, ?_⟩
  intro name definition defined
  have member : name ∈ compiler.names := List.mem_map_of_mem (mem_of_lookup_eq_some defined)
  obtain ⟨body, found, complete⟩ := foundOfMem name member
  obtain ⟨reference, referenceFound, listed⟩ := lookup_of_mem_names (referencesNames ▸ member)
  refine ⟨body, reference, found, ?_, referenceFound, (allReferring _ listed).build defined⟩
  obtain ⟨_, sameDefined, made⟩ := (justified name body complete).made
  rw [defined] at sameDefined
  cases sameDefined
  rw [Definition.build_substitute]
  exact made _ agrees

/-- A reference that a definition spells out stays, while a lookup of the same name is replaced;
rules may be looked up before they are defined. -/
theorem inline_bodies_eq_substitute_of_chain :
    let root : Definition :=
      .builder "root" (.sequence true [.lookup .attribute "item", .reference "item"])
    let item : Definition := .builder "item" (.optional true (.lookup .subscript "leaf"))
    let compiler : Compiler :=
      ⟨[("root", root), ("item", item), ("leaf", .term (.literal ['x']))],
        ⟨true, "p", false, false⟩⟩
    let inlined : Rule := .optional (.literal ['x'])
    let bodies : List (Name × Rule) :=
      [("root", .sequence [inlined, .reference "item"]), ("item", inlined),
        ("leaf", .literal ['x'])]
    compiler.options.inline = true ∧
      outcome compiler.bodies .start =
        (.ok bodies, ⟨bodies.reverse, #[.started "root", .started "item"]⟩) ∧
      ∃ references, (outcome compiler.referring.bodies .start).1 = .ok references ∧
        references.lookup "root" = some (.sequence [.reference "p-item", .reference "item"]) := by
  intro root item compiler inlined bodies
  have resolved : outcome compiler.bodies .start =
      (.ok bodies, ⟨bodies.reverse, #[.started "root", .started "item"]⟩) := by cbv
  obtain ⟨references, last, referringResolved, -, -, each⟩ :=
    inline_bodies_eq_substitute rfl resolved
  obtain ⟨_, reference, -, -, found, built⟩ := each "root" root rfl
  have value : (root.substitute fun other =>
      some (.reference (compiler.options.productionName other))).build =
      .ok (.sequence [.reference "p-item", .reference "item"]) := by cbv
  rw [value] at built
  cases built
  exact ⟨rfl, resolved, references, by rw [referringResolved], found⟩

end Compiler

end Tessera.Grammar
