import Tessera.Proofs.Grammar.Evaluation

/-!
# Resolving rules

What a compiler does to resolve a rule, and what it keeps of that.
-/

set_option autoImplicit false

/-! ## The steps of a compiler

What it takes that a lookup is answered, a definition evaluated, and a rule resolved. Each step is
taken apart once; nothing is said here about which bodies are complete.
-/

namespace Tessera.Grammar

open Tessera.Computation

/-- Whether names may be looked up in this way. -/
def Access.permits : Access → Name → Bool
  | .subscript, _ => true
  | .attribute, name => !name.startsWith "_"

namespace Session

def noting (session : Session) (entry : LogEntry) : Session :=
  { session with log := session.log.push entry }

def completing (session : Session) (name : Name) (body : Rule) : Session :=
  { session with bodies := session.bodies ++ [(name, body)] }

end Session

namespace Compiler

variable {compiler : Compiler} {session after : Session} {name : Name} {body : Rule}

/-- A lookup succeeds exactly if it is permitted, the name is defined, and its rule is resolved. -/
theorem outcome_find_eq_ok_iff {resolve : Name → Run Rule} {access : Access} :
    outcome (compiler.find resolve access name) session = (.ok body, after) ↔
      access.permits name = true ∧ compiler.names.contains name = true ∧
        outcome (resolve name) session = (.ok body, after) := by
  have subscript : outcome (if compiler.names.contains name then resolve name
        else throw (.unknownRule .subscript name compiler.names)) session = (.ok body, after) ↔
      compiler.names.contains name = true ∧
        outcome (resolve name) session = (.ok body, after) := by
    split <;> simp_all
  match access with
  | .subscript => simpa [find, Access.permits] using subscript
  | .attribute =>
      by_cases hidden : name.startsWith "_" = true
      · simp [find, Access.permits, hidden]
      · simp only [find, hidden, Access.permits, Bool.not_false, true_and, Bool.false_eq_true,
          ↓reduceIte, outcome_tryCatch]
        rw [← subscript]
        -- The handler only changes which error it is.
        cases outcome (if compiler.names.contains name then resolve name
          else throw (.unknownRule .subscript name compiler.names)) session with
        | mk ending between =>
            cases ending with
            | ok value => rfl
            | error cause =>
                simp only
                split <;> simp

theorem outcome_evaluate_builder_eq_ok_iff {resolve : Name → Run Rule} {label : Name}
    {expr : Expr} :
    outcome (compiler.evaluate resolve name (.builder label expr)) session = (.ok body, after) ↔
      body.isRule = true ∧
        outcome (expr.eval compiler.names (compiler.find resolve))
          (session.noting (.started label)) = (.ok body, after) := by
  simp only [evaluate, outcome_bind_eq_ok_iff, Run.record, outcome_modify]
  constructor
  · rintro ⟨_, _, noted, rule, between, made, kept⟩
    cases noted
    cases rule <;> cases kept <;> exact ⟨rfl, made⟩
  · rintro ⟨accepted, made⟩
    refine ⟨_, _, rfl, body, after, made, ?_⟩
    cases body <;> first | rfl | cases accepted

theorem outcome_evaluate_term_eq_ok_iff {resolve : Name → Run Rule} {rule : Rule} :
    outcome (compiler.evaluate resolve name (.term rule)) session = (.ok body, after) ↔
      body.isRule = true ∧ rule = body ∧ session = after := by
  cases rule with
  | foreign value =>
      simp only [evaluate, outcome_throw]
      constructor
      · intro made
        cases made
      · rintro ⟨accepted, rfl, -⟩
        cases accepted
  | _ =>
      simp only [evaluate, outcome_pure, Prod.mk.injEq, Except.ok.injEq]
      constructor
      · rintro ⟨rfl, rfl⟩
        exact ⟨rfl, rfl, rfl⟩
      · rintro ⟨-, rfl, rfl⟩
        exact ⟨rfl, rfl⟩

/-- What resolves the lookups of a builder. -/
def resolver (compiler : Compiler) (depth : Nat) (path : List Name) : Name → Run Rule :=
  if compiler.options.inline then compiler.resolveWithin depth path
  else fun other => pure (.reference (compiler.options.productionName other))

theorem outcome_resolveWithin_of_kept {depth : Nat} {path : List Name}
    (found : session.bodies.lookup name = some body) :
    outcome (compiler.resolveWithin depth path name) session = (.ok body, session) := by
  unfold resolveWithin
  rw [outcome_bind, outcome_get]
  simp only [found, outcome_pure]

theorem outcome_resolveWithin_of_mem {depth : Nat} {path : List Name}
    (absent : session.bodies.lookup name = none) (underWay : name ∈ path) :
    outcome (compiler.resolveWithin depth path name) session =
      (.error (.cyclic path name), session) := by
  unfold resolveWithin
  rw [outcome_bind, outcome_get]
  simp only [absent, List.contains_iff_mem.mpr underWay, ↓reduceIte, outcome_throw]

theorem outcome_resolveWithin_of_notMem {depth : Nat} {path : List Name} {definition : Definition}
    (absent : session.bodies.lookup name = none) (outside : name ∉ path)
    (defined : compiler.definitions.lookup name = some definition) :
    outcome (compiler.resolveWithin (depth + 1) path name) session =
      match outcome (compiler.evaluate (compiler.resolver depth (path ++ [name])) name definition)
        session with
      | (.ok body, between) => (.ok body, between.completing name body)
      | (.error cause, between) => (.error cause, between) := by
  unfold resolveWithin
  rw [outcome_bind, outcome_get]
  have notUnderWay : path.contains name = false := by simpa using outside
  have resolving : (if compiler.options.inline = true then
        compiler.resolveWithin depth (path ++ [name])
      else fun other => pure (.reference (compiler.options.productionName other))) =
      compiler.resolver depth (path ++ [name]) := rfl
  simp only [absent, notUnderWay, defined, Bool.false_eq_true, ↓reduceIte, outcome_bind, resolving]
  cases outcome (compiler.evaluate (compiler.resolver depth (path ++ [name])) name definition)
    session with
  | mk result between => cases result <;> rfl

/-- A rule is resolved if its body is complete, or else by evaluating its definition, which must
not be under way already. -/
theorem outcome_resolveWithin_eq_ok_iff {depth : Nat} {path : List Name} :
    outcome (compiler.resolveWithin depth path name) session = (.ok body, after) ↔
      (session.bodies.lookup name = some body ∧ session = after) ∨
      (session.bodies.lookup name = none ∧ name ∉ path ∧
        ∃ further definition between, depth = further + 1 ∧
          compiler.definitions.lookup name = some definition ∧
          outcome (compiler.evaluate (compiler.resolver further (path ++ [name])) name definition)
            session = (.ok body, between) ∧
          after = between.completing name body) := by
  unfold resolveWithin
  rw [outcome_bind, outcome_get]
  simp only
  cases recalled : session.bodies.lookup name with
  | some kept => simp
  | none =>
      by_cases underWay : name ∈ path
      · simp [underWay]
      · cases depth with
        | zero => simp [underWay]
        | succ further =>
            cases defined : compiler.definitions.lookup name with
            | none => simp [underWay]
            | some definition =>
                have evaluating : (if compiler.options.inline = true then
                      compiler.resolveWithin further (path ++ [name])
                    else fun other => pure (.reference (compiler.options.productionName other))) =
                    compiler.resolver further (path ++ [name]) := rfl
                simp only [List.contains_eq_mem, underWay, decide_false, Bool.false_eq_true,
                  ↓reduceIte, evaluating, outcome_bind_eq_ok_iff, complete, outcome_modify,
                  outcome_pure, reduceCtorEq, false_and, false_or, not_false_eq_true, true_and]
                constructor
                · rintro ⟨value, between, evaluated, _, _, completed, returned⟩
                  cases completed
                  cases returned
                  exact ⟨further, definition, between, rfl, rfl, evaluated, rfl⟩
                · rintro ⟨_, _, between, sameDepth, sameDefinition, evaluated, rfl⟩
                  cases sameDepth
                  cases sameDefinition
                  exact ⟨body, between, evaluated, _, _, rfl, rfl⟩

/-! ### Compilers that resolve alike -/

/-- Whether two compilers resolve the same rules in the same way. The qualifier makes no difference
where builders are given bodies. -/
structure ResolvesLike (first second : Compiler) : Prop where
  definitions_eq : first.definitions = second.definitions
  inline_eq : first.options.inline = second.options.inline
  qualifier_eq : first.options.inline = false → first.options.qualifier = second.options.qualifier

theorem ResolvesLike.resolveWithin_eq {first second : Compiler}
    (alike : first.ResolvesLike second) (depth : Nat) :
    first.resolveWithin depth = second.resolveWithin depth := by
  obtain ⟨definitions, options⟩ := first
  obtain ⟨_, others⟩ := second
  obtain ⟨rfl, inlineEq, qualifierEq⟩ := alike
  have evaluating : (⟨definitions, options⟩ : Compiler).evaluate =
      (⟨definitions, others⟩ : Compiler).evaluate := rfl
  induction depth with
  | zero =>
      funext path name
      unfold resolveWithin
      rfl
  | succ further ih =>
      funext path name
      unfold resolveWithin
      cases definitions.lookup name with
      | none => rfl
      | some definition =>
          cases inline : options.inline with
          | true =>
              have othersInline : others.inline = true := inlineEq ▸ inline
              simp only [othersInline, ih, evaluating, ↓reduceIte]
          | false =>
              have othersInline : others.inline = false := inlineEq ▸ inline
              have same : options.productionName = others.productionName := by
                funext other
                have qualifiers : options.qualifier = others.qualifier := qualifierEq inline
                rw [Options.productionName, Options.productionName, qualifiers]
              simp only [othersInline, same, evaluating, Bool.false_eq_true, ↓reduceIte]

theorem ResolvesLike.bodies_eq {first second : Compiler} (alike : first.ResolvesLike second) :
    first.bodies = second.bodies := by
  have resolving : first.resolve = second.resolve := by
    funext name
    rw [resolve, resolve, alike.resolveWithin_eq, alike.definitions_eq]
  have all (names : List Name) : first.resolveAll names = second.resolveAll names := by
    induction names with
    | nil => rfl
    | cons name rest ih => rw [resolveAll, resolveAll, resolving, ih]
  rw [bodies, bodies, all, names, names, alike.definitions_eq]

end Compiler

/-! ## The bodies that a compiler keeps

A compiler that works inline gives builders the bodies of other rules and keeps every body that it
completes. At any time, each body that is kept is the value of its definition, with lookups
answered by the bodies that are kept; it does not matter in which order they were completed.
-/

/-! ### Tables of names -/

theorem mem_of_lookup_eq_some {α : Type} {entries : List (Name × α)} {name : Name} {value : α}
    (found : entries.lookup name = some value) : (name, value) ∈ entries := by
  obtain ⟨front, back, rfl, -⟩ := List.lookup_eq_some_iff.mp found
  exact List.mem_append_right _ (.head _)

theorem lookup_of_mem_names {α : Type} {entries : List (Name × α)} {name : Name}
    (member : name ∈ entries.map Prod.fst) :
    ∃ value, entries.lookup name = some value ∧ (name, value) ∈ entries := by
  obtain ⟨entry, listed, rfl⟩ := List.mem_map.mp member
  obtain ⟨value, found⟩ := Option.isSome_iff_exists.mp
    (List.lookup_isSome_iff.mpr ⟨entry, listed, BEq.rfl⟩)
  exact ⟨value, found, mem_of_lookup_eq_some found⟩

theorem lookup_append_singleton {bodies : List (Name × Rule)} {name other : Name} {body old : Rule}
    (found : (bodies ++ [(name, body)]).lookup other = some old) :
    bodies.lookup other = some old ∨ other = name ∧ old = body := by
  rw [List.lookup_append] at found
  cases earlier : bodies.lookup other with
  | some kept =>
      rw [earlier, Option.some_or] at found
      exact .inl found
  | none =>
      rw [earlier, Option.none_or, List.lookup_cons] at found
      split at found
      · next same => exact .inr ⟨eq_of_beq same, (Option.some.inj found).symm⟩
      · cases found

/-! ### Bodies that are kept -/

/-- Bodies that are kept stay as they are, and rules that are under way stay incomplete. -/
structure Extends (path : List Name) (before after : List (Name × Rule)) : Prop where
  kept : ∀ name body, before.lookup name = some body → after.lookup name = some body
  pending : ∀ name ∈ path, before.lookup name = none → after.lookup name = none

namespace Extends

variable {path : List Name} {before between after : List (Name × Rule)}

theorem refl : Extends path before before := ⟨fun _ _ found => found, fun _ _ absent => absent⟩

theorem trans (first : Extends path before between) (second : Extends path between after) :
    Extends path before after :=
  ⟨fun name body found => second.kept name body (first.kept name body found),
    fun name member absent => second.pending name member (first.pending name member absent)⟩

theorem of_append {further : List Name} (extended : Extends (path ++ further) before after) :
    Extends path before after :=
  ⟨extended.kept, fun name member => extended.pending name (List.mem_append_left _ member)⟩

theorem append_of_notMem {name : Name} (outside : name ∉ path) (body : Rule) :
    Extends path before (before ++ [(name, body)]) := by
  refine ⟨fun other kept found => ?_, fun other member absent => ?_⟩
  · rw [List.lookup_append, found, Option.some_or]
  · have apart : (other == name) = false := by
      simpa using fun same : other = name => outside (same ▸ member)
    rw [List.lookup_append, absent, Option.none_or, List.lookup_cons, apart]
    rfl

end Extends

namespace Compiler

/-- Whether lookups that a builder may make are answered by the bodies that are kept. -/
def Agrees (compiler : Compiler) (answer : Answer) (bodies : List (Name × Rule)) : Prop :=
  ∀ access name body, access.permits name = true → compiler.names.contains name = true →
    bodies.lookup name = some body → answer access name = .ok body

/-- Whether a body is the value of its definition, with lookups answered by the bodies that are
kept. -/
structure IsValue (compiler : Compiler) (bodies : List (Name × Rule)) (name : Name) (body : Rule) :
    Prop where
  isRule : body.isRule = true
  made : ∃ definition, compiler.definitions.lookup name = some definition ∧
    ∀ answer, compiler.Agrees answer bodies → definition.value answer = .ok body

/-- What holds of the bodies that are kept at any time. -/
def Justified (compiler : Compiler) (bodies : List (Name × Rule)) : Prop :=
  ∀ name body, bodies.lookup name = some body → compiler.IsValue bodies name body

variable {compiler : Compiler} {path : List Name}

theorem Agrees.of_extends {answer : Answer} {before after : List (Name × Rule)}
    (agrees : compiler.Agrees answer after) (extended : Extends path before after) :
    compiler.Agrees answer before :=
  fun access name body permitted defined found =>
    agrees access name body permitted defined (extended.kept name body found)

theorem IsValue.of_extends {before after : List (Name × Rule)} {name : Name} {body : Rule}
    (isValue : compiler.IsValue before name body) (extended : Extends path before after) :
    compiler.IsValue after name body := by
  obtain ⟨definition, defined, made⟩ := isValue.made
  exact ⟨isValue.isRule, definition, defined, fun answer agrees =>
    made answer (agrees.of_extends extended)⟩

/-- A computation recalls if it keeps what holds of the bodies, and its result follows from those
that are kept in the end. -/
def recalling (compiler : Compiler) (path : List Name) (answer : Answer) : Correspondence where
  relates computation result := ∀ session value after, compiler.Justified session.bodies →
    outcome computation session = (.ok value, after) →
    compiler.Justified after.bodies ∧ Extends path session.bodies after.bodies ∧
      (compiler.Agrees answer after.bodies → result = .ok value)
  pure _ _ _ _ justified made := by
    cases made
    exact ⟨justified, .refl, fun _ => rfl⟩
  ofExcept result _ _ _ justified made := by
    cases result <;> cases made
    exact ⟨justified, .refl, fun _ => rfl⟩
  record _ _ _ _ justified made := by
    cases made
    exact ⟨justified, .refl, fun _ => rfl⟩
  bind first second session result after justified made := by
    obtain ⟨value, between, firstMade, secondMade⟩ := outcome_bind_eq_ok_iff.mp made
    obtain ⟨betweenJustified, firstExtended, firstEq⟩ :=
      first session value between justified firstMade
    obtain ⟨afterJustified, secondExtended, secondEq⟩ :=
      second value between result after betweenJustified secondMade
    refine ⟨afterJustified, firstExtended.trans secondExtended, fun agrees => ?_⟩
    rw [firstEq (agrees.of_extends secondExtended)]
    exact secondEq agrees

/-- Whether a resolved rule is kept, and nothing else is lost. -/
def Keeps (compiler : Compiler) (path : List Name) (resolve : Name → Run Rule) : Prop :=
  ∀ name session body after, compiler.Justified session.bodies →
    outcome (resolve name) session = (.ok body, after) →
    compiler.Justified after.bodies ∧ Extends path session.bodies after.bodies ∧
      after.bodies.lookup name = some body

theorem Keeps.find {resolve : Name → Run Rule} (keeps : compiler.Keeps path resolve)
    (answer : Answer) (access : Access) (name : Name) :
    (compiler.recalling path answer).relates (compiler.find resolve access name)
      (answer access name) := by
  intro session body after justified made
  obtain ⟨permitted, defined, resolved⟩ := outcome_find_eq_ok_iff.mp made
  obtain ⟨afterJustified, extended, found⟩ := keeps name session body after justified resolved
  exact ⟨afterJustified, extended, fun agrees => agrees access name body permitted defined found⟩

theorem Keeps.evaluate {resolve : Name → Run Rule} (keeps : compiler.Keeps path resolve)
    {name : Name} {definition : Definition} {session after : Session} {body : Rule}
    (justified : compiler.Justified session.bodies)
    (made : outcome (compiler.evaluate resolve name definition) session = (.ok body, after)) :
    compiler.Justified after.bodies ∧ Extends path session.bodies after.bodies ∧
      body.isRule = true ∧
      ∀ answer, compiler.Agrees answer after.bodies → definition.value answer = .ok body := by
  cases definition with
  | term rule =>
      obtain ⟨accepted, rfl, rfl⟩ := outcome_evaluate_term_eq_ok_iff.mp made
      exact ⟨justified, .refl, accepted, fun _ _ => rfl⟩
  | builder label expr =>
      obtain ⟨accepted, evaluated⟩ := outcome_evaluate_builder_eq_ok_iff.mp made
      have recalled := fun answer =>
        (compiler.recalling path answer).eval (keeps.find answer) expr
          (session.noting (.started label)) body after justified evaluated
      obtain ⟨afterJustified, extended, _⟩ := recalled (.ofTable fun _ => none)
      exact ⟨afterJustified, extended, accepted, fun answer => (recalled answer).2.2⟩

theorem Justified.append {bodies : List (Name × Rule)} {name : Name} {body : Rule}
    (justified : compiler.Justified bodies)
    (isValue : compiler.IsValue bodies name body) :
    compiler.Justified (bodies ++ [(name, body)]) := by
  have extended : Extends [] bodies (bodies ++ [(name, body)]) := .append_of_notMem (by simp) body
  intro other kept found
  rcases lookup_append_singleton found with earlier | ⟨rfl, rfl⟩
  · exact (justified other kept earlier).of_extends extended
  · exact isValue.of_extends extended

theorem keeps_resolveWithin (inline : compiler.options.inline = true) (depth : Nat)
    (path : List Name) : compiler.Keeps path (compiler.resolveWithin depth path) := by
  induction depth generalizing path with
  | zero =>
      intro name session body after justified made
      rcases outcome_resolveWithin_eq_ok_iff.mp made with
        ⟨found, rfl⟩ | ⟨_, _, _, _, _, depthEq, _⟩
      · exact ⟨justified, .refl, found⟩
      · cases depthEq
  | succ further ih =>
      intro name session body after justified made
      rcases outcome_resolveWithin_eq_ok_iff.mp made with
        ⟨found, rfl⟩ | ⟨absent, outside, _, definition, between, depthEq, defined, evaluated, rfl⟩
      · exact ⟨justified, .refl, found⟩
      · cases depthEq
        simp only [resolver, inline, ↓reduceIte] at evaluated
        obtain ⟨betweenJustified, extended, accepted, hasValue⟩ :=
          (ih (path ++ [name])).evaluate justified evaluated
        -- Its own lookups cannot have completed it: it is under way for them.
        have stillAbsent : between.bodies.lookup name = none :=
          extended.pending name (by simp) absent
        refine ⟨betweenJustified.append ⟨accepted, definition, defined, hasValue⟩,
          extended.of_append.trans (.append_of_notMem outside body), ?_⟩
        simp [Session.completing, List.lookup_append, stillAbsent]

/-- Resolving rules inline keeps the bodies that come back, which are in the order of the names. -/
theorem keeps_resolveAll (inline : compiler.options.inline = true) {names : List Name}
    {session after : Session} {bodies : List (Name × Rule)}
    (justified : compiler.Justified session.bodies)
    (resolved : outcome (compiler.resolveAll names) session = (.ok bodies, after)) :
    compiler.Justified after.bodies ∧ Extends [] session.bodies after.bodies ∧
      bodies.map Prod.fst = names ∧
      ∀ entry ∈ bodies, after.bodies.lookup entry.1 = some entry.2 := by
  induction names generalizing session bodies with
  | nil =>
      cases resolved
      exact ⟨justified, .refl, rfl, by simp⟩
  | cons name rest ih =>
      rw [resolveAll] at resolved
      simp only [outcome_bind_eq_ok_iff, outcome_pure] at resolved
      obtain ⟨body, between, first, others, last, restResolved, returned⟩ := resolved
      cases returned
      obtain ⟨betweenJustified, firstExtended, found⟩ :=
        keeps_resolveWithin inline _ [] name session body between justified first
      obtain ⟨afterJustified, restExtended, namesEq, allFound⟩ :=
        ih betweenJustified restResolved
      refine ⟨afterJustified, firstExtended.trans restExtended,
        by rw [List.map_cons, namesEq], ?_⟩
      intro entry member
      rcases List.mem_cons.mp member with rfl | member
      · exact restExtended.kept name body found
      · exact allFound entry member

end Compiler

end Tessera.Grammar
