import Mathlib
import Tessera.Proofs.Grammar.History
import Tessera.Proofs.Grammar.LookupGraph
import Tessera.Proofs.Grammar.ReferenceOrder

/-!
# Calls of builders

A compiler enters the rules whose bodies are not complete, each once, in depth-first order of the
lookups that it answers by resolving. Rules that it has entered are complete in the end, but for those
that were still under way when a computation failed.
-/

set_option autoImplicit false

namespace Tessera.Grammar

open Tessera.Computation

def LogEntry.started? : LogEntry → Option Name
  | .started label => some label
  | .probed _ _ => none

namespace Session

/-- The labels of the builders that were called, in order. -/
def calls (session : Session) : List Name := session.log.toList.filterMap LogEntry.started?

/-- The names of the rules whose bodies are complete, in the order of completion. -/
def names (session : Session) : List Name := session.bodies.map Prod.fst

theorem lookup_eq_none_iff {session : Session} {name : Name} :
    session.bodies.lookup name = none ↔ name ∉ session.names := by
  rw [List.lookup_eq_none_iff, names, List.mem_map]
  constructor
  · intro different member
    obtain ⟨entry, listed, same⟩ := member
    have apart := different entry listed
    simp [same] at apart
  · intro absent entry listed
    have apart : name ≠ entry.1 := fun same => absent ⟨entry, listed, same.symm⟩
    simpa using apart

end Session

namespace Compiler

variable {compiler : Compiler}

/-- The label of the builder that defines a rule, if one does. -/
def label? (compiler : Compiler) (name : Name) : Option Name :=
  match compiler.definitions.lookup name with
  | some (.builder label _) => some label
  | _ => none

/-- The rules that are resolved to answer a lookup: none where builders get references. -/
def resolvedBy (compiler : Compiler) (name : Name) : List Name :=
  if compiler.options.inline then [name] else []

def lookupsOf (compiler : Compiler) (name : Name) : List Name :=
  match compiler.definitions.lookup name with
  | some definition => definition.lookups
  | none => []

/-- The rules that are resolved to answer the lookups of a builder, from left to right. -/
def asks (compiler : Compiler) (name : Name) : List Name :=
  (compiler.lookupsOf name).flatMap compiler.resolvedBy

/-- What a computation that was to resolve some rules has done: it has entered rules that were not
complete and not under way, each once. All of them are complete now, but for some unfinished ones, each
of which was asking for the next. -/
structure Advance (compiler : Compiler) (path asked : List Name) (before : Session)
    (entered unfinished : List Name) (after : Session) : Prop where
  calls_eq : after.calls = before.calls ++ entered.filterMap compiler.label?
  nodup : entered.Nodup
  fresh : ∀ name ∈ entered, name ∈ compiler.names ∧ name ∉ path ∧ name ∉ before.names
  kept : before.bodies <+: after.bodies
  settled : (before.names ++ entered).Perm (after.names ++ unfinished)
  chain : unfinished.IsChain compiler.LooksUp
  headAsked : ∀ name ∈ unfinished.head?, name ∈ asked

/-- Whether a computation resolves rules: it advances, and where it succeeds, it has visited the rules
in depth-first order and left none unfinished. -/
def Resolves (compiler : Compiler) (path asked : List Name) {α : Type} (computation : Run α) : Prop :=
  ∀ session, ∃ entered unfinished,
    compiler.Advance path asked session entered unfinished (outcome computation session).2 ∧
      ∀ value, (outcome computation session).1 = .ok value →
        unfinished = [] ∧ Visits compiler.asks {name | name ∈ session.names} asked entered

section

variable {path asked others : List Name} {before between after : Session}
  {entered inner unfinished : List Name} {name : Name}

/-! ## Advances -/

theorem Advance.still (callsEq : after.calls = before.calls)
    (bodiesEq : after.bodies = before.bodies) : compiler.Advance path asked before [] [] after where
  calls_eq := by simpa using callsEq
  nodup := .nil
  fresh := nofun
  kept := bodiesEq ▸ List.prefix_refl _
  settled := by rw [Session.names, Session.names, bodiesEq]
  chain := .nil
  headAsked := nofun

theorem Advance.mem_names_iff (advance : compiler.Advance path asked before entered [] after) :
    name ∈ after.names ↔ name ∈ before.names ∨ name ∈ entered := by
  have settled := advance.settled.mem_iff (a := name)
  rw [List.append_nil, List.mem_append] at settled
  exact settled.symm

theorem Advance.of_subset (advance : compiler.Advance path asked before entered unfinished after)
    (subset : asked ⊆ others) : compiler.Advance path others before entered unfinished after :=
  { advance with headAsked := fun name first => subset (advance.headAsked name first) }

theorem Advance.trans {further : List Name}
    (first : compiler.Advance path asked before entered [] between)
    (second : compiler.Advance path others between further unfinished after) :
    compiler.Advance path (asked ++ others) before (entered ++ further) unfinished after where
  calls_eq := by
    rw [second.calls_eq, first.calls_eq, List.filterMap_append, List.append_assoc]
  nodup := by
    refine List.nodup_append.mpr ⟨first.nodup, second.nodup, ?_⟩
    intro name listed other otherListed same
    subst same
    exact (second.fresh name otherListed).2.2 (first.mem_names_iff.mpr (.inr listed))
  fresh := by
    intro name listed
    rcases List.mem_append.mp listed with early | late
    · exact first.fresh name early
    · obtain ⟨defined, outside, absent⟩ := second.fresh name late
      exact ⟨defined, outside, fun known => absent (first.mem_names_iff.mpr (.inl known))⟩
  kept := first.kept.trans second.kept
  settled := by
    have soFar := first.settled
    rw [List.append_nil] at soFar
    rw [← List.append_assoc]
    exact (soFar.append_right further).trans second.settled
  chain := second.chain
  headAsked := fun name first => List.mem_append_right _ (second.headAsked name first)

/-! ## Entering a rule -/

/-- The session in which the definition of a rule is evaluated: a builder is noted when it is called. -/
def entering (compiler : Compiler) (name : Name) (session : Session) : Session :=
  match compiler.label? name with
  | some label => session.noting (.started label)
  | none => session

theorem bodies_entering (name : Name) (session : Session) :
    (compiler.entering name session).bodies = session.bodies := by
  unfold entering
  split <;> rfl

theorem names_entering (name : Name) (session : Session) :
    (compiler.entering name session).names = session.names := by
  rw [Session.names, Session.names, bodies_entering]

theorem calls_entering (name : Name) (session : Session) :
    (compiler.entering name session).calls =
      session.calls ++ [name].filterMap compiler.label? := by
  unfold entering
  cases labelled : compiler.label? name with
  | none => simp [labelled]
  | some label => simp [labelled, Session.calls, Session.noting, LogEntry.started?]

theorem looksUp_of_mem_asks {other : Name} (askedFor : other ∈ compiler.asks name) :
    compiler.LooksUp name other := by
  obtain ⟨lookedUp, listed, resolved⟩ := List.mem_flatMap.mp askedFor
  unfold resolvedBy at resolved
  split at resolved
  · cases List.mem_singleton.mp resolved
    unfold lookupsOf at listed
    split at listed
    · next definition defined => exact ⟨definition, defined, listed⟩
    · cases listed
  · cases resolved

/-- A rule is entered before what its evaluation enters, and is unfinished where that fails. -/
theorem Advance.enter (defined : name ∈ compiler.names) (outside : name ∉ path)
    (absent : name ∉ before.names)
    (advance : compiler.Advance (path ++ [name]) (compiler.asks name)
      (compiler.entering name before) inner unfinished after) :
    compiler.Advance path [name] before (name :: inner) (name :: unfinished) after where
  calls_eq := by
    rw [advance.calls_eq, calls_entering, List.append_assoc, ← List.filterMap_append]
    rfl
  nodup := by
    refine List.nodup_cons.mpr ⟨fun listed => ?_, advance.nodup⟩
    exact (advance.fresh name listed).2.1 (by simp)
  fresh := by
    refine List.forall_mem_cons.mpr ⟨⟨defined, outside, absent⟩, ?_⟩
    intro other listed
    obtain ⟨otherDefined, apart, otherAbsent⟩ := advance.fresh other listed
    rw [names_entering] at otherAbsent
    exact ⟨otherDefined, fun underWay => apart (List.mem_append_left _ underWay), otherAbsent⟩
  kept := by
    have kept := advance.kept
    rwa [bodies_entering] at kept
  settled := by
    have settled := advance.settled
    rw [names_entering] at settled
    exact (List.perm_middle.trans (settled.cons name)).trans List.perm_middle.symm
  chain := by
    cases unfinished with
    | nil => exact .singleton name
    | cons next rest =>
        exact .cons_cons (looksUp_of_mem_asks (advance.headAsked next rfl)) advance.chain
  headAsked := by
    intro first same
    cases same
    exact List.mem_singleton_self name

/-- A rule whose evaluation succeeds is complete with it. -/
theorem Advance.complete (advance : compiler.Advance path asked before entered [name] between)
    (body : Rule) :
    compiler.Advance path asked before entered [] (between.completing name body) where
  calls_eq := advance.calls_eq
  nodup := advance.nodup
  fresh := advance.fresh
  kept := advance.kept.trans (List.prefix_append _ _)
  settled := by
    have settled := advance.settled
    simpa [Session.names, Session.completing] using settled
  chain := .nil
  headAsked := nofun

end

/-! ## Computations that resolve rules -/

namespace Resolves

variable {path asked others : List Name} {α β : Type}

theorem of_still {computation : Run α} (still : ∀ session,
      (outcome computation session).2.calls = session.calls ∧
        (outcome computation session).2.bodies = session.bodies) :
    compiler.Resolves path [] computation := by
  intro session
  obtain ⟨callsEq, bodiesEq⟩ := still session
  exact ⟨[], [], .still callsEq bodiesEq, fun _ _ => ⟨rfl, .done⟩⟩

theorem pure (value : α) : compiler.Resolves path [] (pure value : Run α) :=
  of_still fun _ => ⟨rfl, rfl⟩

theorem throw (cause : Error) : compiler.Resolves path asked (throw cause : Run α) := by
  intro session
  refine ⟨[], [], .still rfl rfl, ?_⟩
  intro value returned
  cases returned

theorem ofExcept (result : Except Error α) : compiler.Resolves path [] (Run.ofExcept result) := by
  refine of_still fun session => ?_
  rw [outcome_ofExcept]
  exact ⟨rfl, rfl⟩

theorem probed (listed : List Name) (contained : List Bool) :
    compiler.Resolves path [] (Run.record (.probed listed contained)) := by
  refine of_still fun session => ⟨?_, rfl⟩
  simp [Run.record, Session.calls, LogEntry.started?]

theorem bind {computation : Run α} {next : α → Run β}
    (first : compiler.Resolves path asked computation)
    (second : ∀ value, compiler.Resolves path others (next value)) :
    compiler.Resolves path (asked ++ others) (computation >>= next) := by
  intro session
  obtain ⟨entered, unfinished, advance, visits⟩ := first session
  rw [outcome_bind]
  cases ending : outcome computation session with
  | mk result between =>
      rw [ending] at advance visits
      cases result with
      | error cause =>
          refine ⟨entered, unfinished, advance.of_subset (List.subset_append_left _ _), ?_⟩
          intro value returned
          cases returned
      | ok value =>
          obtain ⟨rfl, firstVisits⟩ := visits value rfl
          obtain ⟨further, unfinished, secondAdvance, secondVisits⟩ := second value between
          refine ⟨entered ++ further, unfinished, advance.trans secondAdvance, ?_⟩
          intro last returned
          obtain ⟨finished, lastVisits⟩ := secondVisits last returned
          have same : {name | name ∈ between.names} =
              {name | name ∈ session.names} ∪ {name | name ∈ entered} := by
            ext name
            exact advance.mem_names_iff
          rw [same] at lastVisits
          exact ⟨finished, firstVisits.append lastVisits⟩

theorem followed {computation : Run α} {next : α → Run β}
    (first : compiler.Resolves path asked computation)
    (second : ∀ value, compiler.Resolves path [] (next value)) :
    compiler.Resolves path asked (computation >>= next) := by
  have both := first.bind second
  rwa [List.append_nil] at both

/-- Reporting an error in another way makes no difference. -/
theorem rethrowing {computation : Run α} (resolves : compiler.Resolves path asked computation)
    (report : Error → Error) : compiler.Resolves path asked
      (tryCatch computation fun cause => MonadExcept.throw (report cause)) := by
  intro session
  obtain ⟨entered, unfinished, advance, visits⟩ := resolves session
  refine ⟨entered, unfinished, ?_⟩
  rw [outcome_tryCatch]
  cases ending : outcome computation session with
  | mk result between =>
      rw [ending] at advance visits
      cases result with
      | ok value => exact ⟨advance, visits⟩
      | error cause => exact ⟨advance, nofun⟩

section

variable {names : List Name} {find : Access → Name → Run Rule} {asked : Name → List Name}

mutual

/-- An expression makes its lookups from left to right. -/
theorem eval (found : ∀ access name, compiler.Resolves path (asked name) (find access name)) :
    (expr : Expr) → compiler.Resolves path (expr.lookups.flatMap asked) (expr.eval names find)
  | .literal _ => pure _
  | .foreign _ => pure _
  | .reference _ => pure _
  | .characterClass _ _ _ => ofExcept _
  | .sequence _ items =>
    (evalAll found items).followed fun _ => (ofExcept _).followed fun _ => pure _
  | .choice _ items =>
    (evalAll found items).followed fun _ => (ofExcept _).followed fun _ => pure _
  | .between _ body _ _ =>
    (eval found body).followed fun _ =>
      (ofExcept _).followed fun _ => (ofExcept _).followed fun _ => pure _
  | .zeroOrMore _ body =>
    (eval found body).followed fun _ => (ofExcept _).followed fun _ => pure _
  | .oneOrMore _ body =>
    (eval found body).followed fun _ => (ofExcept _).followed fun _ => pure _
  | .optional _ body =>
    (eval found body).followed fun _ => (ofExcept _).followed fun _ => pure _
  | .lookup access name => by
    have here := found access name
    rwa [Expr.lookups, List.flatMap_singleton]
  | .probe _ body => (probed _ _).bind fun _ => eval found body

theorem evalAll (found : ∀ access name, compiler.Resolves path (asked name) (find access name)) :
    (exprs : List Expr) →
      compiler.Resolves path ((Expr.lookupsAll exprs).flatMap asked) (Expr.evalAll names find exprs)
  | [] => pure _
  | expr :: rest => by
    rw [Expr.lookupsAll, List.flatMap_append]
    exact (eval found expr).bind fun _ => (evalAll found rest).followed fun _ => pure _

end

end

end Resolves

/-! ## Resolving rules -/

section

variable {path : List Name} {depth : Nat} {name : Name}

theorem resolves_find {resolve : Name → Run Rule} {asked : Name → List Name}
    (each : ∀ other ∈ compiler.names, compiler.Resolves path (asked other) (resolve other))
    (access : Access) (name : Name) :
    compiler.Resolves path (asked name) (compiler.find resolve access name) := by
  rw [find_eq]
  split
  · apply Resolves.rethrowing
    split
    · next defined => exact each name (List.contains_iff_mem.mp defined)
    · exact .throw _
  · exact .throw _

/-- Rules that are given as references are not resolved. -/
theorem resolves_resolver
    (each : ∀ other ∈ compiler.names,
      compiler.Resolves path [other] (compiler.resolveWithin depth path other)) :
    ∀ other ∈ compiler.names,
      compiler.Resolves path (compiler.resolvedBy other) (compiler.resolver depth path other) := by
  intro other listed
  unfold resolver resolvedBy
  split
  · exact each other listed
  · exact .pure _

/-- What a builder has made is the body of its rule if it is a rule. -/
def built (name : Name) : Rule → Run Rule
  | .foreign value => throw (.builtNoRule name value.kind)
  | rule => pure rule

theorem resolves_built (name : Name) (rule : Rule) : compiler.Resolves path [] (built name rule) := by
  cases rule with
  | foreign value => exact .throw _
  | _ => exact .pure _

/-- What is left of an evaluation once the call of a builder has been noted. -/
theorem exists_evaluation {resolve : Name → Run Rule} {definition : Definition}
    (defined : compiler.definitions.lookup name = some definition)
    (each : ∀ other ∈ compiler.names,
      compiler.Resolves path (compiler.resolvedBy other) (resolve other)) :
    ∃ evaluation : Run Rule, compiler.Resolves path (compiler.asks name) evaluation ∧
      ∀ session, outcome (compiler.evaluate resolve name definition) session =
        outcome evaluation (compiler.entering name session) := by
  have asksEq : compiler.asks name = definition.lookups.flatMap compiler.resolvedBy := by
    rw [asks, lookupsOf, defined]
  rw [asksEq]
  cases definition with
  | term rule =>
      refine ⟨compiler.evaluate resolve name (.term rule), ?_, ?_⟩
      · cases rule with
        | foreign value => exact .throw _
        | _ => exact .pure _
      · intro session
        rw [entering, label?, defined]
  | builder label body =>
      refine ⟨body.eval compiler.names (compiler.find resolve) >>= built name, ?_, ?_⟩
      · exact (Resolves.eval (resolves_find each) body).followed (resolves_built name)
      · intro session
        rw [entering, label?, defined]
        rfl

/-- Resolving a rule enters it and what it asks for, unless its body is complete. -/
theorem resolves_resolveWithin (room : compiler.HasRoom depth path)
    (listed : name ∈ compiler.names) :
    compiler.Resolves path [name] (compiler.resolveWithin depth path name) := by
  induction depth using Nat.strongRecOn generalizing path name with
  | ind depth ih =>
      intro session
      cases recalled : session.bodies.lookup name with
      | some body =>
          rw [outcome_resolveWithin_of_kept recalled]
          have known : name ∈ session.names := by
            by_contra absent
            rw [Session.lookup_eq_none_iff.mpr absent] at recalled
            cases recalled
          exact ⟨[], [], .still rfl rfl, fun _ _ => ⟨rfl, .skip known .done⟩⟩
      | none =>
          have absent := Session.lookup_eq_none_iff.mp recalled
          by_cases underWay : name ∈ path
          · rw [outcome_resolveWithin_of_mem recalled underWay]
            exact ⟨[], [], .still rfl rfl, nofun⟩
          · obtain ⟨further, rfl, deeper⟩ := room.exists_deeper listed underWay
            obtain ⟨definition, defined, -⟩ := lookup_of_mem_names listed
            obtain ⟨evaluation, resolves, evaluateEq⟩ := exists_evaluation defined
              (resolves_resolver fun other otherListed =>
                ih further (Nat.lt_succ_self _) deeper otherListed)
            obtain ⟨inner, unfinished, advance, visits⟩ :=
              resolves (compiler.entering name session)
            have entered := advance.enter listed underWay absent
            rw [outcome_resolveWithin_of_notMem recalled underWay defined, evaluateEq]
            cases ending : outcome evaluation (compiler.entering name session) with
            | mk result between =>
                rw [ending] at entered visits
                cases result with
                | error cause => exact ⟨_, _, entered, nofun⟩
                | ok body =>
                    obtain ⟨rfl, innerVisits⟩ := visits body rfl
                    rw [names_entering] at innerVisits
                    have visitsName := Visits.enter absent innerVisits .done
                    rw [List.append_nil] at visitsName
                    exact ⟨_, [], entered.complete body, fun _ _ => ⟨rfl, visitsName⟩⟩

theorem resolves_resolveAll {names : List Name} (inside : names ⊆ compiler.names) :
    compiler.Resolves [] names (compiler.resolveAll names) := by
  induction names with
  | nil => exact .pure _
  | cons name rest ih =>
      obtain ⟨listed, others⟩ := List.cons_subset.mp inside
      exact (resolves_resolveWithin compiler.hasRoom_length listed).bind fun body =>
        (ih others).followed fun _ => .pure _

end

/-! ## Steps -/

/-- The rules that a step resolves, in this order. -/
def Step.asked (compiler : Compiler) : Step → List Name
  | .compile => compiler.names
  | .bodies => compiler.names
  | .lookup _ name => compiler.resolvedBy name

theorem resolves_perform (compiler : Compiler) (step : Step) :
    compiler.Resolves [] (step.asked compiler) (compiler.perform step) := by
  have all : compiler.Resolves [] compiler.names compiler.bodies :=
    resolves_resolveAll (List.Subset.refl _)
  cases step with
  | compile =>
      rw [perform, compile_eq]
      exact all.followed fun bodies => .ofExcept _
  | bodies => exact all
  | lookup access name =>
      have lookups := resolves_resolver fun other listed =>
        resolves_resolveWithin compiler.hasRoom_length listed
      exact resolves_find lookups access name

theorem sessionAfter_append (compiler : Compiler) (steps : List Step) (step : Step) :
    compiler.sessionAfter (steps ++ [step]) =
      (outcome (compiler.perform step) (compiler.sessionAfter steps)).2 :=
  List.foldl_append

theorem Advance.nodup_names {path asked entered unfinished : List Name} {before after : Session}
    (advance : compiler.Advance path asked before entered unfinished after)
    (distinct : before.names.Nodup) : after.names.Nodup := by
  have together : (before.names ++ entered).Nodup := by
    refine List.nodup_append.mpr ⟨distinct, advance.nodup, ?_⟩
    intro name known other listed same
    subst same
    exact (advance.fresh name listed).2.2 known
  exact (List.nodup_append.mp (advance.settled.nodup together)).1

theorem nodup_sessionAfter (compiler : Compiler) (steps : List Step) :
    (compiler.sessionAfter steps).names.Nodup := by
  induction steps using List.reverseRecOn with
  | nil => exact .nil
  | append_singleton steps step ih =>
      rw [sessionAfter_append]
      obtain ⟨entered, unfinished, advance, -⟩ :=
        compiler.resolves_perform step (compiler.sessionAfter steps)
      exact advance.nodup_names ih

/-- Bodies that are complete stay so. -/
theorem prefix_sessionAfter (compiler : Compiler) (steps more : List Step) :
    (compiler.sessionAfter steps).bodies <+: (compiler.sessionAfter (steps ++ more)).bodies := by
  induction more using List.reverseRecOn with
  | nil => simp
  | append_singleton more step ih =>
      rw [← List.append_assoc, sessionAfter_append]
      obtain ⟨entered, unfinished, advance, -⟩ :=
        compiler.resolves_perform step (compiler.sessionAfter (steps ++ more))
      exact ih.trans advance.kept

theorem asks_of_inline (inline : compiler.options.inline = true) :
    compiler.asks = compiler.lookupsOf := by
  funext name
  have oneByOne : compiler.resolvedBy = fun name => [name] := by
    funext name
    rw [resolvedBy, if_pos inline]
  rw [asks, oneByOne, List.flatMap_singleton']

theorem asks_of_referring (referring : compiler.options.inline = false) (name : Name) :
    compiler.asks name = [] := by
  have noneResolved : compiler.resolvedBy = fun _ => [] := by
    funext name
    rw [resolvedBy, referring]
    rfl
  rw [asks, noneResolved]
  exact List.flatMap_eq_nil_iff.mpr fun _ _ => rfl

/-- Whatever steps are taken, the builder of a rule succeeds at most once: the rules that a step enters
are not complete before it, each is entered once, and all of them are complete afterwards and stay so,
but for those that were still under way when the step failed. A successful compilation enters exactly
the rules that are not complete. A first one calls the builders in the order of the definitions, or
inline in depth-first preorder of what looks up what. -/
theorem builders_run_once (compiler : Compiler) (distinct : compiler.names.Nodup)
    (steps : List Step) :
    (compiler.sessionAfter steps).names.Nodup ∧
    (∀ more,
      (compiler.sessionAfter steps).bodies <+: (compiler.sessionAfter (steps ++ more)).bodies) ∧
    (∀ step, ∃ entered unfinished,
      compiler.Advance [] (step.asked compiler) (compiler.sessionAfter steps) entered unfinished
        (compiler.sessionAfter (steps ++ [step])) ∧
      ∀ value, (outcome (compiler.perform step) (compiler.sessionAfter steps)).1 = .ok value →
        unfinished = [] ∧
        (step = .compile ∨ step = .bodies → ∀ name, name ∈ entered ↔
          name ∈ compiler.names ∧ name ∉ (compiler.sessionAfter steps).names)) ∧
    ∀ text after, outcome compiler.compile .start = (.ok text, after) →
      (compiler.options.inline = false →
        after.calls = compiler.names.filterMap compiler.label?) ∧
      (compiler.options.inline = true →
        ∃ order, after.calls = order.filterMap compiler.label? ∧
          ∀ other, Visits compiler.lookupsOf ∅ compiler.names other ↔ other = order) := by
  refine ⟨compiler.nodup_sessionAfter steps, compiler.prefix_sessionAfter steps, ?_, ?_⟩
  · intro step
    obtain ⟨entered, unfinished, advance, visits⟩ :=
      compiler.resolves_perform step (compiler.sessionAfter steps)
    rw [sessionAfter_append]
    refine ⟨entered, unfinished, advance, ?_⟩
    intro value returned
    obtain ⟨finished, visited⟩ := visits value returned
    refine ⟨finished, ?_⟩
    intro whole name
    have allAsked : step.asked compiler = compiler.names := by
      rcases whole with rfl | rfl <;> rfl
    constructor
    · intro listed
      obtain ⟨defined, -, absent⟩ := advance.fresh name listed
      exact ⟨defined, absent⟩
    · intro ⟨defined, absent⟩
      rw [← allAsked] at defined
      exact (visited.finished_or_mem defined).resolve_left absent
  · intro text after compiled
    obtain ⟨entered, unfinished, advance, visits⟩ := compiler.resolves_perform .compile .start
    have performed : outcome (compiler.perform .compile) .start = (.ok text, after) := compiled
    rw [performed] at advance visits
    obtain ⟨-, visited⟩ := visits text rfl
    have callsEq : after.calls = entered.filterMap compiler.label? := advance.calls_eq
    have nothingKnown : {name | name ∈ Session.start.names} = ∅ := by
      ext
      simp [Session.names, Session.start]
    rw [nothingKnown] at visited
    constructor
    · intro referring
      rw [callsEq, visited.eq_of_none_asked (asks_of_referring referring) distinct (by simp)]
      rfl
    · intro inline
      rw [asks_of_inline inline] at visited
      refine ⟨entered, callsEq, ?_⟩
      intro other
      constructor
      · intro otherVisited
        exact otherVisited.unique visited
      · intro same
        rw [same]
        exact visited

/-- Two rules that lead to the same third one, and a rule that fails after it has asked for one of them:
when it is tried again, only that rule is entered. -/
theorem builders_run_once_diamond :
    let diamond : Definitions := [
      ("root", .builder "root" (.sequence true [.lookup .subscript "left",
        .lookup .attribute "right", .lookup .subscript "left"])),
      ("right", .builder "right" (.optional true (.lookup .subscript "leaf"))),
      ("left", .builder "left" (.zeroOrMore true (.lookup .subscript "leaf"))),
      ("leaf", .builder "leaf" (.literal ['a']))]
    let lost : Definition := .builder "lost" (.sequence true [.lookup .subscript "right",
      .lookup .subscript "missing"])
    let sound : Compiler := ⟨diamond, { Options.default with inline := true }⟩
    let failing : Compiler := ⟨("lost", lost) :: diamond, { Options.default with inline := true }⟩
    let attempt : Step := .lookup .subscript "lost"
    (∃ text after order, outcome sound.compile .start = (.ok text, after) ∧
      after.calls = ["root", "left", "leaf", "right"] ∧
      after.calls = order.filterMap sound.label? ∧
      Visits sound.lookupsOf ∅ ["root", "right", "left", "leaf"] order) ∧
    (failing.sessionAfter [attempt]).names = ["leaf", "right"] ∧
    ∃ entered unfinished,
      failing.Advance [] ["lost"] (failing.sessionAfter [attempt]) entered unfinished
        (failing.sessionAfter [attempt, attempt]) ∧ "leaf" ∉ entered ∧ "right" ∉ entered := by
  intro diamond lost sound failing attempt
  let leaf : Rule := .literal ['a']
  let whole : Rule := .sequence [.zeroOrMore leaf, .optional leaf, .zeroOrMore leaf]
  let after : Session := ⟨[("leaf", leaf), ("left", .zeroOrMore leaf), ("right", .optional leaf),
    ("root", whole)], #[.started "root", .started "left", .started "leaf", .started "right"]⟩
  let text : Text :=
    "root ::= \"a\"* \"a\"? \"a\"*\nright ::= \"a\"?\nleft ::= \"a\"*\nleaf ::= \"a\"".toList
  have compiled : outcome sound.compile .start = (.ok text, after) := by cbv
  have kept : (failing.sessionAfter [attempt]).names = ["leaf", "right"] := by cbv
  constructor
  · obtain ⟨-, -, -, first⟩ := builders_run_once sound (by decide) []
    obtain ⟨order, orderCalls, preorder⟩ := (first _ after compiled).2 rfl
    exact ⟨_, after, order, compiled, rfl, orderCalls, (preorder order).mpr rfl⟩
  · obtain ⟨-, -, next, -⟩ := builders_run_once failing (by decide) [attempt]
    obtain ⟨entered, unfinished, advance, -⟩ := next attempt
    have spared : ∀ name ∈ ["leaf", "right"], name ∉ entered := by
      intro name known listed
      have absent := (advance.fresh name listed).2.2
      rw [kept] at absent
      exact absent known
    exact ⟨kept, entered, unfinished, advance, spared _ (by decide), spared _ (by decide)⟩

end Compiler

end Tessera.Grammar
