import Tessera.Proofs.Grammar.Compilation

/-!
# The history of a compiler

A compiler keeps bodies from one step to the next, also from steps that fail half-way. Each body that
is kept is what its rule expands to, so that no step comes out differently for what went before.
-/

set_option autoImplicit false

namespace Tessera.Grammar

open Tessera.Computation

namespace Compiler

variable {compiler : Compiler} {depth : Nat} {path : List Name} {name : Name} {body : Rule}
  {bodies : List (Name × Rule)}

/-! ## Bodies that are kept -/

/-- Whether a rule expands to a body, whatever is under way besides rules that are kept. -/
def ExpandsTo (compiler : Compiler) (bodies : List (Name × Rule)) (name : Name) (body : Rule) :
    Prop :=
  ∀ depth path, compiler.HasRoom depth path → (∀ other ∈ path, bodies.lookup other = none) →
    name ∉ path → compiler.expand depth path name = .ok body

/-- What holds of the bodies that are kept, at any time and with certain rules under way. -/
structure Faithful (compiler : Compiler) (path : List Name) (bodies : List (Name × Rule)) :
    Prop where
  expands : ∀ entry ∈ bodies, compiler.ExpandsTo bodies entry.1 entry.2
  pending : ∀ name ∈ path, bodies.lookup name = none
  justified : compiler.options.inline = true → compiler.Justified bodies

theorem faithful_nil (compiler : Compiler) : compiler.Faithful [] [] where
  expands _ listed := absurd listed List.not_mem_nil
  pending _ listed := absurd listed List.not_mem_nil
  justified _ _ _ found := by cases found

theorem Faithful.under_way (faithful : compiler.Faithful path bodies)
    (absent : bodies.lookup name = none) : compiler.Faithful (path ++ [name]) bodies := by
  refine ⟨faithful.expands, ?_, faithful.justified⟩
  exact List.forall_mem_append.mpr ⟨faithful.pending, List.forall_mem_singleton.mpr absent⟩

theorem Faithful.of_append {further : List Name}
    (faithful : compiler.Faithful (path ++ further) bodies) : compiler.Faithful path bodies :=
  ⟨faithful.expands, fun other listed => faithful.pending other (List.mem_append_left _ listed),
    faithful.justified⟩

theorem ExpandsTo.append (expands : compiler.ExpandsTo bodies name body) (other : Name)
    (kept : Rule) : compiler.ExpandsTo (bodies ++ [(other, kept)]) name body := by
  intro depth path room apart outside
  refine expands depth path room (fun pending listed => ?_) outside
  have absent := apart pending listed
  rw [List.lookup_append] at absent
  exact (Option.or_eq_none_iff.mp absent).1

theorem Faithful.append (faithful : compiler.Faithful path bodies) (outside : name ∉ path)
    (expands : compiler.ExpandsTo bodies name body)
    (isValue : compiler.options.inline = true → compiler.IsValue bodies name body) :
    compiler.Faithful path (bodies ++ [(name, body)]) where
  expands entry listed := by
    rcases List.mem_append.mp listed with earlier | last
    · exact (faithful.expands entry earlier).append name body
    · cases List.mem_singleton.mp last
      exact expands.append name body
  pending other listed :=
    (Extends.append_of_notMem outside body).pending other listed (faithful.pending other listed)
  justified inline := (faithful.justified inline).append (isValue inline)

theorem expand_of_kept (expands : ∀ entry ∈ bodies, compiler.ExpandsTo bodies entry.1 entry.2)
    (apart : ∀ other ∈ path, bodies.lookup other = none) (room : compiler.HasRoom depth path)
    (found : bodies.lookup name = some body) : compiler.expand depth path name = .ok body := by
  have outside : name ∉ path := by
    intro underWay
    rw [apart name underWay] at found
    cases found
  exact expands (name, body) (mem_of_lookup_eq_some found) depth path room apart outside

theorem expandsTo_of_isValue (inline : compiler.options.inline = true)
    (expands : ∀ entry ∈ bodies, compiler.ExpandsTo bodies entry.1 entry.2)
    (absent : bodies.lookup name = none) (isValue : compiler.IsValue bodies name body) :
    compiler.ExpandsTo bodies name body := by
  intro depth path room apart outside
  obtain ⟨accepted, definition, defined, made⟩ := isValue
  have member : name ∈ compiler.names := List.mem_map_of_mem (mem_of_lookup_eq_some defined)
  obtain ⟨further, rfl, deeper⟩ := room.exists_deeper member outside
  -- What the rule looks up is kept, so it is not under way on any way that leads here.
  have stillApart : ∀ other ∈ path ++ [name], bodies.lookup other = none :=
    List.forall_mem_append.mpr ⟨apart, List.forall_mem_singleton.mpr absent⟩
  have agrees : compiler.Agrees (compiler.answer (compiler.expand further (path ++ [name])))
      bodies := by
    intro access other old permitted listed found
    have expanded := expand_of_kept expands stillApart deeper found
    rw [answer, if_pos permitted, if_pos listed, expanded]
    rfl
  rw [expand_of_notMem outside defined, expansions, if_pos inline]
  exact make_eq_ok_iff.mpr ⟨accepted, made _ agrees⟩

theorem expandsTo_of_referring (referring : compiler.options.inline = false)
    {definition : Definition} (defined : compiler.definitions.lookup name = some definition)
    (made : compiler.make
      (fun other => .ok (.reference (compiler.options.productionName other))) name definition =
        .ok body) : compiler.ExpandsTo bodies name body := by
  intro depth path room _ outside
  have member : name ∈ compiler.names := List.mem_map_of_mem (mem_of_lookup_eq_some defined)
  obtain ⟨further, rfl, -⟩ := room.exists_deeper member outside
  rw [expand_of_notMem outside defined, ← made]
  simp only [expansions, referring, Bool.false_eq_true, ↓reduceIte]

/-- A rule that is made now can be made anywhere: with references what is under way makes no
difference, and inline its lookups are answered by bodies that are kept by then. -/
theorem Faithful.completing {definition : Definition} {session between : Session}
    (faithful : compiler.Faithful (path ++ [name]) session.bodies)
    (betweenFaithful : compiler.Faithful (path ++ [name]) between.bodies) (outside : name ∉ path)
    (defined : compiler.definitions.lookup name = some definition)
    (made : compiler.make (compiler.expansions depth (path ++ [name])) name definition = .ok body)
    (evaluated : outcome (compiler.evaluate (compiler.resolver depth (path ++ [name])) name
      definition) session = (.ok body, between)) :
    compiler.Faithful path (between.completing name body).bodies := by
  have absent : between.bodies.lookup name = none := betweenFaithful.pending name (by simp)
  cases inline : compiler.options.inline with
  | false =>
      simp only [expansions, inline, Bool.false_eq_true, ↓reduceIte] at made
      exact betweenFaithful.of_append.append outside (expandsTo_of_referring inline defined made)
        (by simp [inline])
  | true =>
      simp only [resolver, inline, ↓reduceIte] at evaluated
      obtain ⟨-, -, accepted, hasValue⟩ :=
        (keeps_resolveWithin inline depth (path ++ [name])).evaluate (faithful.justified inline)
          evaluated
      have isValue : compiler.IsValue between.bodies name body :=
        ⟨accepted, definition, defined, hasValue⟩
      exact betweenFaithful.of_append.append outside
        (expandsTo_of_isValue inline betweenFaithful.expands absent isValue) fun _ => isValue

theorem preserving_resolver {holds : List (Name × Rule) → Prop}
    (each : ∀ other ∈ compiler.names,
      (preserving holds).relates (compiler.resolveWithin depth path other)
        (compiler.expand depth path other)) :
    ∀ other ∈ compiler.names,
      (preserving holds).relates (compiler.resolver depth path other)
        (compiler.expansions depth path other) := by
  intro other listed
  unfold resolver expansions
  split
  · exact each other listed
  · exact (preserving holds).pure _

/-- Resolving a rule comes to what the rule expands to, and what is kept then is right again, also if
it fails. -/
theorem preserving_resolveWithin (room : compiler.HasRoom depth path)
    (listed : name ∈ compiler.names) :
    (preserving (compiler.Faithful path)).relates (compiler.resolveWithin depth path name)
      (compiler.expand depth path name) := by
  induction depth using Nat.strongRecOn generalizing path name with
  | ind depth ih =>
      intro session faithful
      -- Lookups run with this rule under way as well, which holds of the session as it is not kept.
      cases recalled : session.bodies.lookup name with
      | some body =>
          have expanded := expand_of_kept faithful.expands faithful.pending room recalled
          rw [outcome_resolveWithin_of_kept recalled, expanded]
          exact ⟨rfl, faithful⟩
      | none =>
          by_cases underWay : name ∈ path
          · rw [outcome_resolveWithin_of_mem recalled underWay, expand_of_mem underWay]
            exact ⟨rfl, faithful⟩
          · obtain ⟨further, rfl, deeper⟩ := room.exists_deeper listed underWay
            obtain ⟨definition, defined, -⟩ := lookup_of_mem_names listed
            have nowFaithful := faithful.under_way recalled
            have lookups := preserving_resolver fun other otherListed =>
              ih further (Nat.lt_succ_self _) deeper otherListed
            obtain ⟨resultEq, betweenFaithful⟩ :=
              preserving_evaluate lookups name definition session nowFaithful
            rw [outcome_resolveWithin_of_notMem recalled underWay defined,
              expand_of_notMem underWay defined]
            cases evaluated : outcome (compiler.evaluate
                (compiler.resolver further (path ++ [name])) name definition) session with
            | mk result between =>
                rw [evaluated] at resultEq betweenFaithful
                cases result with
                | error cause => exact ⟨resultEq, betweenFaithful.of_append⟩
                | ok body =>
                    exact ⟨resultEq, nowFaithful.completing betweenFaithful underWay defined
                      resultEq.symm evaluated⟩

/-! ## Steps -/

inductive Step where
  | compile
  | bodies
  | lookup (access : Access) (name : Name)

def Step.Value : Step → Type
  | .compile => Text
  | .bodies => List (Name × Rule)
  | .lookup _ _ => Rule

def perform (compiler : Compiler) : (step : Step) → Run step.Value
  | .compile => compiler.compile
  | .bodies => compiler.bodies
  | .lookup access name => compiler.lookup access name

/-- What a compiler keeps after some steps, whether they have succeeded or failed. -/
def sessionAfter (compiler : Compiler) (steps : List Step) : Session :=
  steps.foldl (fun session step => (outcome (compiler.perform step) session).2) .start

def expandAll (compiler : Compiler) : List Name → Except Error (List (Name × Rule))
  | [] => pure []
  | name :: rest => do
    let body ← compiler.expand compiler.definitions.length [] name
    return (name, body) :: (← compiler.expandAll rest)

/-- What a step comes to, with nothing kept. -/
def stepResult (compiler : Compiler) : (step : Step) → Except Error step.Value
  | .compile => compiler.expandAll compiler.names >>= compiler.written
  | .bodies => compiler.expandAll compiler.names
  | .lookup access name =>
    compiler.answer (compiler.expansions compiler.definitions.length []) access name

theorem preserving_resolveAll {names : List Name} (inside : names ⊆ compiler.names) :
    (preserving (compiler.Faithful [])).relates (compiler.resolveAll names)
      (compiler.expandAll names) := by
  induction names with
  | nil => exact (preserving _).pure _
  | cons name rest ih =>
      obtain ⟨listed, others⟩ := List.cons_subset.mp inside
      refine (preserving _).bind (preserving_resolveWithin compiler.hasRoom_length listed)
        fun body => ?_
      exact (preserving _).bind (ih others) fun _ => (preserving _).pure _

theorem preserving_perform (compiler : Compiler) (step : Step) :
    (preserving (compiler.Faithful [])).relates (compiler.perform step)
      (compiler.stepResult step) := by
  have all : (preserving (compiler.Faithful [])).relates compiler.bodies
      (compiler.expandAll compiler.names) := preserving_resolveAll (List.Subset.refl _)
  cases step with
  | compile =>
      rw [perform, compile_eq]
      exact (preserving _).bind all fun bodies => (preserving _).ofExcept _
  | bodies => exact all
  | lookup access name =>
      have lookups := preserving_resolver fun other listed =>
        preserving_resolveWithin compiler.hasRoom_length listed
      exact preserving_find lookups access name

theorem faithful_sessionAfter (compiler : Compiler) (steps : List Step) :
    compiler.Faithful [] (compiler.sessionAfter steps).bodies := by
  have fromSession (session : Session) (faithful : compiler.Faithful [] session.bodies) :
      compiler.Faithful [] (steps.foldl
        (fun session step => (outcome (compiler.perform step) session).2) session).bodies := by
    induction steps generalizing session with
    | nil => exact faithful
    | cons step rest ih => exact ih _ (compiler.preserving_perform step session faithful).2
  exact fromSession .start compiler.faithful_nil

theorem perform_sessionAfter (compiler : Compiler) (steps : List Step) (step : Step) :
    (outcome (compiler.perform step) (compiler.sessionAfter steps)).1 =
      (outcome (compiler.perform step) .start).1 := by
  have now := compiler.preserving_perform step _ (compiler.faithful_sessionAfter steps)
  have fresh := compiler.preserving_perform step .start compiler.faithful_nil
  rw [now.1, fresh.1]

theorem mem_names_of_expand (expanded : compiler.expand depth path name = .ok body) :
    name ∈ compiler.names := by
  unfold expand at expanded
  split at expanded
  · cases expanded
  · split at expanded
    · next defined => exact List.mem_map_of_mem (mem_of_lookup_eq_some defined)
    · cases expanded
    · cases expanded

/-- A body that is kept is the one with which its rule is resolved when nothing is kept. -/
theorem resolve_of_mem_sessionAfter {steps : List Step} {entry : Name × Rule}
    (kept : entry ∈ (compiler.sessionAfter steps).bodies) :
    (outcome (compiler.resolve entry.1) .start).1 = .ok entry.2 := by
  have expanded := (compiler.faithful_sessionAfter steps).expands entry kept
    compiler.definitions.length [] compiler.hasRoom_length (by simp) List.not_mem_nil
  have resolved := preserving_resolveWithin compiler.hasRoom_length (mem_names_of_expand expanded)
    .start compiler.faithful_nil
  rw [← expanded]
  exact resolved.1

end Compiler

end Tessera.Grammar
