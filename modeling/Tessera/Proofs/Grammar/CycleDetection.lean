import Mathlib
import Tessera.Proofs.Grammar.LookupGraph
import Tessera.Proofs.Grammar.ReferenceResolution
import Tessera.Proofs.Grammar.ReferringBodies

/-!
# Detection of cycles

A compiler that works inline follows the lookups of builders. It succeeds exactly if they make no
cycle, and reports one otherwise.
-/

set_option autoImplicit false

namespace Tessera.Grammar

open Tessera.Computation

namespace Compiler

variable {compiler : Compiler} {path : List Name} {name : Name}

/-! ## How a run ends -/

def ReportsCycle (compiler : Compiler) (cause : Error) : Prop :=
  ∃ path name, cause = .cyclic path name ∧ compiler.IsReturning path name

/-- What holds of the bodies that are kept inline. -/
def Grounded (compiler : Compiler) (bodies : List (Name × Rule)) : Prop :=
  ∀ name body, bodies.lookup name = some body → body.isRule = true ∧ compiler.IsGround name

theorem Grounded.append {bodies : List (Name × Rule)} {body : Rule}
    (grounded : compiler.Grounded bodies) (accepted : body.isRule = true)
    (ground : compiler.IsGround name) : compiler.Grounded (bodies ++ [(name, body)]) := by
  intro other old kept
  rcases lookup_append_singleton kept with earlier | ⟨rfl, rfl⟩
  · exact grounded other old earlier
  · exact ⟨accepted, ground⟩

/-- Whether a computation, if it has a value with references, comes to one with the same features or
reports a cycle. What it has established is said only where it succeeds. -/
def Ends (compiler : Compiler) {α β : Type} (features : α → β) (established : Prop)
    (computation : Run α) (result : Except Error α) : Prop :=
  ∀ value, result = .ok value → ∀ session, compiler.Grounded session.bodies →
    match outcome computation session with
    | (.ok other, after) =>
      features other = features value ∧ compiler.Grounded after.bodies ∧ established
    | (.error cause, _) => compiler.ReportsCycle cause

namespace Ends

variable {α β γ δ : Type} {features : α → β} {further : γ → δ} {established conclusion : Prop}

theorem pure {a b : α} (holds : established) (same : features b = features a) :
    compiler.Ends features established (Pure.pure b) (Pure.pure a) := by
  rintro _ ⟨⟩ session grounded
  exact ⟨same, grounded, holds⟩

theorem imp {computation : Run α} {result : Except Error α}
    (ends : compiler.Ends features established computation result)
    (implies : established → conclusion) :
    compiler.Ends features conclusion computation result := by
  intro value made session grounded
  have ending := ends value made session grounded
  cases ended : outcome computation session with
  | mk reached after =>
      rw [ended] at ending
      cases reached with
      | error cause => exact ending
      | ok other => exact ending.imp_right fun further => further.imp_right implies

theorem ofExcept {first second : Except Error α} (holds : established)
    (follows : Follows features first second) :
    compiler.Ends features established (Run.ofExcept second) first := by
  intro value made session grounded
  obtain ⟨other, rfl, same⟩ := follows value made
  exact ⟨same, grounded, holds⟩

theorem bind {computation : Run α} {result : Except Error α} {next : α → Run γ}
    {other : α → Except Error γ} (ends : compiler.Ends features established computation result)
    (continues : ∀ a b, features b = features a → established →
      compiler.Ends further conclusion (next b) (other a)) :
    compiler.Ends further conclusion (computation >>= next) (result >>= other) := by
  intro value made session grounded
  cases result with
  | error cause => cases made
  | ok first =>
      have ending := ends first rfl session grounded
      rw [outcome_bind]
      cases ended : outcome computation session with
      | mk reached between =>
          rw [ended] at ending
          cases reached with
          | error cause => exact ending
          | ok second =>
              obtain ⟨same, betweenGrounded, holds⟩ := ending
              exact continues first second same holds value made between betweenGrounded

theorem record {computation : Run α} {result : Except Error α} (entry : LogEntry)
    (ends : compiler.Ends features established computation result) :
    compiler.Ends features established (Run.record entry >>= fun _ => computation) result :=
  fun value made session grounded => ends value made (session.noting entry) grounded

end Ends

variable {names : List Name} {find : Access → Name → Run Rule} {answer : Answer}

mutual

/-- If the lookups of an expression end in this way, so does its evaluation, after which each rule that
it looks up is ground. -/
theorem ends_eval : (expr : Expr) →
    (∀ access other, other ∈ expr.lookups →
      compiler.Ends Rule.isRule (compiler.IsGround other) (find access other)
        (answer access other)) →
    compiler.Ends Rule.isRule (∀ other ∈ expr.lookups, compiler.IsGround other)
      (expr.eval names find) (expr.value answer)
  | .literal _, _ => .pure (by simp [Expr.lookups]) rfl
  | .foreign _, _ => .pure (by simp [Expr.lookups]) rfl
  | .reference _, _ => .pure (by simp [Expr.lookups]) rfl
  | .characterClass _ _ _, _ => .ofExcept (by simp [Expr.lookups]) (.refl _ _)
  | .sequence _ items, found =>
    .bind (ends_evalAll items found) fun _ _ same ground =>
      .bind (.ofExcept ground (Expr.follows_checkAllIf same)) fun _ _ _ ground => .pure ground rfl
  | .choice _ items, found =>
    .bind (ends_evalAll items found) fun _ _ same ground =>
      .bind (.ofExcept ground (Expr.follows_checkAllIf same)) fun _ _ _ ground => .pure ground rfl
  | .between _ body _ _, found =>
    .bind (ends_eval body found) fun _ _ same ground =>
      .bind (.ofExcept ground (Expr.follows_checkIf same)) fun _ _ _ ground =>
        .bind (.ofExcept ground (.refl id _)) fun _ _ _ ground => .pure ground rfl
  | .zeroOrMore _ body, found =>
    .bind (ends_eval body found) fun _ _ same ground =>
      .bind (.ofExcept ground (Expr.follows_checkIf same)) fun _ _ _ ground => .pure ground rfl
  | .oneOrMore _ body, found =>
    .bind (ends_eval body found) fun _ _ same ground =>
      .bind (.ofExcept ground (Expr.follows_checkIf same)) fun _ _ _ ground => .pure ground rfl
  | .optional _ body, found =>
    .bind (ends_eval body found) fun _ _ same ground =>
      .bind (.ofExcept ground (Expr.follows_checkIf same)) fun _ _ _ ground => .pure ground rfl
  | .lookup access name, found =>
    (found access name (.head _)).imp (by simp [Expr.lookups])
  | .probe _ body, found => .record _ (ends_eval body found)

theorem ends_evalAll : (exprs : List Expr) →
    (∀ access other, other ∈ Expr.lookupsAll exprs →
      compiler.Ends Rule.isRule (compiler.IsGround other) (find access other)
        (answer access other)) →
    compiler.Ends (List.map Rule.isRule) (∀ other ∈ Expr.lookupsAll exprs, compiler.IsGround other)
      (Expr.evalAll names find exprs) (Expr.values answer exprs)
  | [], _ => .pure (by simp [Expr.lookupsAll]) rfl
  | expr :: rest, found =>
    .bind (ends_eval expr fun access other listed =>
        found access other (List.mem_append_left _ listed)) fun _ _ first ground =>
      .bind (ends_evalAll rest fun access other listed =>
          found access other (List.mem_append_right _ listed)) fun _ _ others restGround =>
        .pure (List.forall_mem_append.mpr ⟨ground, restGround⟩)
          (by rw [List.map_cons, List.map_cons, first, others])

end

theorem ends_find {resolve : Name → Run Rule} {other : Name}
    (ends : other ∈ compiler.names →
      compiler.Ends Rule.isRule (compiler.IsGround other) (resolve other)
        (.ok (.reference (compiler.options.productionName other)))) (access : Access) :
    compiler.Ends Rule.isRule (compiler.IsGround other) (compiler.find resolve access other)
      (compiler.placeholder access other) := by
  intro value made session grounded
  have permitted : access.permits other = true := by
    by_contra hidden
    simp [placeholder, hidden] at made
  have defined : compiler.names.contains other = true := by
    by_contra unknown
    simp only [placeholder, permitted, unknown, ↓reduceIte] at made
    cases made
  simp only [placeholder, permitted, defined, ↓reduceIte] at made
  cases made
  have ending := ends (List.contains_iff_mem.mp defined) _ rfl session grounded
  cases access with
  | subscript =>
      simpa only [find, defined, ↓reduceIte] using ending
  | «attribute» =>
      have visible : other.startsWith "_" = false := by
        simpa [Access.permits] using permitted
      simp only [find, defined, visible, Bool.false_eq_true, ↓reduceIte, outcome_tryCatch]
      cases ended : outcome (resolve other) session with
      | mk reached after =>
          rw [ended] at ending
          cases reached with
          | ok body => exact ending
          | error cause =>
              -- The handler passes the report of a cycle on.
              obtain ⟨path, name, rfl, returning⟩ := ending
              exact ⟨path, name, rfl, returning⟩

theorem ends_evaluate {resolve : Name → Run Rule} {definition : Definition} {body : Rule}
    (accepted : body.isRule = true) (made : definition.value compiler.placeholder = .ok body)
    (ends : ∀ other ∈ definition.lookups, other ∈ compiler.names →
      compiler.Ends Rule.isRule (compiler.IsGround other) (resolve other)
        (.ok (.reference (compiler.options.productionName other)))) (name : Name) :
    compiler.Ends Rule.isRule (∀ other ∈ definition.lookups, compiler.IsGround other)
      (compiler.evaluate resolve name definition) (.ok body) := by
  rintro _ ⟨⟩ session grounded
  cases definition with
  | term rule =>
      cases made
      rw [outcome_evaluate_term_eq_ok_iff.mpr ⟨accepted, rfl, rfl⟩]
      exact ⟨rfl, grounded, by simp [Definition.lookups]⟩
  | builder label expr =>
      have evaluating : compiler.Ends Rule.isRule (∀ other ∈ expr.lookups, compiler.IsGround other)
          (expr.eval compiler.names (compiler.find resolve)) (expr.value compiler.placeholder) :=
        ends_eval expr fun access other listed => ends_find (ends other listed) access
      have ending := evaluating body made (session.noting (.started label)) grounded
      rw [evaluate, outcome_bind, Run.record, outcome_modify]
      dsimp only
      rw [outcome_bind]
      cases ended : outcome (expr.eval compiler.names (compiler.find resolve))
          (session.noting (.started label)) with
      | mk reached after =>
          rw [ended] at ending
          rw [Session.noting] at ended
          rw [ended]
          cases reached with
          | error cause => exact ending
          | ok rule =>
              obtain ⟨same, afterGrounded, ground⟩ := ending
              have ruleAccepted : rule.isRule = true := same.trans accepted
              cases rule <;> first | exact ⟨same, afterGrounded, ground⟩ | cases ruleAccepted

/-- Resolving a rule inline reports a cycle, or leaves the rule ground. The rules under way are on a way
through the graph to it, and not all rules are under way before the depth is used up. -/
theorem ends_resolveWithin (inline : compiler.options.inline = true)
    (referable : ∀ name ∈ compiler.names, ∃ body, compiler.IsReferring name body) (depth : Nat)
    (nodup : path.Nodup) (inside : path ⊆ compiler.names) (defined : name ∈ compiler.names)
    (chain : (path ++ [name]).IsChain compiler.LooksUp)
    (enough : compiler.definitions.length ≤ depth + path.length) :
    compiler.Ends Rule.isRule (compiler.IsGround name) (compiler.resolveWithin depth path name)
      (.ok (.reference (compiler.options.productionName name))) := by
  induction depth using Nat.strongRecOn generalizing path name with
  | ind depth ih =>
      rintro _ ⟨⟩ session grounded
      unfold resolveWithin
      rw [outcome_bind, outcome_get]
      dsimp only
      cases recalled : session.bodies.lookup name with
      | some body =>
          obtain ⟨accepted, ground⟩ := grounded name body recalled
          exact ⟨accepted, grounded, ground⟩
      | none =>
          by_cases underWay : name ∈ path
          · simp only [List.contains_iff_mem.mpr underWay, ↓reduceIte, outcome_throw]
            exact ⟨path, name, rfl, chain, nodup, underWay⟩
          · have room := length_path_lt nodup inside defined underWay
            obtain ⟨further, rfl⟩ : ∃ further, depth = further + 1 :=
              Nat.exists_eq_succ_of_ne_zero (by omega)
            obtain ⟨longerNodup, longerInside⟩ :=
              under_way_append nodup inside defined underWay
            obtain ⟨body, accepted, definition, found, made⟩ := referable name defined
            have lookups : ∀ other ∈ definition.lookups, other ∈ compiler.names →
                compiler.Ends Rule.isRule (compiler.IsGround other)
                  (compiler.resolveWithin further (path ++ [name]) other)
                  (.ok (.reference (compiler.options.productionName other))) := by
              intro other listed otherDefined
              refine ih further (Nat.lt_succ_self _) longerNodup longerInside otherDefined
                (chain_append chain ⟨definition, found, listed⟩) ?_
              simp only [List.length_append, List.length_singleton]
              omega
            have ending := ends_evaluate accepted made lookups name body rfl session grounded
            simp only [List.contains_eq_mem, underWay, decide_false, Bool.false_eq_true, found,
              inline, ↓reduceIte, outcome_bind]
            cases ended : outcome (compiler.evaluate
                (compiler.resolveWithin further (path ++ [name])) name definition) session with
            | mk reached between =>
                rw [ended] at ending
                cases reached with
                | error cause => exact ending
                | ok madeBody =>
                    obtain ⟨same, betweenGrounded, ground⟩ := ending
                    have madeAccepted : madeBody.isRule = true := same.trans accepted
                    have nameGround := isGround_of_lookups found ground
                    exact ⟨madeAccepted, betweenGrounded.append madeAccepted nameGround,
                      nameGround⟩

theorem ends_resolveAll (inline : compiler.options.inline = true)
    (referable : ∀ name ∈ compiler.names, ∃ body, compiler.IsReferring name body)
    {names : List Name} (inside : names ⊆ compiler.names) :
    compiler.Ends (fun _ => ()) (∀ name ∈ names, compiler.IsGround name)
      (compiler.resolveAll names) (.ok []) := by
  induction names with
  | nil => exact .pure (by simp) rfl
  | cons name rest ih =>
      obtain ⟨defined, others⟩ := List.cons_subset.mp inside
      have first : compiler.Ends Rule.isRule (compiler.IsGround name) (compiler.resolve name)
          (.ok (.reference (compiler.options.productionName name))) :=
        ends_resolveWithin inline referable _ List.nodup_nil (List.nil_subset _) defined
          (.singleton name) (Nat.le_refl _)
      change compiler.Ends _ _ _ (do
        let _ ← Except.ok (Rule.reference (compiler.options.productionName name))
        let _ ← Except.ok ([] : List (Name × Rule))
        return [])
      exact first.bind fun _ _ _ ground => (ih others).bind fun _ _ _ restGround =>
        .pure (List.forall_mem_cons.mpr ⟨ground, restGround⟩) rfl

/-! ## All rules -/

/-- Resolving all rules inline leaves no cycle unnoticed, and reports none that is not there. -/
theorem bodies_ending {references : List (Name × Rule)} {last : Session}
    (inline : compiler.options.inline = true)
    (referred : outcome compiler.referring.bodies .start = (.ok references, last)) :
    match (outcome compiler.bodies .start).1 with
    | .ok _ => ¬ compiler.HasCycle
    | .error cause => compiler.ReportsCycle cause := by
  have nothingKept (holds : Name → Rule → Prop) :
      ∀ name body, Session.start.bodies.lookup name = some body → holds name body := by
    rintro name body ⟨⟩
  have referable := isReferring_of_resolveAll (nothingKept _) referred
  have ending := ends_resolveAll inline referable (List.Subset.refl _) [] rfl .start
    (nothingKept _)
  rw [bodies]
  cases ended : outcome (compiler.resolveAll compiler.names) .start with
  | mk reached after =>
      rw [ended] at ending
      cases reached with
      | ok bodies => exact not_hasCycle_of_ground ending.2.2
      | error cause => exact ending

theorem ReportsCycle.hasCycle {cause : Error} (reports : compiler.ReportsCycle cause) :
    compiler.HasCycle := by
  obtain ⟨path, name, -, returning⟩ := reports
  exact returning.hasCycle

/-- If all rules can be resolved with references, resolving them inline reports a cycle exactly if
their lookups make one, as a way through the graph that returns, and succeeds otherwise; a depth greater
than the number of rules changes nothing. With references no cycle is ever reported. -/
theorem bodies_cyclic_iff_hasCycle (compiler : Compiler) :
    (compiler.options.inline = false → ∀ session path name,
      (outcome compiler.bodies session).1 ≠ .error (.cyclic path name)) ∧
    (compiler.options.inline = true → ∀ references last,
      outcome compiler.referring.bodies .start = (.ok references, last) →
      (∀ name ∈ compiler.names, ∀ depth, compiler.definitions.length ≤ depth →
        compiler.resolveWithin depth [] name = compiler.resolve name) ∧
      ((∃ path name, (outcome compiler.bodies .start).1 = .error (.cyclic path name)) ↔
        compiler.HasCycle) ∧
      ((∃ bodies, (outcome compiler.bodies .start).1 = .ok bodies) ↔ ¬ compiler.HasCycle) ∧
      ∀ cause, (outcome compiler.bodies .start).1 = .error cause →
        ∃ path name, cause = .cyclic path name ∧ compiler.IsReturning path name ∧
          cause.message =
            "Cyclic rule in inline mode: " ++ " -> ".intercalate (path ++ [name])) := by
  refine ⟨fun referring => neverCyclic_resolveAll referring (List.Subset.refl _), ?_⟩
  intro inline references last referred
  have depthFree : ∀ name ∈ compiler.names, ∀ depth, compiler.definitions.length ≤ depth →
      compiler.resolveWithin depth [] name = compiler.resolve name :=
    fun name defined depth enough =>
      resolveWithin_eq List.nodup_nil (List.nil_subset _) defined enough (Nat.le_refl _)
  have ending := bodies_ending inline referred
  cases ended : (outcome compiler.bodies .start).1 with
  | ok bodies =>
      rw [ended] at ending
      exact ⟨depthFree, iff_of_false (by simp) ending, iff_of_true ⟨bodies, rfl⟩ ending, by simp⟩
  | error cause =>
      rw [ended] at ending
      obtain ⟨path, name, rfl, returning⟩ := id ending
      refine ⟨depthFree, iff_of_true ⟨path, name, rfl⟩ ending.hasCycle,
        iff_of_false (by simp) (not_not_intro ending.hasCycle), ?_⟩
      rintro _ ⟨⟩
      exact ⟨path, name, rfl, returning, rfl⟩

/-- Two ways lead to a rule here, which is no cycle; one is reached through other rules only. -/
theorem bodies_cyclic_of_loop :
    let definitions (back : Definition) : Definitions := [
      ("root", .builder "root"
        (.sequence true [.lookup .attribute "left", .lookup .subscript "right"])),
      ("left", .builder "left" (.lookup .attribute "leaf")),
      ("right", .builder "right"
        (.sequence true [.lookup .attribute "leaf", .lookup .attribute "loop"])),
      ("loop", .builder "loop" (.optional true (.lookup .attribute "back"))),
      ("back", back),
      ("leaf", .term (.literal ['x']))]
    let looped : Compiler :=
      ⟨definitions (.builder "back" (.lookup .subscript "loop")), ⟨true, "", false, false⟩⟩
    let openEnded : Compiler :=
      ⟨definitions (.builder "back" (.lookup .subscript "leaf")), ⟨true, "", false, false⟩⟩
    (outcome looped.bodies .start).1 =
        .error (.cyclic ["root", "right", "loop", "back"] "loop") ∧
      looped.HasCycle ∧ looped.IsReturning ["root", "right", "loop", "back"] "loop" ∧
      ¬ openEnded.HasCycle ∧ ∃ bodies, (outcome openEnded.bodies .start).1 = .ok bodies := by
  intro definitions looped openEnded
  let references (back : Name) : List (Name × Rule) := [
    ("root", .sequence [.reference "left", .reference "right"]),
    ("left", .reference "leaf"),
    ("right", .sequence [.reference "leaf", .reference "loop"]),
    ("loop", .optional (.reference "back")),
    ("back", .reference back),
    ("leaf", .literal ['x'])]
  let log : Array LogEntry := #[.started "root", .started "left", .started "right",
    .started "loop", .started "back"]
  have loopedReferred : outcome looped.referring.bodies .start =
      (.ok (references "loop"), ⟨references "loop", log⟩) := by cbv
  have openReferred : outcome openEnded.referring.bodies .start =
      (.ok (references "leaf"), ⟨references "leaf", log⟩) := by cbv
  have reported : (outcome looped.bodies .start).1 =
      .error (.cyclic ["root", "right", "loop", "back"] "loop") := by cbv
  let leaf : Rule := .literal ['x']
  let right : Rule := .sequence [leaf, .optional leaf]
  have succeeded : (outcome openEnded.bodies .start).1 =
      .ok [("root", .sequence [leaf, right]), ("left", leaf), ("right", right),
        ("loop", .optional leaf), ("back", leaf), ("leaf", leaf)] := by cbv
  obtain ⟨-, loopedInline⟩ := bodies_cyclic_iff_hasCycle looped
  obtain ⟨-, loopedIff, -, reports⟩ := loopedInline rfl _ _ loopedReferred
  obtain ⟨-, openInline⟩ := bodies_cyclic_iff_hasCycle openEnded
  obtain ⟨-, -, openIff, -⟩ := openInline rfl _ _ openReferred
  obtain ⟨path, name, same, returning, -⟩ := reports _ reported
  cases same
  exact ⟨reported, loopedIff.mp ⟨_, _, reported⟩, returning, openIff.mp ⟨_, succeeded⟩, _, succeeded⟩

end Compiler

end Tessera.Grammar
