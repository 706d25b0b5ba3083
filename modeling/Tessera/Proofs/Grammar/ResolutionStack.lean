import Tessera.Proofs.Grammar.History

/-!
# The stack of rules in progress

Instead of handing down the rules that are under way, a compiler may keep them in its state: a rule
goes on a stack when its resolution begins, and is taken off when that ends, whether it succeeds or not.
All else stays the same, and between two steps the stack is empty.
-/

set_option autoImplicit false

namespace Tessera.Grammar

open Tessera.Computation

structure Workspace where
  session : Session
  /-- Outermost first. -/
  inProgress : List Name

/-- A computation on a workspace, which keeps its changes when it fails. -/
abbrev Work (α : Type) := ExceptT Error (StateM Workspace) α

namespace Workspace

def start : Workspace := ⟨.start, []⟩

def push (name : Name) (workspace : Workspace) : Workspace :=
  { workspace with inProgress := workspace.inProgress ++ [name] }

def pop (workspace : Workspace) : Workspace :=
  { workspace with inProgress := workspace.inProgress.dropLast }

end Workspace

/-- Puts a rule on the stack for as long as a computation takes, however it ends. -/
def Work.under {α : Type} (name : Name) (work : Work α) : Work α := do
  modify (Workspace.push name)
  try work
  finally modify Workspace.pop

/-- A run that has nothing to do with the stack. -/
def Run.aside {α : Type} (run : Run α) : Work α := fun workspace =>
  let (result, session) := outcome run workspace.session
  (result, { workspace with session := session })

namespace Expr

mutual

def evalOn (names : List Name) (find : Access → Name → Work Rule) : Expr → Work Rule
  | .literal text => pure (.literal text)
  | .foreign value => pure (.foreign value)
  | .reference name => pure (.reference name)
  | .characterClass first last members =>
    (Run.ofExcept (Rule.characterClass first last members)).aside
  | .sequence checked items => do
    let rules ← evalAllOn names find items
    return .sequence (← (Run.ofExcept (checkAllIf checked rules)).aside)
  | .choice checked items => do
    let rules ← evalAllOn names find items
    return .choice (← (Run.ofExcept (checkAllIf checked rules)).aside)
  | .between checked body least greatest => do
    let rule ← evalOn names find body
    let rule ← (Run.ofExcept (checkIf checked rule)).aside
    return .between rule (← (Run.ofExcept (Bounds.ofIntegers least greatest)).aside)
  | .zeroOrMore checked body => do
    let rule ← evalOn names find body
    return .zeroOrMore (← (Run.ofExcept (checkIf checked rule)).aside)
  | .oneOrMore checked body => do
    let rule ← evalOn names find body
    return .oneOrMore (← (Run.ofExcept (checkIf checked rule)).aside)
  | .optional checked body => do
    let rule ← evalOn names find body
    return .optional (← (Run.ofExcept (checkIf checked rule)).aside)
  | .lookup access name => find access name
  | .probe asked body => do
    (Run.record (.probed names (asked.map names.contains))).aside
    evalOn names find body

def evalAllOn (names : List Name) (find : Access → Name → Work Rule) : List Expr → Work (List Rule)
  | [] => pure []
  | expr :: rest => do
    let rule ← evalOn names find expr
    return rule :: (← evalAllOn names find rest)

end

end Expr

namespace Compiler

def findOn (compiler : Compiler) (resolve : Name → Work Rule) (access : Access) (name : Name) :
    Work Rule :=
  if access.permits name = true then
    tryCatch
      (if compiler.names.contains name then resolve name
        else throw (.unknownRule .subscript name compiler.names))
      fun cause => throw (access.report cause)
  else throw (.privateName name)

def evaluateOn (compiler : Compiler) (resolve : Name → Work Rule) (name : Name) :
    Definition → Work Rule
  | .term (.foreign value) => throw (.definedNoRule name value.kind)
  | .term rule => pure rule
  | .builder label body => do
    (Run.record (.started label)).aside
    match ← body.evalOn compiler.names (compiler.findOn resolve) with
    | .foreign value => throw (.builtNoRule name value.kind)
    | rule => pure rule

def resolverOn (compiler : Compiler) (resolve : Name → Work Rule) : Name → Work Rule :=
  if compiler.options.inline then resolve
  else fun other => pure (.reference (compiler.options.productionName other))

/-- The body of a rule, with the rules that are under way on the stack. -/
def resolveOn (compiler : Compiler) (depth : Nat) (name : Name) : Work Rule := do
  let workspace ← MonadState.get
  match workspace.session.bodies.lookup name with
  | some body => return body
  | none =>
    if workspace.inProgress.contains name then throw (.cyclic workspace.inProgress name)
    else match depth, compiler.definitions.lookup name with
      | depth + 1, some definition =>
        let resolve := compiler.resolverOn (compiler.resolveOn depth)
        let body ← Work.under name (compiler.evaluateOn resolve name definition)
        (complete name body).aside
        return body
      | 0, _ => throw (.cyclic workspace.inProgress name)
      | _, none => throw (.unknownRule .subscript name compiler.names)

def resolveAllOn (compiler : Compiler) : List Name → Work (List (Name × Rule))
  | [] => pure []
  | name :: rest => do
    let body ← compiler.resolveOn compiler.definitions.length name
    return (name, body) :: (← compiler.resolveAllOn rest)

def performOn (compiler : Compiler) : (step : Step) → Work step.Value
  | .compile => do
    let bodies ← compiler.resolveAllOn compiler.names
    (Run.ofExcept (compiler.written bodies)).aside
  | .bodies => compiler.resolveAllOn compiler.names
  | .lookup access name =>
    compiler.findOn (compiler.resolverOn (compiler.resolveOn compiler.definitions.length)) access
      name

def workspaceAfter (compiler : Compiler) (steps : List Step) : Workspace :=
  steps.foldl (fun workspace step => (outcome (compiler.performOn step) workspace).2) .start

end Compiler

/-! ## Runs beside a stack -/

/-- Whether a computation leaves the stack that it begins with, and else does what a run does. -/
def Mirrors {α : Type} (stack : List Name) (work : Work α) (run : Run α) : Prop :=
  ∀ session, outcome work ⟨session, stack⟩ =
    ((outcome run session).1, ⟨(outcome run session).2, stack⟩)

namespace Mirrors

variable {α β : Type} {stack : List Name}

theorem pure (value : α) : Mirrors stack (Pure.pure value) (Pure.pure value) := fun _ => rfl

theorem throw (cause : Error) :
    Mirrors stack (MonadExcept.throw cause : Work α) (MonadExcept.throw cause) := fun _ => rfl

theorem aside (run : Run α) : Mirrors stack run.aside run := fun _ => rfl

theorem bind {work : Work α} {run : Run α} {next : α → Work β} {further : α → Run β}
    (first : Mirrors stack work run)
    (second : ∀ value, Mirrors stack (next value) (further value)) :
    Mirrors stack (work >>= next) (run >>= further) := by
  intro session
  rw [outcome_bind, outcome_bind, first session]
  cases outcome run session with
  | mk result between =>
      cases result with
      | error cause => rfl
      | ok value => exact second value between

theorem tryCatch {work : Work α} {run : Run α} {handler : Error → Work α} {other : Error → Run α}
    (tried : Mirrors stack work run)
    (handled : ∀ cause, Mirrors stack (handler cause) (other cause)) :
    Mirrors stack (MonadExcept.tryCatch work handler) (MonadExcept.tryCatch run other) := by
  intro session
  rw [outcome_tryCatch, outcome_tryCatch, tried session]
  cases outcome run session with
  | mk result between =>
      cases result with
      | error cause => exact handled cause between
      | ok value => rfl

theorem under {name : Name} {work : Work α} {run : Run α}
    (mirrors : Mirrors (stack ++ [name]) work run) : Mirrors stack (Work.under name work) run := by
  intro session
  have pushed : outcome (Work.under name work) ⟨session, stack⟩ =
      outcome (tryFinally work (modify Workspace.pop)) ⟨session, stack ++ [name]⟩ := rfl
  rw [pushed, outcome_tryFinally, mirrors session]
  simp [Workspace.pop]

end Mirrors

section

variable {names stack : List Name} {findOn : Access → Name → Work Rule}
  {find : Access → Name → Run Rule}

mutual

theorem Expr.mirrors_eval
    (found : ∀ access name, Mirrors stack (findOn access name) (find access name)) :
    (expr : Expr) → Mirrors stack (expr.evalOn names findOn) (expr.eval names find)
  | .literal _ => .pure _
  | .foreign _ => .pure _
  | .reference _ => .pure _
  | .characterClass _ _ _ => .aside _
  | .sequence _ items =>
    .bind (Expr.mirrors_evalAll found items) fun _ => .bind (.aside _) fun _ => .pure _
  | .choice _ items =>
    .bind (Expr.mirrors_evalAll found items) fun _ => .bind (.aside _) fun _ => .pure _
  | .between _ body _ _ =>
    .bind (Expr.mirrors_eval found body) fun _ =>
      .bind (.aside _) fun _ => .bind (.aside _) fun _ => .pure _
  | .zeroOrMore _ body =>
    .bind (Expr.mirrors_eval found body) fun _ => .bind (.aside _) fun _ => .pure _
  | .oneOrMore _ body =>
    .bind (Expr.mirrors_eval found body) fun _ => .bind (.aside _) fun _ => .pure _
  | .optional _ body =>
    .bind (Expr.mirrors_eval found body) fun _ => .bind (.aside _) fun _ => .pure _
  | .lookup access name => found access name
  | .probe _ body => .bind (.aside _) fun _ => Expr.mirrors_eval found body

theorem Expr.mirrors_evalAll
    (found : ∀ access name, Mirrors stack (findOn access name) (find access name)) :
    (exprs : List Expr) →
      Mirrors stack (Expr.evalAllOn names findOn exprs) (Expr.evalAll names find exprs)
  | [] => .pure _
  | expr :: rest =>
    .bind (Expr.mirrors_eval found expr) fun _ =>
      .bind (Expr.mirrors_evalAll found rest) fun _ => .pure _

end

end

namespace Compiler

variable {compiler : Compiler} {stack : List Name} {resolveOn : Name → Work Rule}
  {resolve : Name → Run Rule}

theorem mirrors_find (resolved : ∀ name, Mirrors stack (resolveOn name) (resolve name))
    (access : Access) (name : Name) :
    Mirrors stack (compiler.findOn resolveOn access name) (compiler.find resolve access name) := by
  rw [find_eq, findOn]
  split
  · refine .tryCatch ?_ fun cause => .throw _
    split
    · exact resolved name
    · exact .throw _
  · exact .throw _

theorem mirrors_evaluate (resolved : ∀ name, Mirrors stack (resolveOn name) (resolve name))
    (name : Name) (definition : Definition) :
    Mirrors stack (compiler.evaluateOn resolveOn name definition)
      (compiler.evaluate resolve name definition) := by
  cases definition with
  | term rule =>
      cases rule with
      | foreign value => exact .throw _
      | _ => exact .pure _
  | builder label body =>
      refine .bind (.aside _) fun _ => ?_
      refine .bind (body.mirrors_eval (mirrors_find resolved)) fun rule => ?_
      cases rule with
      | foreign value => exact .throw _
      | _ => exact .pure _

theorem mirrors_resolver {depth : Nat}
    (resolved : ∀ name, Mirrors stack (resolveOn name) (compiler.resolveWithin depth stack name))
    (name : Name) :
    Mirrors stack (compiler.resolverOn resolveOn name) (compiler.resolver depth stack name) := by
  unfold resolverOn resolver
  split
  · exact resolved name
  · exact .pure _

theorem mirrors_resolveOn (depth : Nat) (stack : List Name) (name : Name) :
    Mirrors stack (compiler.resolveOn depth name) (compiler.resolveWithin depth stack name) := by
  induction depth generalizing stack name with
  | zero =>
      intro session
      unfold resolveOn resolveWithin
      simp only [outcome_bind, outcome_get]
      cases session.bodies.lookup name with
      | some body => rfl
      | none =>
          dsimp only
          split <;> rfl
  | succ further ih =>
      intro session
      unfold resolveOn resolveWithin
      simp only [outcome_bind, outcome_get]
      cases session.bodies.lookup name with
      | some body => rfl
      | none =>
          dsimp only
          split
          · rfl
          · cases compiler.definitions.lookup name with
            | none => rfl
            | some definition =>
                dsimp only
                have resolved := mirrors_resolver (ih (stack ++ [name]))
                -- The rule is on the stack while it is evaluated, and gone before it is kept.
                refine Mirrors.bind (mirrors_evaluate resolved name definition).under
                  (fun body => ?_) session
                exact .bind (.aside _) fun _ => .pure body

theorem mirrors_resolveAllOn (names : List Name) :
    Mirrors [] (compiler.resolveAllOn names) (compiler.resolveAll names) := by
  induction names with
  | nil => exact .pure _
  | cons name rest ih =>
      exact .bind (mirrors_resolveOn _ [] name) fun _ => .bind ih fun _ => .pure _

theorem mirrors_performOn (compiler : Compiler) (step : Step) :
    Mirrors [] (compiler.performOn step) (compiler.perform step) := by
  cases step with
  | compile =>
      rw [perform, compile_eq]
      exact .bind (mirrors_resolveAllOn _) fun bodies => .aside _
  | bodies => exact mirrors_resolveAllOn _
  | lookup access name =>
      exact mirrors_find (mirrors_resolver (mirrors_resolveOn _ [])) access name

theorem workspaceAfter_eq (compiler : Compiler) (steps : List Step) :
    compiler.workspaceAfter steps = ⟨compiler.sessionAfter steps, []⟩ := by
  have fromSession (session : Session) :
      steps.foldl (fun workspace step => (outcome (compiler.performOn step) workspace).2)
        ⟨session, []⟩ =
      ⟨steps.foldl (fun between step => (outcome (compiler.perform step) between).2) session,
        []⟩ := by
    induction steps generalizing session with
    | nil => rfl
    | cons step rest ih =>
        rw [List.foldl_cons, List.foldl_cons, compiler.mirrors_performOn step session]
        exact ih _
  exact fromSession .start

/-- A compiler with a stack takes each step, after whatever steps have succeeded or failed, as it does
when it has just begun. Between steps no rule is on the stack, and each body that is kept is the one
with which its rule is resolved from the beginning. -/
theorem performOn_workspaceAfter (compiler : Compiler) (steps : List Step) :
    (∀ step, (outcome (compiler.performOn step) (compiler.workspaceAfter steps)).1 =
        (outcome (compiler.performOn step) .start).1 ∧
      (outcome (compiler.performOn step) (compiler.workspaceAfter steps)).1 =
        (outcome (compiler.perform step) (compiler.sessionAfter steps)).1) ∧
    (compiler.workspaceAfter steps).inProgress = [] ∧
    (compiler.workspaceAfter steps).session = compiler.sessionAfter steps ∧
    ∀ entry ∈ (compiler.workspaceAfter steps).session.bodies,
      (outcome (compiler.resolve entry.1) .start).1 = .ok entry.2 := by
  rw [workspaceAfter_eq]
  refine ⟨fun step => ?_, rfl, rfl, fun entry kept => resolve_of_mem_sessionAfter kept⟩
  have now := compiler.mirrors_performOn step (compiler.sessionAfter steps)
  have fresh := compiler.mirrors_performOn step .start
  rw [now]
  refine ⟨?_, rfl⟩
  rw [perform_sessionAfter, Workspace.start, fresh]

/-- What a failed compilation had completed is kept; next time the cycle is entered elsewhere. -/
example :
    let compiler : Compiler := ⟨[
      ("root", .builder "root"
        (.sequence true [.lookup .attribute "leaf", .lookup .attribute "loop"])),
      ("loop", .builder "loop" (.optional true (.lookup .subscript "root"))),
      ("leaf", .term (.literal ['x']))], ⟨true, "", false, false⟩⟩
    compiler.workspaceAfter [.compile] =
        ⟨⟨[("leaf", .literal ['x'])], #[.started "root", .started "loop"]⟩, []⟩ ∧
      (outcome (compiler.performOn (.lookup .subscript "loop"))
        (compiler.workspaceAfter [.compile])).1 = .error (.cyclic ["loop", "root"] "loop") := by
  constructor <;> cbv

end Compiler

end Tessera.Grammar
