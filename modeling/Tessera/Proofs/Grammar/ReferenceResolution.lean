import Tessera.Proofs.Grammar.LookupGraph

/-!
# Errors of resolution

Resolving rules fails as making terms and looking up names can fail, or else by reporting a cycle.
Builders that are given references have no other rule resolved, so that no cycle is reported then,
whether there is one or not.
-/

set_option autoImplicit false

namespace Tessera.Grammar

open Tessera.Computation

/-- Whether an error can arise where a single rule is made, its lookups included. -/
def Error.isOfMaking : Error → Bool
  | .cyclic _ _ => false
  | .unprintable _ => false
  | .undefinedReferences _ => false
  | .duplicate _ => false
  | .absent _ => false
  | _ => true

/-- Whether a computation fails with certain errors only, from whatever session. -/
def FailsWithin (allowed : Error → Prop) {α : Type} (computation : Run α) : Prop :=
  ∀ session cause, (outcome computation session).1 = .error cause → allowed cause

namespace FailsWithin

variable {allowed : Error → Prop} {α β : Type}

theorem pure (value : α) : FailsWithin allowed (Pure.pure value : Run α) := by
  intro session cause failed
  cases failed

theorem throw {cause : Error} (holds : allowed cause) :
    FailsWithin allowed (MonadExcept.throw cause : Run α) := by
  intro session other failed
  cases failed
  exact holds

theorem ofExcept {result : Except Error α} (holds : ∀ cause, result = .error cause → allowed cause) :
    FailsWithin allowed (Run.ofExcept result) := by
  cases result with
  | ok value => exact .pure value
  | error cause => exact .throw (holds cause rfl)

theorem bind {computation : Run α} {next : α → Run β} (first : FailsWithin allowed computation)
    (second : ∀ value, FailsWithin allowed (next value)) :
    FailsWithin allowed (computation >>= next) := by
  intro session cause failed
  have firstAllowed := first session
  rw [outcome_bind] at failed
  cases ended : outcome computation session with
  | mk reached between =>
      rw [ended] at failed firstAllowed
      cases reached with
      | error other =>
          cases failed
          exact firstAllowed cause rfl
      | ok value => exact second value between cause failed

theorem reading : FailsWithin allowed (MonadState.get : Run Session) := by
  intro session cause failed
  cases failed

theorem changing (change : Session → Session) :
    FailsWithin allowed (modify change : Run PUnit) := by
  intro session cause failed
  cases failed

theorem tryCatch {computation : Run α} {handler : Error → Run α}
    (tried : FailsWithin allowed computation)
    (handled : ∀ cause, allowed cause → FailsWithin allowed (handler cause)) :
    FailsWithin allowed (MonadExcept.tryCatch computation handler) := by
  intro session cause failed
  have triedAllowed := tried session
  rw [outcome_tryCatch] at failed
  cases ended : outcome computation session with
  | mk reached between =>
      rw [ended] at failed triedAllowed
      cases reached with
      | ok value => cases failed
      | error other => exact handled other (triedAllowed other rfl) between cause failed

end FailsWithin

/-! ## Making terms -/

theorem isOfMaking_of_checkIf {checked : Bool} {rule : Rule} {cause : Error}
    (failed : Expr.checkIf checked rule = .error cause) : cause.isOfMaking = true := by
  cases checked with
  | false => cases failed
  | true =>
      cases rule with
      | foreign value =>
          cases failed
          rfl
      | _ => cases failed

theorem isOfMaking_of_checkAll {rules : List Rule} {cause : Error}
    (failed : Rule.checkAll rules = .error cause) : cause.isOfMaking = true := by
  induction rules with
  | nil => cases failed
  | cons rule rest ih =>
      cases rule with
      | foreign value =>
          cases failed
          rfl
      | _ =>
          simp only [Rule.checkAll, Rule.check] at failed
          cases others : Rule.checkAll rest with
          | ok kept =>
              rw [others] at failed
              cases failed
          | error other =>
              rw [others] at failed
              cases failed
              exact ih others

theorem isOfMaking_of_checkAllIf {checked : Bool} {rules : List Rule} {cause : Error}
    (failed : Expr.checkAllIf checked rules = .error cause) : cause.isOfMaking = true := by
  cases checked with
  | false => cases failed
  | true => exact isOfMaking_of_checkAll failed

theorem isOfMaking_of_ofIntegers {least greatest : Int} {cause : Error}
    (failed : Bounds.ofIntegers least greatest = .error cause) : cause.isOfMaking = true := by
  unfold Bounds.ofIntegers at failed
  split at failed
  · cases failed
    rfl
  · split at failed
    · cases failed
    · cases failed
      rfl

theorem isOfMaking_of_characterClass {first last : Option Text} {members : Option (List Text)}
    {cause : Error} (failed : Rule.characterClass first last members = .error cause) :
    cause.isOfMaking = true := by
  unfold Rule.characterClass at failed
  split at failed <;> cases failed <;> rfl

section

variable {allowed : Error → Prop} {names : List Name} {find : Access → Name → Run Rule}

mutual

/-- An expression fails as terms and its lookups do. -/
theorem Expr.failsWithin_eval (allows : ∀ cause, cause.isOfMaking = true → allowed cause)
    (found : ∀ access name, FailsWithin allowed (find access name)) :
    (expr : Expr) → FailsWithin allowed (expr.eval names find)
  | .literal _ => .pure _
  | .foreign _ => .pure _
  | .reference _ => .pure _
  | .characterClass _ _ _ =>
    .ofExcept fun cause failed => allows cause (isOfMaking_of_characterClass failed)
  | .sequence _ items =>
    .bind (Expr.failsWithin_evalAll allows found items) fun _ =>
      .bind (.ofExcept fun cause failed => allows cause (isOfMaking_of_checkAllIf failed)) fun _ =>
        .pure _
  | .choice _ items =>
    .bind (Expr.failsWithin_evalAll allows found items) fun _ =>
      .bind (.ofExcept fun cause failed => allows cause (isOfMaking_of_checkAllIf failed)) fun _ =>
        .pure _
  | .between _ body _ _ =>
    .bind (Expr.failsWithin_eval allows found body) fun _ =>
      .bind (.ofExcept fun cause failed => allows cause (isOfMaking_of_checkIf failed)) fun _ =>
        .bind (.ofExcept fun cause failed => allows cause (isOfMaking_of_ofIntegers failed)) fun _ =>
          .pure _
  | .zeroOrMore _ body =>
    .bind (Expr.failsWithin_eval allows found body) fun _ =>
      .bind (.ofExcept fun cause failed => allows cause (isOfMaking_of_checkIf failed)) fun _ =>
        .pure _
  | .oneOrMore _ body =>
    .bind (Expr.failsWithin_eval allows found body) fun _ =>
      .bind (.ofExcept fun cause failed => allows cause (isOfMaking_of_checkIf failed)) fun _ =>
        .pure _
  | .optional _ body =>
    .bind (Expr.failsWithin_eval allows found body) fun _ =>
      .bind (.ofExcept fun cause failed => allows cause (isOfMaking_of_checkIf failed)) fun _ =>
        .pure _
  | .lookup access name => found access name
  | .probe _ body => .bind (.changing _) fun _ => Expr.failsWithin_eval allows found body

theorem Expr.failsWithin_evalAll (allows : ∀ cause, cause.isOfMaking = true → allowed cause)
    (found : ∀ access name, FailsWithin allowed (find access name)) :
    (exprs : List Expr) → FailsWithin allowed (Expr.evalAll names find exprs)
  | [] => .pure _
  | expr :: rest =>
    .bind (Expr.failsWithin_eval allows found expr) fun _ =>
      .bind (Expr.failsWithin_evalAll allows found rest) fun _ => .pure _

end

end

/-! ## Resolving rules -/

namespace Compiler

variable {compiler : Compiler} {allowed : Error → Prop} {name : Name}

theorem failsWithin_find (allows : ∀ cause, cause.isOfMaking = true → allowed cause)
    {resolve : Name → Run Rule} (resolves : ∀ name, FailsWithin allowed (resolve name))
    (access : Access) (name : Name) : FailsWithin allowed (compiler.find resolve access name) := by
  have subscript : FailsWithin allowed (if compiler.names.contains name then resolve name
      else MonadExcept.throw (.unknownRule .subscript name compiler.names)) := by
    split
    · exact resolves name
    · exact .throw (allows _ rfl)
  cases access with
  | subscript => exact subscript
  | «attribute» =>
      rw [Compiler.find]
      split
      · exact .throw (allows _ rfl)
      · refine subscript.tryCatch fun cause holds => ?_
        split
        · exact .throw (allows _ rfl)
        · exact .throw holds

theorem failsWithin_evaluate (allows : ∀ cause, cause.isOfMaking = true → allowed cause)
    {resolve : Name → Run Rule} (resolves : ∀ name, FailsWithin allowed (resolve name)) (name : Name)
    (definition : Definition) :
    FailsWithin allowed (compiler.evaluate resolve name definition) := by
  cases definition with
  | term rule =>
      cases rule with
      | foreign value => exact .throw (allows _ rfl)
      | _ => exact .pure _
  | builder label body =>
      have made : FailsWithin allowed (body.eval compiler.names (compiler.find resolve)) :=
        Expr.failsWithin_eval allows (failsWithin_find allows resolves) body
      refine .bind (.changing _) fun _ => made.bind fun rule => ?_
      cases rule with
      | foreign value => exact .throw (allows _ rfl)
      | _ => exact .pure _

theorem failsWithin_resolveWithin (allows : ∀ cause, cause.isOfMaking = true → allowed cause)
    (cycles : ∀ path name, allowed (.cyclic path name)) (depth : Nat) (path : List Name)
    (name : Name) : FailsWithin allowed (compiler.resolveWithin depth path name) := by
  induction depth generalizing path name with
  | zero =>
      unfold resolveWithin
      refine .bind .reading fun session => ?_
      split
      · exact .pure _
      · split <;> exact .throw (cycles _ _)
  | succ further ih =>
      unfold resolveWithin
      refine .bind .reading fun session => ?_
      split
      · exact .pure _
      · split
        · exact .throw (cycles _ _)
        · cases compiler.definitions.lookup name with
          | none => exact .throw (allows _ rfl)
          | some definition =>
              have resolves (other : Name) : FailsWithin allowed
                  ((if compiler.options.inline then compiler.resolveWithin further (path ++ [name])
                    else fun other => pure (.reference (compiler.options.productionName other)))
                      other) := by
                split
                · exact ih _ other
                · exact .pure _
              exact .bind (failsWithin_evaluate allows resolves name definition) fun _ =>
                .bind (.changing _) fun _ => .pure _

theorem failsWithin_resolveAll {names : List Name}
    (resolves : ∀ name ∈ names, FailsWithin allowed (compiler.resolve name)) :
    FailsWithin allowed (compiler.resolveAll names) := by
  induction names with
  | nil => exact .pure _
  | cons name rest ih =>
      obtain ⟨first, others⟩ := List.forall_mem_cons.mp resolves
      exact .bind first fun _ => .bind (ih others) fun _ => .pure _

/-- With references, a rule is resolved without resolving any other. -/
theorem failsWithin_resolve_of_referring (allows : ∀ cause, cause.isOfMaking = true → allowed cause)
    (referring : compiler.options.inline = false) (defined : name ∈ compiler.names) :
    FailsWithin allowed (compiler.resolve name) := by
  obtain ⟨definition, found, -⟩ := lookup_of_mem_names defined
  have room := length_path_lt List.nodup_nil (List.nil_subset _) defined List.not_mem_nil
  obtain ⟨further, depthEq⟩ : ∃ further, compiler.definitions.length = further + 1 :=
    Nat.exists_eq_succ_of_ne_zero (Nat.ne_of_gt room)
  rw [resolve, depthEq]
  unfold resolveWithin
  refine .bind .reading fun session => ?_
  split
  · exact .pure _
  · simp only [found, referring]
    exact .bind (failsWithin_evaluate allows (fun _ => .pure _) name definition) fun _ =>
      .bind (.changing _) fun _ => .pure _

theorem neverCyclic_resolveAll (referring : compiler.options.inline = false)
    {names : List Name} (inside : names ⊆ compiler.names) (session : Session) (path : List Name)
    (name : Name) :
    (outcome (compiler.resolveAll names) session).1 ≠ .error (.cyclic path name) := by
  have making : FailsWithin (fun cause => cause.isOfMaking = true) (compiler.resolveAll names) :=
    failsWithin_resolveAll fun name listed =>
      failsWithin_resolve_of_referring (fun _ holds => holds) referring (inside listed)
  intro failed
  cases making session _ failed

/-- Bodies are not found for want of a rule that can be made, or for a cycle, and for nothing else. -/
theorem isOfMaking_or_cyclic_of_bodies {session : Session} {cause : Error}
    (failed : (outcome compiler.bodies session).1 = .error cause) :
    cause.isOfMaking = true ∨ ∃ path name, cause = .cyclic path name := by
  let allowed (cause : Error) : Prop :=
    cause.isOfMaking = true ∨ ∃ path name, cause = .cyclic path name
  have resolving : FailsWithin allowed compiler.bodies := by
    apply failsWithin_resolveAll
    intro name _
    exact failsWithin_resolveWithin (fun _ => .inl) (fun path name => .inr ⟨path, name, rfl⟩) _ _ _
  exact resolving session cause failed

theorem bodies_ne_undefinedReferences (compiler : Compiler) (session : Session)
    (missing : List Name) :
    (outcome compiler.bodies session).1 ≠ .error (.undefinedReferences missing) := by
  intro failed
  rcases isOfMaking_or_cyclic_of_bodies failed with making | ⟨path, name, same⟩
  · cases making
  · cases same

end Compiler

end Tessera.Grammar
