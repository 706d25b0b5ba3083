import Tessera.Grammar.Compiler
import Tessera.Proofs.Computation

/-!
# The value of an expression

A builder runs on a session and may have other rules resolved on the way. Its value is what it
makes once its lookups are answered: a function of the answers, with no session.
-/

set_option autoImplicit false

namespace Tessera.Grammar

open Tessera.Computation

abbrev Answer := Access → Name → Except Error Rule

namespace Expr

mutual

/-- What an expression makes, given the answers to its lookups. -/
def value (answer : Answer) : Expr → Except Error Rule
  | .literal text => pure (.literal text)
  | .foreign value => pure (.foreign value)
  | .reference name => pure (.reference name)
  | .characterClass first last members => Rule.characterClass first last members
  | .sequence checked items => do
    let rules ← values answer items
    return .sequence (← checkAllIf checked rules)
  | .choice checked items => do
    let rules ← values answer items
    return .choice (← checkAllIf checked rules)
  | .between checked body least greatest => do
    let rule ← value answer body
    let rule ← checkIf checked rule
    return .between rule (← Bounds.ofIntegers least greatest)
  | .zeroOrMore checked body => do
    let rule ← value answer body
    return .zeroOrMore (← checkIf checked rule)
  | .oneOrMore checked body => do
    let rule ← value answer body
    return .oneOrMore (← checkIf checked rule)
  | .optional checked body => do
    let rule ← value answer body
    return .optional (← checkIf checked rule)
  | .lookup access name => answer access name
  | .probe _ body => value answer body

def values (answer : Answer) : List Expr → Except Error (List Rule)
  | [] => pure []
  | expr :: rest => do
    let rule ← value answer expr
    return rule :: (← values answer rest)

end

end Expr

def Definition.value (answer : Answer) : Definition → Except Error Rule
  | .term rule => pure rule
  | .builder _ body => body.value answer

/-! ## Evaluation and value -/

/-- A way to relate a computation on sessions to a plain result that carries over to sequences. -/
structure Correspondence where
  relates : {α : Type} → Run α → Except Error α → Prop
  pure : ∀ {α : Type} (value : α), relates (Pure.pure value) (.ok value)
  ofExcept : ∀ {α : Type} (result : Except Error α), relates (Run.ofExcept result) result
  record : ∀ entry : LogEntry, relates (Run.record entry) (.ok ())
  bind : ∀ {α β : Type} {computation : Run α} {result : Except Error α} {next : α → Run β}
    {further : α → Except Error β}, relates computation result →
    (∀ value, relates (next value) (further value)) →
    relates (computation >>= next) (result >>= further)

namespace Correspondence

variable (related : Correspondence) {names : List Name} {find : Access → Name → Run Rule}
  {answer : Answer}

mutual

theorem eval (found : ∀ access name, related.relates (find access name) (answer access name)) :
    (expr : Expr) → related.relates (expr.eval names find) (expr.value answer)
  | .literal _ => related.pure _
  | .foreign _ => related.pure _
  | .reference _ => related.pure _
  | .characterClass _ _ _ => related.ofExcept _
  | .sequence _ items =>
    related.bind (evalAll found items) fun _ =>
      related.bind (related.ofExcept _) fun _ => related.pure _
  | .choice _ items =>
    related.bind (evalAll found items) fun _ =>
      related.bind (related.ofExcept _) fun _ => related.pure _
  | .between _ body _ _ =>
    related.bind (eval found body) fun _ =>
      related.bind (related.ofExcept _) fun _ =>
        related.bind (related.ofExcept _) fun _ => related.pure _
  | .zeroOrMore _ body =>
    related.bind (eval found body) fun _ =>
      related.bind (related.ofExcept _) fun _ => related.pure _
  | .oneOrMore _ body =>
    related.bind (eval found body) fun _ =>
      related.bind (related.ofExcept _) fun _ => related.pure _
  | .optional _ body =>
    related.bind (eval found body) fun _ =>
      related.bind (related.ofExcept _) fun _ => related.pure _
  | .lookup access name => found access name
  | .probe _ body => related.bind (related.record _) fun _ => eval found body

theorem evalAll (found : ∀ access name, related.relates (find access name) (answer access name)) :
    (exprs : List Expr) →
      related.relates (Expr.evalAll names find exprs) (Expr.values answer exprs)
  | [] => related.pure _
  | expr :: rest =>
    related.bind (eval found expr) fun _ =>
      related.bind (evalAll found rest) fun _ => related.pure _

end

end Correspondence

/-- A computation settles if its result does not depend on the session and it completes no rule. -/
def settling : Correspondence where
  relates computation result := ∀ session, (outcome computation session).1 = result ∧
    (outcome computation session).2.bodies = session.bodies
  pure _ _ := ⟨rfl, rfl⟩
  ofExcept result _ := by cases result <;> exact ⟨rfl, rfl⟩
  record _ _ := ⟨rfl, rfl⟩
  bind {_ _ computation _ _ _} first second session := by
    obtain ⟨resultEq, bodiesEq⟩ := first session
    rw [outcome_bind]
    cases ending : outcome computation session with
    | mk value between =>
        rw [ending] at resultEq bodiesEq
        subst resultEq
        cases value with
        | error cause => exact ⟨rfl, bodiesEq⟩
        | ok value =>
            obtain ⟨furtherEq, furtherBodies⟩ := second value between
            exact ⟨furtherEq, furtherBodies.trans bodiesEq⟩

/-- A computation succeeds with a result that follows from its success alone. -/
def succeeding : Correspondence where
  relates computation result := ∀ session value after,
    outcome computation session = (.ok value, after) → result = .ok value
  pure _ _ _ _ made := by
    cases made
    rfl
  ofExcept result _ _ _ made := by
    cases result <;> cases made
    rfl
  record _ _ _ _ made := by
    cases made
    rfl
  bind first second session result after made := by
    obtain ⟨value, between, firstMade, secondMade⟩ := outcome_bind_eq_ok_iff.mp made
    rw [first session value between firstMade]
    exact second value between result after secondMade

/-- Answers from a table; other lookups are not answered. -/
def Answer.ofTable (table : Name → Option Rule) : Answer := fun access name =>
  match table name with
  | some rule => .ok rule
  | none => .error (.unknownRule access name [])

theorem Expr.build_eq_value (expr : Expr) : expr.build = expr.value (.ofTable fun _ => none) :=
  (settling.eval (fun _ _ _ => ⟨rfl, rfl⟩) expr .start).1

/-! ## Lookups replaced by terms -/

mutual

def Rule.toExpr : Rule → Expr
  | .literal text => .literal text
  | .sequence items => .sequence false (toExprs items)
  | .choice items => .choice false (toExprs items)
  | .between rule bounds => .between false (toExpr rule) bounds.least bounds.greatest
  | .zeroOrMore rule => .zeroOrMore false (toExpr rule)
  | .oneOrMore rule => .oneOrMore false (toExpr rule)
  | .optional rule => .optional false (toExpr rule)
  | .range first last => .characterClass (some [first]) (some [last]) none
  | .oneOf members => .characterClass none none (some members)
  | .reference name => .reference name
  | .foreign value => .foreign value

def Rule.toExprs : List Rule → List Expr
  | [] => []
  | rule :: rest => toExpr rule :: toExprs rest

end

namespace Expr

mutual

/-- Replaces each lookup of a name in a table by the term that stands there. -/
def substitute (table : Name → Option Rule) : Expr → Expr
  | .sequence checked items => .sequence checked (substituteAll table items)
  | .choice checked items => .choice checked (substituteAll table items)
  | .between checked body least greatest => .between checked (substitute table body) least greatest
  | .zeroOrMore checked body => .zeroOrMore checked (substitute table body)
  | .oneOrMore checked body => .oneOrMore checked (substitute table body)
  | .optional checked body => .optional checked (substitute table body)
  | .lookup access name =>
    match table name with
    | some rule => rule.toExpr
    | none => .lookup access name
  | .probe names body => .probe names (substitute table body)
  | expr => expr

def substituteAll (table : Name → Option Rule) : List Expr → List Expr
  | [] => []
  | expr :: rest => substitute table expr :: substituteAll table rest

end

end Expr

namespace Definition

def substitute (table : Name → Option Rule) : Definition → Definition
  | .term rule => .term rule
  | .builder label body => .builder label (body.substitute table)

/-- Makes the term of a definition that asks for no other rule. -/
def build : Definition → Except Error Rule
  | .term rule => .ok rule
  | .builder _ body => body.build

end Definition

mutual

theorem Rule.value_toExpr (answer : Answer) : (rule : Rule) → rule.toExpr.value answer = .ok rule
  | .literal _ => rfl
  | .sequence items => by
    simp only [toExpr, Expr.value, values_toExprs answer items]
    rfl
  | .choice items => by
    simp only [toExpr, Expr.value, values_toExprs answer items]
    rfl
  | .between rule bounds => by
    have made : Bounds.ofIntegers bounds.least bounds.greatest = .ok bounds := by
      simp [Bounds.ofIntegers, bounds.ordered]
    simp only [toExpr, Expr.value, value_toExpr answer rule, made]
    rfl
  | .zeroOrMore rule => by
    simp only [toExpr, Expr.value, value_toExpr answer rule]
    rfl
  | .oneOrMore rule => by
    simp only [toExpr, Expr.value, value_toExpr answer rule]
    rfl
  | .optional rule => by
    simp only [toExpr, Expr.value, value_toExpr answer rule]
    rfl
  | .range _ _ => rfl
  | .oneOf _ => rfl
  | .reference _ => rfl
  | .foreign _ => rfl

theorem Rule.values_toExprs (answer : Answer) :
    (rules : List Rule) → Expr.values answer (toExprs rules) = .ok rules
  | [] => rfl
  | rule :: rest => by
    simp only [toExprs, Expr.values, value_toExpr answer rule, values_toExprs answer rest]
    rfl

end

mutual

theorem Expr.value_substitute (table : Name → Option Rule) : (expr : Expr) →
    (expr.substitute table).value (.ofTable fun _ => none) = expr.value (.ofTable table)
  | .literal _ => rfl
  | .foreign _ => rfl
  | .reference _ => rfl
  | .characterClass _ _ _ => rfl
  | .sequence _ items => by simp only [substitute, value, values_substituteAll table items]
  | .choice _ items => by simp only [substitute, value, values_substituteAll table items]
  | .between _ body _ _ => by simp only [substitute, value, value_substitute table body]
  | .zeroOrMore _ body => by simp only [substitute, value, value_substitute table body]
  | .oneOrMore _ body => by simp only [substitute, value, value_substitute table body]
  | .optional _ body => by simp only [substitute, value, value_substitute table body]
  | .lookup access name => by
    simp only [substitute, value, Answer.ofTable]
    cases table name with
    | none => rfl
    | some rule => exact rule.value_toExpr _
  | .probe _ body => by simp only [substitute, value, value_substitute table body]

theorem Expr.values_substituteAll (table : Name → Option Rule) : (exprs : List Expr) →
    values (.ofTable fun _ => none) (substituteAll table exprs) = values (.ofTable table) exprs
  | [] => rfl
  | expr :: rest => by
    simp only [substituteAll, values, value_substitute table expr, values_substituteAll table rest]

end

/-- Lookups that are replaced by terms are lookups answered by these terms. -/
theorem Definition.build_substitute (table : Name → Option Rule) (definition : Definition) :
    (definition.substitute table).build = definition.value (.ofTable table) := by
  cases definition with
  | term rule => rfl
  | builder label body =>
      exact (Expr.build_eq_value _).trans (Expr.value_substitute table body)

/-! ## Other answers -/

namespace Rule

theorem check_eq_ok_iff {rule result : Rule} :
    rule.check = .ok result ↔ rule.isRule = true ∧ result = rule := by
  cases rule <;> simp [check, isRule, eq_comm]

theorem checkAll_eq_ok_iff {rules results : List Rule} :
    checkAll rules = .ok results ↔ rules.all isRule = true ∧ results = rules := by
  induction rules generalizing results with
  | nil => simp [checkAll, eq_comm]
  | cons rule rest ih =>
      cases rule with
      | foreign value => simp [checkAll, check, isRule]
      | _ =>
          simp only [checkAll, check, List.all_cons, isRule, Bool.true_and]
          cases others : checkAll rest with
          | error cause =>
              have refused : rest.all isRule ≠ true := fun accepted => by
                simp [ih.mpr ⟨accepted, rfl⟩] at others
              simp [Except.map, refused]
          | ok kept =>
              obtain ⟨accepted, rfl⟩ := ih.mp others
              simp [Except.map, accepted, eq_comm]

end Rule

/-- Whether a result that exists is followed by another one with the same features. -/
def Follows {α β : Type} (features : α → β) (first second : Except Error α) : Prop :=
  ∀ value, first = .ok value → ∃ other, second = .ok other ∧ features other = features value

namespace Follows

variable {α β γ δ : Type}

theorem refl (features : α → β) (result : Except Error α) : Follows features result result :=
  fun value made => ⟨value, made, rfl⟩

theorem bind {features : α → β} {further : γ → δ} {first second : Except Error α}
    {next other : α → Except Error γ} (follows : Follows features first second)
    (continues : ∀ a b, features b = features a → Follows further (next a) (other b)) :
    Follows further (first >>= next) (second >>= other) := by
  intro result made
  cases first with
  | error cause => cases made
  | ok value =>
      obtain ⟨alike, rfl, same⟩ := follows value rfl
      exact continues value alike same result made

theorem pure {features : α → β} {a b : α} (same : features b = features a) :
    Follows features (Pure.pure a) (Pure.pure b) := by
  rintro _ ⟨⟩
  exact ⟨b, rfl, same⟩

end Follows

namespace Expr

theorem follows_checkIf {checked : Bool} {a b : Rule} (same : b.isRule = a.isRule) :
    Follows Rule.isRule (checkIf checked a) (checkIf checked b) := by
  intro result made
  cases checked with
  | false =>
      cases made
      exact ⟨b, rfl, same⟩
  | true =>
      obtain ⟨accepted, rfl⟩ := Rule.check_eq_ok_iff.mp made
      exact ⟨b, Rule.check_eq_ok_iff.mpr ⟨same.trans accepted, rfl⟩, same⟩

theorem follows_checkAllIf {checked : Bool} {as bs : List Rule}
    (same : bs.map Rule.isRule = as.map Rule.isRule) :
    Follows (List.map Rule.isRule) (checkAllIf checked as) (checkAllIf checked bs) := by
  intro results made
  cases checked with
  | false =>
      cases made
      exact ⟨bs, rfl, same⟩
  | true =>
      obtain ⟨accepted, rfl⟩ := Rule.checkAll_eq_ok_iff.mp made
      have images : bs.all Rule.isRule = results.all Rule.isRule := by
        simpa only [List.all_map, Function.id_comp] using congrArg (List.all · id) same
      exact ⟨bs, Rule.checkAll_eq_ok_iff.mpr ⟨images.trans accepted, rfl⟩, same⟩

variable {answer other : Answer}

mutual

/-- If other answers are rules wherever the answers are, an expression makes something with them as
well: the checks on the way ask for nothing else. -/
theorem follows_value
    (answers : ∀ access name, Follows Rule.isRule (answer access name) (other access name)) :
    (expr : Expr) → Follows Rule.isRule (expr.value answer) (expr.value other)
  | .literal _ => .refl _ _
  | .foreign _ => .refl _ _
  | .reference _ => .refl _ _
  | .characterClass _ _ _ => .refl _ _
  | .sequence _ items =>
    .bind (follows_values answers items) fun _ _ same =>
      .bind (follows_checkAllIf same) fun _ _ _ => .pure rfl
  | .choice _ items =>
    .bind (follows_values answers items) fun _ _ same =>
      .bind (follows_checkAllIf same) fun _ _ _ => .pure rfl
  | .between _ body _ _ =>
    .bind (follows_value answers body) fun _ _ same =>
      .bind (follows_checkIf same) fun _ _ _ => .bind (.refl id _) fun _ _ _ => .pure rfl
  | .zeroOrMore _ body =>
    .bind (follows_value answers body) fun _ _ same =>
      .bind (follows_checkIf same) fun _ _ _ => .pure rfl
  | .oneOrMore _ body =>
    .bind (follows_value answers body) fun _ _ same =>
      .bind (follows_checkIf same) fun _ _ _ => .pure rfl
  | .optional _ body =>
    .bind (follows_value answers body) fun _ _ same =>
      .bind (follows_checkIf same) fun _ _ _ => .pure rfl
  | .lookup access name => answers access name
  | .probe _ body => follows_value answers body

theorem follows_values
    (answers : ∀ access name, Follows Rule.isRule (answer access name) (other access name)) :
    (exprs : List Expr) →
      Follows (List.map Rule.isRule) (values answer exprs) (values other exprs)
  | [] => .refl _ _
  | expr :: rest =>
    .bind (follows_value answers expr) fun _ _ first =>
      .bind (follows_values answers rest) fun _ _ others =>
        .pure (by rw [List.map_cons, List.map_cons, first, others])

end

end Expr

end Tessera.Grammar
