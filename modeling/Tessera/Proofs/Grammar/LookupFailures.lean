import Mathlib.Data.List.Basic
import Tessera.Proofs.Grammar.Compilation
import Tessera.Proofs.Grammar.LookupGraph

/-!
# Lookups that fail

An expression that makes a term where all its lookups are answered goes wrong only through them: the first
lookup from left to right that is not answered decides how.
-/

set_option autoImplicit false

namespace Tessera.Grammar

open Tessera.Computation

/-! ## Lookups in order -/

mutual

/-- The lookups of an expression from left to right, each with the way in which it is made. -/
def Expr.accesses : Expr → List (Access × Name)
  | .sequence _ items => accessesOfAll items
  | .choice _ items => accessesOfAll items
  | .between _ body _ _ => accesses body
  | .zeroOrMore _ body => accesses body
  | .oneOrMore _ body => accesses body
  | .optional _ body => accesses body
  | .lookup access name => [(access, name)]
  | .probe _ body => accesses body
  | _ => []

def Expr.accessesOfAll : List Expr → List (Access × Name)
  | [] => []
  | expr :: rest => accesses expr ++ accessesOfAll rest

end

mutual

theorem Expr.names_accesses : (expr : Expr) → expr.accesses.map Prod.snd = expr.lookups
  | .literal _ => rfl
  | .foreign _ => rfl
  | .reference _ => rfl
  | .characterClass _ _ _ => rfl
  | .sequence _ items => names_accessesOfAll items
  | .choice _ items => names_accessesOfAll items
  | .between _ body _ _ => names_accesses body
  | .zeroOrMore _ body => names_accesses body
  | .oneOrMore _ body => names_accesses body
  | .optional _ body => names_accesses body
  | .lookup _ _ => rfl
  | .probe _ body => names_accesses body

theorem Expr.names_accessesOfAll :
    (exprs : List Expr) → (accessesOfAll exprs).map Prod.snd = lookupsAll exprs
  | [] => rfl
  | expr :: rest => by
    rw [accessesOfAll, List.map_append, names_accesses expr, names_accessesOfAll rest, lookupsAll]

end

namespace Definition

def accesses : Definition → List (Access × Name)
  | .term _ => []
  | .builder _ body => body.accesses

theorem mem_lookups_of_mem_accesses {definition : Definition} {access : Access} {name : Name}
    (made : (access, name) ∈ definition.accesses) : name ∈ definition.lookups := by
  cases definition with
  | term rule => cases made
  | builder label body =>
      rw [lookups, ← body.names_accesses]
      exact List.mem_map_of_mem made

theorem exists_access_of_mem_lookups {definition : Definition} {name : Name}
    (listed : name ∈ definition.lookups) : ∃ access, (access, name) ∈ definition.accesses := by
  cases definition with
  | term rule => cases listed
  | builder label body =>
      rw [lookups, ← body.names_accesses] at listed
      obtain ⟨⟨access, _⟩, made, rfl⟩ := List.mem_map.mp listed
      exact ⟨access, made⟩

end Definition

namespace Answer

/-- Every lookup is answered, by a reference. -/
def complete : Answer := fun _ name => .ok (.reference name)

def fault? (answer : Answer) (lookup : Access × Name) : Option Error :=
  match answer lookup.1 lookup.2 with
  | .ok _ => none
  | .error cause => some cause

end Answer

/-! ## Results that a fault may prevent -/

/-- Whether a result that exists is followed by another one with the same features, unless there is a
fault, and by that fault if there is one. -/
def FollowsUnless {α β : Type} (fault? : Option Error) (features : α → β)
    (first second : Except Error α) : Prop :=
  match fault? with
  | none => Follows features first second
  | some cause => ∀ value, first = .ok value → second = .error cause

namespace FollowsUnless

variable {α β γ δ : Type} {fault? : Option Error} {features : α → β} {further : γ → δ}
  {first second : Except Error α} {next other : α → Except Error γ}

theorem bind {later? : Option Error} (follows : FollowsUnless fault? features first second)
    (continues : ∀ a b, features b = features a →
      FollowsUnless later? further (next a) (other b)) :
    FollowsUnless (fault?.or later?) further (first >>= next) (second >>= other) := by
  cases fault? with
  | some cause =>
      intro value made
      obtain ⟨part, partMade, -⟩ := bind_eq_ok_iff.mp made
      rw [follows part partMade]
      rfl
  | none =>
      rw [Option.none_or]
      cases later? with
      | none => exact Follows.bind follows continues
      | some cause =>
          intro value made
          obtain ⟨part, partMade, restMade⟩ := bind_eq_ok_iff.mp made
          obtain ⟨alike, rfl, same⟩ := follows part partMade
          exact continues part alike same value restMade

theorem followed (follows : FollowsUnless fault? features first second)
    (continues : ∀ a b, features b = features a → Follows further (next a) (other b)) :
    FollowsUnless fault? further (first >>= next) (second >>= other) := by
  have noLaterFault (a b : α) (same : features b = features a) :
      FollowsUnless none further (next a) (other b) := continues a b same
  have both := follows.bind noLaterFault
  rwa [Option.or_none] at both

end FollowsUnless

namespace Expr

variable {answer other : Answer}

mutual

/-- What an expression makes with some answers it also makes with others, unless a lookup has none there:
then it fails as the first such lookup does. -/
theorem followsUnless_value
    (answers : ∀ access name, FollowsUnless (other.fault? (access, name)) Rule.isRule
      (answer access name) (other access name)) :
    (expr : Expr) → FollowsUnless (expr.accesses.findSome? other.fault?) Rule.isRule
      (expr.value answer) (expr.value other)
  | .literal _ => Follows.refl _ _
  | .foreign _ => Follows.refl _ _
  | .reference _ => Follows.refl _ _
  | .characterClass _ _ _ => Follows.refl _ _
  | .sequence _ items =>
    (followsUnless_values answers items).followed fun _ _ same =>
      .bind (follows_checkAllIf same) fun _ _ _ => .pure rfl
  | .choice _ items =>
    (followsUnless_values answers items).followed fun _ _ same =>
      .bind (follows_checkAllIf same) fun _ _ _ => .pure rfl
  | .between _ body _ _ =>
    (followsUnless_value answers body).followed fun _ _ same =>
      .bind (follows_checkIf same) fun _ _ _ => .bind (.refl id _) fun _ _ _ => .pure rfl
  | .zeroOrMore _ body =>
    (followsUnless_value answers body).followed fun _ _ same =>
      .bind (follows_checkIf same) fun _ _ _ => .pure rfl
  | .oneOrMore _ body =>
    (followsUnless_value answers body).followed fun _ _ same =>
      .bind (follows_checkIf same) fun _ _ _ => .pure rfl
  | .optional _ body =>
    (followsUnless_value answers body).followed fun _ _ same =>
      .bind (follows_checkIf same) fun _ _ _ => .pure rfl
  | .lookup access name => by
    rw [accesses, List.findSome?_singleton]
    exact answers access name
  | .probe _ body => followsUnless_value answers body

theorem followsUnless_values
    (answers : ∀ access name, FollowsUnless (other.fault? (access, name)) Rule.isRule
      (answer access name) (other access name)) :
    (exprs : List Expr) → FollowsUnless ((accessesOfAll exprs).findSome? other.fault?)
      (List.map Rule.isRule) (values answer exprs) (values other exprs)
  | [] => Follows.refl _ _
  | expr :: rest => by
    rw [accessesOfAll, List.findSome?_append]
    refine (followsUnless_value answers expr).bind fun _ _ first => ?_
    refine (followsUnless_values answers rest).followed fun _ _ others => ?_
    exact .pure (by rw [List.map_cons, List.map_cons, first, others])

end

end Expr

/-! ## Definitions -/

/-- Whether a definition makes a rule where all its lookups are answered. -/
def Definition.IsSound (definition : Definition) : Prop :=
  ∃ body, body.isRule = true ∧ definition.value .complete = .ok body

/-- Whether whatever answers there are, are rules. -/
def Answer.GivesRules (answer : Answer) : Prop :=
  ∀ access name found, answer access name = .ok found → found.isRule = true

theorem Answer.GivesRules.followsUnless {answer : Answer} (gives : answer.GivesRules)
    (access : Access) (name : Name) :
    FollowsUnless (answer.fault? (access, name)) Rule.isRule (Answer.complete access name)
      (answer access name) := by
  rw [Answer.fault?]
  cases answered : answer access name with
  | error cause => exact fun _ _ => rfl
  | ok found =>
      intro value complete
      cases complete
      exact ⟨found, rfl, gives access name found answered⟩

namespace Compiler

variable {compiler : Compiler} {expansion : Name → Except Error Rule} {definition : Definition}

/-- With such answers a sound definition fails as the first of its lookups does that has no answer. -/
theorem make_of_fault (sound : definition.IsSound)
    (gives : (compiler.answer expansion).GivesRules) (name : Name) {cause : Error}
    (fault : definition.accesses.findSome? (compiler.answer expansion).fault? = some cause) :
    compiler.make expansion name definition = .error cause := by
  obtain ⟨body, -, made⟩ := sound
  cases definition with
  | term rule => cases fault
  | builder label expr =>
      have follows := expr.followsUnless_value gives.followsUnless
      rw [Definition.accesses] at fault
      rw [fault] at follows
      rw [make, follows body made]
      rfl

/-- It comes to a rule if they all have one. -/
theorem exists_make_of_no_fault (sound : definition.IsSound)
    (gives : (compiler.answer expansion).GivesRules) (name : Name)
    (answered : definition.accesses.findSome? (compiler.answer expansion).fault? = none) :
    ∃ body, compiler.make expansion name definition = .ok body := by
  obtain ⟨body, accepted, made⟩ := sound
  cases definition with
  | term rule => exact ⟨body, make_eq_ok_iff.mpr ⟨accepted, made⟩⟩
  | builder label expr =>
      have follows := expr.followsUnless_value gives.followsUnless
      rw [Definition.accesses] at answered
      rw [answered] at follows
      obtain ⟨rule, ruleMade, same⟩ := follows body made
      rw [accepted] at same
      exact ⟨rule, make_eq_ok_iff.mpr ⟨same, ruleMade⟩⟩

end Compiler

end Tessera.Grammar
