import Mathlib
import Tessera.Proofs.Grammar.History
import Tessera.Proofs.Grammar.LookupGraph
import Tessera.Proofs.Grammar.ReferenceOrder
import Tessera.Proofs.Grammar.ReferenceResolution

/-!
# Foreign values in terms

A term has no notation exactly if one of its nodes is a value that is no rule; the first such node in the
order of reading is at fault. The combinators let no such value into a term, and neither do lookups, so
that all bodies of a grammar that is made with them can be written.
-/

set_option autoImplicit false

namespace Tessera.Grammar

open Tessera.Computation

namespace Rule

/-- Whether a term and everything in it is a rule. -/
def AllRules (rule : Rule) : Prop := ∀ node ∈ rule.preorder, node.isRule = true

def foreign? : Rule → Option Foreign
  | .foreign value => some value
  | _ => none

theorem foreign?_eq_some_iff {rule : Rule} {value : Foreign} :
    rule.foreign? = some value ↔ rule = .foreign value := by
  cases rule <;> simp [foreign?]

theorem foreign?_eq_none_iff {rule : Rule} : rule.foreign? = none ↔ rule.isRule = true := by
  cases rule <;> simp [foreign?, isRule]

theorem mem_preorderAll_iff {node : Rule} {rules : List Rule} :
    node ∈ preorderAll rules ↔ ∃ rule ∈ rules, node ∈ rule.preorder := by
  induction rules with
  | nil => simp [preorderAll]
  | cons rule rest ih => simp [preorderAll, ih]

theorem allRules_iff {rule : Rule} :
    rule.AllRules ↔ rule.isRule = true ∧ ∀ part ∈ rule.children, part.AllRules := by
  rw [AllRules, preorder_eq, List.forall_mem_cons]
  refine and_congr_right fun _ => ?_
  constructor
  · intro all part child node inside
    exact all node (mem_preorderAll_iff.mpr ⟨part, child, inside⟩)
  · intro parts node inside
    obtain ⟨part, child, nodeInside⟩ := mem_preorderAll_iff.mp inside
    exact parts part child node nodeInside

theorem allRules_of_leaf {rule : Rule} (isRule : rule.isRule = true) (leaf : rule.children = []) :
    rule.AllRules := by
  rw [allRules_iff, leaf]
  exact ⟨isRule, List.forall_mem_nil _⟩

/-! ## Notation -/

/-- Whether writing goes wrong for a foreign value, if there is one, and otherwise succeeds. -/
def FailsFor {α : Type} (fault? : Option Foreign) (result : Except Error α) : Prop :=
  match fault? with
  | some value => result = .error (.unprintable value.kind)
  | none => ∃ made, result = .ok made

namespace FailsFor

variable {α β : Type} {fault? : Option Foreign} {result : Except Error α}

theorem map (fails : FailsFor fault? result) (change : α → β) :
    FailsFor fault? (result.map change) := by
  cases fault? with
  | some value =>
      have failed : result = .error (.unprintable value.kind) := fails
      rw [failed]
      rfl
  | none =>
      obtain ⟨made, rfl⟩ := fails
      exact ⟨change made, rfl⟩

end FailsFor

mutual

/-- What is met first in the order of reading is written first, and so is at fault first. -/
theorem failsFor_render (escape : Bool) :
    (rule : Rule) → FailsFor (rule.preorder.findSome? foreign?) (rule.render escape)
  | .literal _ => ⟨_, rfl⟩
  | .sequence items => (failsFor_renderAll escape items).map _
  | .choice items => (failsFor_renderAll escape items).map _
  | .between rule _ => (failsFor_render escape rule).map _
  | .zeroOrMore rule => (failsFor_render escape rule).map _
  | .oneOrMore rule => (failsFor_render escape rule).map _
  | .optional rule => (failsFor_render escape rule).map _
  | .range _ _ => ⟨_, rfl⟩
  | .oneOf _ => ⟨_, rfl⟩
  | .reference _ => ⟨_, rfl⟩
  | .foreign _ => rfl

theorem failsFor_renderAll (escape : Bool) :
    (rules : List Rule) → FailsFor ((preorderAll rules).findSome? foreign?) (renderAll escape rules)
  | [] => ⟨_, rfl⟩
  | rule :: rest => by
    have first := failsFor_render escape rule
    have others := failsFor_renderAll escape rest
    rw [preorderAll, List.findSome?_append, renderAll]
    cases fault : rule.preorder.findSome? foreign? with
    | some value =>
        rw [fault] at first
        have failed : rule.render escape = .error (.unprintable value.kind) := first
        rw [failed]
        rfl
    | none =>
        rw [fault] at first
        obtain ⟨text, written⟩ := first
        rw [written, Option.none_or]
        exact others.map _

end

/-- Writing a term fails for the first foreign value that is met in the order of reading. -/
theorem render_eq_error_of_first {rule : Rule} {front back : List Rule} {value : Foreign}
    (split : rule.preorder = front ++ .foreign value :: back)
    (rulesBefore : ∀ node ∈ front, node.isRule = true) (escape : Bool) :
    rule.render escape = .error (.unprintable value.kind) := by
  have fails := failsFor_render escape rule
  have first : rule.preorder.findSome? foreign? = some value := by
    refine List.findSome?_eq_some_iff.mpr ⟨front, .foreign value, back, split, rfl, ?_⟩
    intro node listed
    exact foreign?_eq_none_iff.mpr (rulesBefore node listed)
  rw [first] at fails
  exact fails

theorem exists_render_iff {rule : Rule} (escape : Bool) :
    (∃ text, rule.render escape = .ok text) ↔ rule.AllRules := by
  have fails := failsFor_render escape rule
  constructor
  · intro writes node inside
    by_contra refused
    have foreignNode : node.foreign? ≠ none := fun none => refused (foreign?_eq_none_iff.mp none)
    cases fault : rule.preorder.findSome? foreign? with
    | none => exact foreignNode (List.findSome?_eq_none_iff.mp fault node inside)
    | some value =>
        rw [fault] at fails
        obtain ⟨text, written⟩ := writes
        cases written.symm.trans fails
  · intro all
    have noFault : rule.preorder.findSome? foreign? = none :=
      List.findSome?_eq_none_iff.mpr fun node inside => foreign?_eq_none_iff.mpr (all node inside)
    rw [noFault] at fails
    exact fails

theorem exists_render_error_iff {rule : Rule} (escape : Bool) :
    (∃ cause, rule.render escape = .error cause) ↔ ∃ node ∈ rule.preorder, node.isRule = false := by
  have writes := rule.exists_render_iff escape
  have someNode : ¬ rule.AllRules ↔ ∃ node ∈ rule.preorder, node.isRule = false := by
    simp [AllRules]
  rw [← someNode, ← writes]
  cases rule.render escape <;> simp

end Rule

/-! ## Terms that combinators make -/

namespace Expr

mutual

/-- Whether an expression makes terms of other terms by combinators only. What a combinator is given may
be a foreign value, which it refuses. -/
def isChecked : Expr → Bool
  | .sequence checked items => checked && areChecked items
  | .choice checked items => checked && areChecked items
  | .between checked body _ _ => checked && isChecked body
  | .zeroOrMore checked body => checked && isChecked body
  | .oneOrMore checked body => checked && isChecked body
  | .optional checked body => checked && isChecked body
  | .probe _ body => isChecked body
  | _ => true

def areChecked : List Expr → Bool
  | [] => true
  | expr :: rest => isChecked expr && areChecked rest

end

/-- A term around one part is a rule throughout if the part, which is checked, is so if it is a rule. -/
theorem allRules_of_checkIf {wrap : Rule → Rule} (inside : ∀ rule, (wrap rule).children = [rule])
    (isRule : ∀ rule, (wrap rule).isRule = true) {result : Except Error Rule} {whole : Rule}
    (made : (do let rule ← result; return wrap (← checkIf true rule)) = .ok whole)
    (part : ∀ rule, result = .ok rule → rule.isRule = true → rule.AllRules) : whole.AllRules := by
  simp only [bind_eq_ok_iff] at made
  obtain ⟨rule, ruleMade, kept, accepted, returned⟩ := made
  cases returned
  obtain ⟨ruleIsRule, rfl⟩ := Rule.check_eq_ok_iff.mp accepted
  rw [Rule.allRules_iff, inside]
  exact ⟨isRule _, List.forall_mem_singleton.mpr (part _ ruleMade ruleIsRule)⟩

theorem allRules_of_checkAllIf {wrap : List Rule → Rule}
    (inside : ∀ rules, (wrap rules).children = rules)
    (isRule : ∀ rules, (wrap rules).isRule = true) {result : Except Error (List Rule)}
    {whole : Rule}
    (made : (do let rules ← result; return wrap (← checkAllIf true rules)) = .ok whole)
    (parts : ∀ rules, result = .ok rules → ∀ rule ∈ rules, rule.isRule = true → rule.AllRules) :
    whole.AllRules := by
  simp only [bind_eq_ok_iff] at made
  obtain ⟨rules, rulesMade, kept, accepted, returned⟩ := made
  cases returned
  obtain ⟨allRules, rfl⟩ := Rule.checkAll_eq_ok_iff.mp accepted
  rw [Rule.allRules_iff, inside]
  refine ⟨isRule _, ?_⟩
  intro rule listed
  exact parts _ rulesMade rule listed (List.all_eq_true.mp allRules rule listed)

variable {answer : Answer}

theorem allRules_of_characterClass {first last : Option Text} {members : Option (List Text)}
    {rule : Rule} (made : Rule.characterClass first last members = .ok rule) : rule.AllRules := by
  unfold Rule.characterClass at made
  split at made <;> cases made <;> exact Rule.allRules_of_leaf rfl rfl

mutual

/-- If the answers to its lookups are rules throughout, so is what an expression makes with
combinators, unless it is a foreign value as a whole. -/
theorem allRules_of_value
    (answers : ∀ access name found, answer access name = .ok found → found.AllRules) :
    (expr : Expr) → expr.isChecked = true → (rule : Rule) → expr.value answer = .ok rule →
      rule.isRule = true → rule.AllRules
  | .literal _, _, _, made, _ => by
    cases made
    exact Rule.allRules_of_leaf rfl rfl
  | .foreign _, _, _, made, isRule => by
    cases made
    cases isRule
  | .reference _, _, _, made, _ => by
    cases made
    exact Rule.allRules_of_leaf rfl rfl
  | .characterClass _ _ _, _, _, made, _ => allRules_of_characterClass made
  | .sequence checked items, held, _, made, _ => by
    obtain ⟨rfl, itemsChecked⟩ := Bool.and_eq_true_iff.mp held
    exact allRules_of_checkAllIf (fun _ => rfl) (fun _ => rfl) made
      (allRules_of_values answers items itemsChecked)
  | .choice checked items, held, _, made, _ => by
    obtain ⟨rfl, itemsChecked⟩ := Bool.and_eq_true_iff.mp held
    exact allRules_of_checkAllIf (fun _ => rfl) (fun _ => rfl) made
      (allRules_of_values answers items itemsChecked)
  | .between checked body _ _, held, _, made, _ => by
    obtain ⟨rfl, bodyChecked⟩ := Bool.and_eq_true_iff.mp held
    simp only [value, bind_eq_ok_iff] at made
    obtain ⟨inner, bodyMade, kept, accepted, bounds, -, returned⟩ := made
    cases returned
    obtain ⟨innerIsRule, rfl⟩ := Rule.check_eq_ok_iff.mp accepted
    exact Rule.allRules_iff.mpr ⟨rfl, List.forall_mem_singleton.mpr
      (allRules_of_value answers body bodyChecked _ bodyMade innerIsRule)⟩
  | .zeroOrMore checked body, held, _, made, _ => by
    obtain ⟨rfl, bodyChecked⟩ := Bool.and_eq_true_iff.mp held
    exact allRules_of_checkIf (fun _ => rfl) (fun _ => rfl) made
      (allRules_of_value answers body bodyChecked)
  | .oneOrMore checked body, held, _, made, _ => by
    obtain ⟨rfl, bodyChecked⟩ := Bool.and_eq_true_iff.mp held
    exact allRules_of_checkIf (fun _ => rfl) (fun _ => rfl) made
      (allRules_of_value answers body bodyChecked)
  | .optional checked body, held, _, made, _ => by
    obtain ⟨rfl, bodyChecked⟩ := Bool.and_eq_true_iff.mp held
    exact allRules_of_checkIf (fun _ => rfl) (fun _ => rfl) made
      (allRules_of_value answers body bodyChecked)
  | .lookup access name, _, rule, made, _ => answers access name rule made
  | .probe _ body, held, rule, made, isRule => allRules_of_value answers body held rule made isRule

theorem allRules_of_values
    (answers : ∀ access name found, answer access name = .ok found → found.AllRules) :
    (exprs : List Expr) → areChecked exprs = true → (rules : List Rule) →
      values answer exprs = .ok rules → ∀ rule ∈ rules, rule.isRule = true → rule.AllRules
  | [], _, _, made => by
    cases made
    exact List.forall_mem_nil _
  | expr :: rest, held, _, made => by
    obtain ⟨exprChecked, restChecked⟩ := Bool.and_eq_true_iff.mp held
    simp only [values, bind_eq_ok_iff] at made
    obtain ⟨first, firstMade, others, othersMade, returned⟩ := made
    cases returned
    exact List.forall_mem_cons.mpr ⟨allRules_of_value answers expr exprChecked first firstMade,
      allRules_of_values answers rest restChecked others othersMade⟩

end

/-- A term that stands alone has no lookups to be answered. -/
theorem allRules_of_build {expr : Expr} {rule : Rule} (held : expr.isChecked = true)
    (made : expr.build = .ok rule) (isRule : rule.isRule = true) : rule.AllRules := by
  rw [build_eq_value] at made
  refine allRules_of_value ?_ expr held rule made isRule
  intro access name found answered
  cases answered

end Expr

/-! ## Grammars that are made with combinators -/

/-- Whether a definition is made with combinators and lookups only: a term is made by itself, and a builder
when it is called. -/
inductive Definition.IsCombined : Definition → Prop where
  | term {expr : Expr} {rule : Rule} :
      expr.isChecked = true → expr.build = .ok rule → IsCombined (.term rule)
  | builder {label : Name} {body : Expr} : body.isChecked = true → IsCombined (.builder label body)

theorem Definition.IsCombined.allRules {definition : Definition} {answer : Answer} {body : Rule}
    (combined : definition.IsCombined)
    (answers : ∀ access name found, answer access name = .ok found → found.AllRules)
    (made : definition.value answer = .ok body) (isRule : body.isRule = true) : body.AllRules := by
  cases combined with
  | term held built =>
      cases made
      exact Expr.allRules_of_build held built isRule
  | builder held => exact Expr.allRules_of_value answers _ held body made isRule

namespace Compiler

variable {compiler : Compiler} {depth : Nat} {path : List Name} {name : Name} {body : Rule}

/-- Whatever a rule comes to, inline or with references, is a rule throughout. -/
theorem allRules_of_expand (combined : ∀ entry ∈ compiler.definitions, entry.2.IsCombined)
    (expanded : compiler.expand depth path name = .ok body) : body.AllRules := by
  induction depth generalizing path name body with
  | zero =>
      unfold expand at expanded
      split at expanded
      · cases expanded
      · cases expanded
  | succ further ih =>
      by_cases underWay : name ∈ path
      · rw [expand_of_mem underWay] at expanded
        cases expanded
      · obtain ⟨definition, defined, -⟩ := lookup_of_mem_names (mem_names_of_expand expanded)
        rw [expand_of_notMem underWay defined] at expanded
        obtain ⟨isRule, made⟩ := make_eq_ok_iff.mp expanded
        refine (combined _ (mem_of_lookup_eq_some defined)).allRules ?_ made isRule
        intro access other found answered
        have otherExpanded := expansion_of_answer answered
        unfold expansions at otherExpanded
        split at otherExpanded
        · exact ih otherExpanded
        · cases otherExpanded
          exact Rule.allRules_of_leaf rfl rfl

theorem allRules_of_expandAll (combined : ∀ entry ∈ compiler.definitions, entry.2.IsCombined)
    {names : List Name} {bodies : List (Name × Rule)}
    (expanded : compiler.expandAll names = .ok bodies) : ∀ entry ∈ bodies, entry.2.AllRules := by
  induction names generalizing bodies with
  | nil =>
      cases expanded
      exact List.forall_mem_nil _
  | cons name rest ih =>
      rw [expandAll] at expanded
      simp only [bind_eq_ok_iff] at expanded
      obtain ⟨body, first, others, restExpanded, returned⟩ := expanded
      cases returned
      exact List.forall_mem_cons.mpr ⟨allRules_of_expand combined first, ih restExpanded⟩

/-- Compiling never fails for want of a notation, whatever has been compiled before. -/
theorem compile_ne_unprintable (combined : ∀ entry ∈ compiler.definitions, entry.2.IsCombined)
    (steps : List Step) (kind : String) :
    (outcome (compiler.perform .compile) (compiler.sessionAfter steps)).1 ≠
      .error (.unprintable kind) := by
  intro failed
  rw [perform_sessionAfter] at failed
  have resolving := compiler.preserving_perform .bodies .start compiler.faithful_nil
  have compiling := compiler.preserving_perform .compile .start compiler.faithful_nil
  have resultEq : compiler.expandAll compiler.names >>= compiler.written =
      .error (.unprintable kind) := compiling.1.symm.trans failed
  cases expanded : compiler.expandAll compiler.names with
  | error cause =>
      rw [expanded] at resultEq
      cases resultEq
      have bodiesFailed : (outcome compiler.bodies .start).1 = .error (.unprintable kind) :=
        resolving.1.trans expanded
      rcases isOfMaking_or_cyclic_of_bodies bodiesFailed with making | ⟨path, name, same⟩
      · cases making
      · cases same
  | ok bodies =>
      rw [expanded] at resultEq
      have notWritten : compiler.written bodies = .error (.unprintable kind) := resultEq
      have each : ∀ entry ∈ bodies, ∃ text,
          entry.2.render compiler.options.escapeLiterals = .ok text := by
        intro entry listed
        exact (Rule.exists_render_iff _).mpr (allRules_of_expandAll combined expanded entry listed)
      obtain ⟨lines, produced⟩ := exists_productions_iff.mpr each
      unfold written at notWritten
      rw [produced] at notWritten
      split at notWritten <;> cases notWritten

end Compiler

/-- Writing a term fails exactly if one of its nodes is no rule, and names the kind of the first such node
in the order of reading. Rules that are made with combinators alone have no such node, so that a grammar of
combinators and lookups never fails to be written, inline or not. -/
theorem render_fails_iff_foreign :
    (∀ escape (rule : Rule), (∃ cause, rule.render escape = .error cause) ↔
      ∃ node ∈ rule.preorder, node.isRule = false) ∧
    (∀ escape (rule : Rule) front value back, rule.preorder = front ++ .foreign value :: back →
      (∀ node ∈ front, node.isRule = true) →
      rule.render escape = .error (.unprintable value.kind) ∧
        (Error.unprintable value.kind).message =
          "Cannot stringify " ++ value.kind ++ ": not a grammar rule") ∧
    (∀ (expr : Expr) rule, expr.isChecked = true → expr.build = .ok rule → rule.isRule = true →
      ∀ node ∈ rule.preorder, node.isRule = true) ∧
    ∀ compiler : Compiler, (∀ entry ∈ compiler.definitions, entry.2.IsCombined) →
      ∀ steps kind, (outcome (compiler.perform .compile) (compiler.sessionAfter steps)).1 ≠
        .error (.unprintable kind) := by
  refine ⟨fun escape rule => rule.exists_render_error_iff escape, ?_, ?_, ?_⟩
  · intro escape rule front value back split rulesBefore
    exact ⟨Rule.render_eq_error_of_first split rulesBefore escape, rfl⟩
  · intro expr rule held made isRule
    exact Expr.allRules_of_build held made isRule
  · intro compiler combined
    exact compiler.compile_ne_unprintable combined

/-- Of two foreign values the one on the left is named; a combinator that is given one refuses it. -/
theorem render_names_first_of_two :
    let whole : Rule := .sequence [.optional (.literal ['x']),
      .choice [.zeroOrMore (.foreign ⟨"bool", .bool true⟩), .foreign ⟨"NoneType", .null⟩]]
    let definitions : Definitions := [
      ("root", .builder "root" (.optional true (.lookup .attribute "leaf"))),
      ("leaf", .builder "leaf" (.sequence true [.literal ['x'], .foreign ⟨"NoneType", .null⟩]))]
    let compiler : Compiler := ⟨definitions, { Options.default with inline := true }⟩
    whole.render false = .error (.unprintable "bool") ∧
      (Error.unprintable "bool").message = "Cannot stringify bool: not a grammar rule" ∧
      (∀ entry ∈ compiler.definitions, entry.2.IsCombined) ∧
      (∀ steps kind, (outcome (compiler.perform .compile) (compiler.sessionAfter steps)).1 ≠
        .error (.unprintable kind)) ∧
      (outcome compiler.compile .start).1 = .error (.notRule "NoneType") := by
  intro whole definitions compiler
  have combined : ∀ entry ∈ compiler.definitions, entry.2.IsCombined := by
    simp only [compiler, definitions, List.forall_mem_cons]
    exact ⟨.builder rfl, .builder rfl, List.forall_mem_nil _⟩
  obtain ⟨-, firstNamed, -, never⟩ := render_fails_iff_foreign
  have split : whole.preorder = [whole, .optional (.literal ['x']), .literal ['x'],
      .choice [.zeroOrMore (.foreign ⟨"bool", .bool true⟩), .foreign ⟨"NoneType", .null⟩],
      .zeroOrMore (.foreign ⟨"bool", .bool true⟩)] ++ .foreign ⟨"bool", .bool true⟩ :: [.foreign ⟨"NoneType", .null⟩] := rfl
  obtain ⟨failed, messageEq⟩ := firstNamed false whole _ _ _ split (by simp [whole, Rule.isRule])
  exact ⟨failed, messageEq, combined, never compiler combined, by cbv⟩

end Tessera.Grammar
