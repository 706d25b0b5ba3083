import Mathlib.Data.List.Chain
import Mathlib.Data.List.Nodup
import Mathlib.Data.List.Perm.Subperm
import Mathlib.Logic.Relation
import Tessera.Proofs.Grammar.Resolution

/-!
# Lookups and references

How deep lookups go, which rules look up which, and which names the rules mention.
-/

set_option autoImplicit false

/-! ## The depth of resolution

The rules that are under way are different rules of the grammar, so there is an end to them. A depth as
great as the number of rules is never used up, and a greater one changes nothing.
-/

namespace Tessera.Grammar.Compiler

variable {compiler : Compiler} {path : List Name} {name : Name}

/-- While a rule is not under way itself, fewer rules are under way than there are. -/
theorem length_path_lt (nodup : path.Nodup) (inside : path ⊆ compiler.names)
    (defined : name ∈ compiler.names) (outside : name ∉ path) :
    path.length < compiler.definitions.length := by
  have distinct : (name :: path).Nodup := List.nodup_cons.mpr ⟨outside, nodup⟩
  have bounded := (distinct.subperm (List.cons_subset.mpr ⟨defined, inside⟩)).length_le
  rwa [List.length_cons, names, Definitions.names, List.length_map] at bounded

theorem under_way_append (nodup : path.Nodup) (inside : path ⊆ compiler.names)
    (defined : name ∈ compiler.names) (outside : name ∉ path) :
    (path ++ [name]).Nodup ∧ path ++ [name] ⊆ compiler.names :=
  ⟨List.concat_eq_append ▸ List.Nodup.concat outside nodup,
    List.append_subset.mpr ⟨inside, List.cons_subset.mpr ⟨defined, List.nil_subset _⟩⟩⟩

theorem find_congr {resolve other : Name → Run Rule}
    (same : ∀ name ∈ compiler.names, resolve name = other name) :
    compiler.find resolve = compiler.find other := by
  funext access name
  have subscript : (if compiler.names.contains name then resolve name
        else throw (.unknownRule .subscript name compiler.names)) =
      if compiler.names.contains name then other name
        else throw (.unknownRule .subscript name compiler.names) := by
    split
    · next defined => exact same name (List.contains_iff_mem.mp defined)
    · rfl
  simp only [find, subscript]

theorem evaluate_congr {resolve other : Name → Run Rule}
    (same : ∀ name ∈ compiler.names, resolve name = other name) (name : Name)
    (definition : Definition) :
    compiler.evaluate resolve name definition = compiler.evaluate other name definition := by
  cases definition with
  | term rule => cases rule <;> rfl
  | builder label body => simp only [evaluate, find_congr same]

/-- A depth that leaves room for all rules that are not under way is as good as any other. -/
theorem resolveWithin_eq {depth depth' : Nat} (nodup : path.Nodup)
    (inside : path ⊆ compiler.names) (defined : name ∈ compiler.names)
    (enough : compiler.definitions.length ≤ depth + path.length)
    (enough' : compiler.definitions.length ≤ depth' + path.length) :
    compiler.resolveWithin depth path name = compiler.resolveWithin depth' path name := by
  induction depth generalizing depth' path name with
  | zero =>
      have underWay : name ∈ path := by
        by_contra outside
        have := length_path_lt nodup inside defined outside
        omega
      unfold resolveWithin
      simp only [List.contains_iff_mem.mpr underWay, ↓reduceIte]
  | succ further ih =>
      by_cases underWay : name ∈ path
      · unfold resolveWithin
        simp only [List.contains_iff_mem.mpr underWay, ↓reduceIte]
      · have room := length_path_lt nodup inside defined underWay
        obtain ⟨further', rfl⟩ : ∃ further', depth' = further' + 1 :=
          Nat.exists_eq_succ_of_ne_zero (by omega)
        obtain ⟨definition, found, -⟩ := lookup_of_mem_names defined
        have same : ∀ other ∈ compiler.names, compiler.resolver further (path ++ [name]) other =
            compiler.resolver further' (path ++ [name]) other := by
          intro other listed
          unfold resolver
          split
          · obtain ⟨longerNodup, longerInside⟩ :=
              under_way_append nodup inside defined underWay
            refine ih longerNodup longerInside listed ?_ ?_ <;>
              simp only [List.length_append, List.length_singleton] <;> omega
          · rfl
        have evaluating := evaluate_congr same name definition
        unfold resolver at evaluating
        unfold resolveWithin
        simp only [found, evaluating]

end Tessera.Grammar.Compiler

/-! ## Which rules look up which

The definitions of a grammar make up a graph: a rule leads to the rules that its builder looks up,
whatever the builder makes of them. A rule is ground if no way through the graph goes on forever from
there; then it lies on no cycle.
-/

namespace Tessera.Grammar

open Tessera.Computation

mutual

def Expr.lookups : Expr → List Name
  | .sequence _ items => lookupsAll items
  | .choice _ items => lookupsAll items
  | .between _ body _ _ => lookups body
  | .zeroOrMore _ body => lookups body
  | .oneOrMore _ body => lookups body
  | .optional _ body => lookups body
  | .lookup _ name => [name]
  | .probe _ body => lookups body
  | _ => []

def Expr.lookupsAll : List Expr → List Name
  | [] => []
  | expr :: rest => lookups expr ++ lookupsAll rest

end

def Definition.lookups : Definition → List Name
  | .term _ => []
  | .builder _ body => body.lookups

section

variable {answer : Answer} {name : Name}

mutual

/-- An expression makes a rule only if all its lookups are answered. -/
theorem Expr.exists_answer_of_value : (expr : Expr) → {rule : Rule} →
    expr.value answer = .ok rule → name ∈ expr.lookups →
    ∃ access found, answer access name = .ok found
  | .literal _, _, _, listed => by cases listed
  | .foreign _, _, _, listed => by cases listed
  | .reference _, _, _, listed => by cases listed
  | .characterClass _ _ _, _, _, listed => by cases listed
  | .sequence _ items, _, made, listed => by
    obtain ⟨rules, itemsMade, -⟩ := bind_eq_ok_iff.mp made
    exact exists_answer_of_values items itemsMade listed
  | .choice _ items, _, made, listed => by
    obtain ⟨rules, itemsMade, -⟩ := bind_eq_ok_iff.mp made
    exact exists_answer_of_values items itemsMade listed
  | .between _ body _ _, _, made, listed => by
    obtain ⟨rule, bodyMade, -⟩ := bind_eq_ok_iff.mp made
    exact exists_answer_of_value body bodyMade listed
  | .zeroOrMore _ body, _, made, listed => by
    obtain ⟨rule, bodyMade, -⟩ := bind_eq_ok_iff.mp made
    exact exists_answer_of_value body bodyMade listed
  | .oneOrMore _ body, _, made, listed => by
    obtain ⟨rule, bodyMade, -⟩ := bind_eq_ok_iff.mp made
    exact exists_answer_of_value body bodyMade listed
  | .optional _ body, _, made, listed => by
    obtain ⟨rule, bodyMade, -⟩ := bind_eq_ok_iff.mp made
    exact exists_answer_of_value body bodyMade listed
  | .lookup access _, rule, made, listed => by
    cases List.mem_singleton.mp listed
    exact ⟨access, rule, made⟩
  | .probe _ body, _, made, listed => exists_answer_of_value body made listed

theorem Expr.exists_answer_of_values : (exprs : List Expr) → {rules : List Rule} →
    Expr.values answer exprs = .ok rules → name ∈ Expr.lookupsAll exprs →
    ∃ access found, answer access name = .ok found
  | [], _, _, listed => by cases listed
  | expr :: rest, _, made, listed => by
    obtain ⟨rule, exprMade, othersMade⟩ := bind_eq_ok_iff.mp made
    obtain ⟨rules, restMade, -⟩ := bind_eq_ok_iff.mp othersMade
    rcases List.mem_append.mp listed with here | later
    · exact exists_answer_of_value expr exprMade here
    · exact exists_answer_of_values rest restMade later

end

theorem Definition.exists_answer_of_value {definition : Definition} {rule : Rule}
    (made : definition.value answer = .ok rule) (listed : name ∈ definition.lookups) :
    ∃ access found, answer access name = .ok found := by
  cases definition with
  | term written => cases listed
  | builder label body => exact body.exists_answer_of_value made listed

end

namespace Compiler

def LooksUp (compiler : Compiler) (name other : Name) : Prop :=
  ∃ definition, compiler.definitions.lookup name = some definition ∧ other ∈ definition.lookups

def HasCycle (compiler : Compiler) : Prop := ∃ name, Relation.TransGen compiler.LooksUp name name

/-- A way through the graph that comes back to one of the rules on it, and to no other before. -/
structure IsReturning (compiler : Compiler) (path : List Name) (name : Name) : Prop where
  chain : (path ++ [name]).IsChain compiler.LooksUp
  nodup : path.Nodup
  returns : name ∈ path

def IsGround (compiler : Compiler) : Name → Prop := Acc fun other name => compiler.LooksUp name other

variable {compiler : Compiler} {name other : Name}

theorem LooksUp.mem_names (looksUp : compiler.LooksUp name other) : name ∈ compiler.names := by
  obtain ⟨definition, defined, -⟩ := looksUp
  exact List.mem_map_of_mem (mem_of_lookup_eq_some defined)

theorem isGround_of_lookups {definition : Definition}
    (defined : compiler.definitions.lookup name = some definition)
    (ground : ∀ other ∈ definition.lookups, compiler.IsGround other) : compiler.IsGround name := by
  refine Acc.intro name ?_
  rintro other ⟨_, sameDefined, member⟩
  rw [defined] at sameDefined
  cases sameDefined
  exact ground other member

theorem IsGround.not_cycle (ground : compiler.IsGround name) :
    ¬ Relation.TransGen compiler.LooksUp name name := by
  induction ground with
  | intro name _ ih =>
      intro cycle
      obtain ⟨next, looksUp, back⟩ := Relation.TransGen.head'_iff.mp cycle
      exact ih next looksUp (.tail' back looksUp)

theorem not_hasCycle_of_ground (ground : ∀ name ∈ compiler.names, compiler.IsGround name) :
    ¬ compiler.HasCycle := by
  rintro ⟨name, cycle⟩
  obtain ⟨_, looksUp, -⟩ := Relation.TransGen.head'_iff.mp cycle
  exact (ground name looksUp.mem_names).not_cycle cycle

theorem chain_append {path : List Name} (chain : (path ++ [name]).IsChain compiler.LooksUp)
    (looksUp : compiler.LooksUp name other) :
    (path ++ [name] ++ [other]).IsChain compiler.LooksUp :=
  List.isChain_append.mpr ⟨chain, .singleton other, by simpa using looksUp⟩

theorem transGen_of_chain {names : List Name}
    (chain : (name :: names ++ [other]).IsChain compiler.LooksUp) :
    Relation.TransGen compiler.LooksUp name other := by
  induction names generalizing name with
  | nil => exact .single (List.isChain_cons_cons.mp chain).1
  | cons next rest ih =>
      obtain ⟨looksUp, further⟩ := List.isChain_cons_cons.mp chain
      exact .head looksUp (ih further)

theorem IsReturning.hasCycle {path : List Name} (returning : compiler.IsReturning path name) :
    compiler.HasCycle := by
  obtain ⟨front, back, rfl⟩ := List.append_of_mem returning.returns
  have chain := returning.chain
  rw [List.append_assoc] at chain
  exact ⟨name, transGen_of_chain chain.right_of_append⟩

end Compiler

/-! ## The names that rules mention

A rule mentions the names of the references in it. Those in the rule of a definition are spelled out
there, or come with the answers to its lookups.
-/

/-! ### References in rules -/

namespace Rule

inductive Mentions (name : Name) : Rule → Prop
  | here : Mentions name (.reference name)
  | inside {rule part : Rule} (member : part ∈ rule.children) (further : Mentions name part) :
      Mentions name rule

variable {name : Name} {rule : Rule}

theorem mentions_iff :
    rule.Mentions name ↔ rule = .reference name ∨ ∃ part ∈ rule.children, part.Mentions name := by
  constructor
  · intro mentions
    cases mentions with
    | here => exact .inl rfl
    | inside member further => exact .inr ⟨_, member, further⟩
  · intro casesOf
    rcases casesOf with rfl | ⟨part, member, further⟩
    · exact .here
    · exact .inside member further

theorem mem_noteReference_iff {seen : List Name} :
    name ∈ noteReference seen rule ↔ name ∈ seen ∨ rule = .reference name := by
  cases rule with
  | reference other =>
      simp only [noteReference, reference.injEq]
      by_cases known : seen.contains other = true
      · rw [if_pos known]
        constructor
        · exact .inl
        · rintro (member | rfl)
          · exact member
          · exact List.contains_iff_mem.mp known
      · rw [if_neg known, List.mem_append, List.mem_singleton, eq_comm]
  | _ => simp [noteReference]

theorem mem_collectReferences_iff {seen : List Name} {waiting : List Rule} :
    name ∈ collectReferences seen waiting ↔
      name ∈ seen ∨ ∃ rule ∈ waiting, rule.Mentions name := by
  induction seen, waiting using collectReferences.induct with
  | case1 seen => simp [collectReferences]
  | case2 seen rule waiting ih =>
      rw [collectReferences, ih, mem_noteReference_iff, or_assoc]
      refine or_congr_right ?_
      -- A rule that is taken off the stack leaves its parts there.
      constructor
      · rintro (rfl | ⟨part, member, mentions⟩)
        · exact ⟨_, .head _, .here⟩
        · rcases List.mem_append.mp member with child | later
          · exact ⟨rule, .head _, .inside child mentions⟩
          · exact ⟨part, .tail _ later, mentions⟩
      · rintro ⟨other, member, mentions⟩
        rcases List.mem_cons.mp member with rfl | later
        · rcases mentions_iff.mp mentions with here | ⟨part, child, further⟩
          · exact .inl here
          · exact .inr ⟨part, List.mem_append_left _ child, further⟩
        · exact .inr ⟨other, List.mem_append_right _ later, mentions⟩

theorem mem_references_iff : name ∈ rule.references ↔ rule.Mentions name := by
  simp [references, mem_collectReferences_iff]

end Rule

/-! ### References in definitions -/

mutual

/-- The names of the references that an expression has of its own. -/
def Expr.spelled : Expr → List Name
  | .reference name => [name]
  | .sequence _ items => spelledInAll items
  | .choice _ items => spelledInAll items
  | .between _ body _ _ => spelled body
  | .zeroOrMore _ body => spelled body
  | .oneOrMore _ body => spelled body
  | .optional _ body => spelled body
  | .probe _ body => spelled body
  | _ => []

def Expr.spelledInAll : List Expr → List Name
  | [] => []
  | expr :: rest => spelled expr ++ spelledInAll rest

end

def Definition.spelled : Definition → List Name
  | .term rule => rule.references
  | .builder _ body => body.spelled

namespace Expr

theorem eq_of_checkIf {checked : Bool} {rule kept : Rule}
    (accepted : checkIf checked rule = .ok kept) : kept = rule := by
  cases checked with
  | false => exact (Except.ok.inj accepted).symm
  | true => exact (Rule.check_eq_ok_iff.mp accepted).2

theorem eq_of_checkAllIf {checked : Bool} {rules kept : List Rule}
    (accepted : checkAllIf checked rules = .ok kept) : kept = rules := by
  cases checked with
  | false => exact (Except.ok.inj accepted).symm
  | true => exact (Rule.checkAll_eq_ok_iff.mp accepted).2

theorem not_mentions_of_characterClass {first last : Option Text} {members : Option (List Text)}
    {rule : Rule} {name : Name} (made : Rule.characterClass first last members = .ok rule) :
    ¬ rule.Mentions name := by
  rw [Rule.mentions_iff]
  unfold Rule.characterClass at made
  split at made <;> cases made <;> simp [Rule.children]

variable {name : Name}

theorem mentions_checkIf_iff {wrap : Rule → Rule} (inside : ∀ rule, (wrap rule).children = [rule])
    {checked : Bool} {result : Except Error Rule} {whole : Rule} {brought : Prop}
    (made : (do let rule ← result; return wrap (← checkIf checked rule)) = .ok whole)
    (part : ∀ rule, result = .ok rule → (rule.Mentions name ↔ brought)) :
    whole.Mentions name ↔ brought := by
  simp only [bind_eq_ok_iff] at made
  obtain ⟨rule, ruleMade, kept, accepted, returned⟩ := made
  cases returned
  have noReference : wrap rule ≠ .reference name := by
    intro same
    have children := inside rule
    rw [same] at children
    cases children
  rw [eq_of_checkIf accepted, Rule.mentions_iff, inside]
  simp [noReference, part rule ruleMade]

theorem mentions_checkAllIf_iff {wrap : List Rule → Rule}
    (inside : ∀ rules, (wrap rules).children = rules)
    (noReference : ∀ rules, wrap rules ≠ .reference name) {checked : Bool}
    {result : Except Error (List Rule)} {whole : Rule} {brought : Prop}
    (made : (do let rules ← result; return wrap (← checkAllIf checked rules)) = .ok whole)
    (parts : ∀ rules, result = .ok rules → ((∃ rule ∈ rules, rule.Mentions name) ↔ brought)) :
    whole.Mentions name ↔ brought := by
  simp only [bind_eq_ok_iff] at made
  obtain ⟨rules, rulesMade, kept, accepted, returned⟩ := made
  cases returned
  rw [eq_of_checkAllIf accepted, Rule.mentions_iff, inside]
  simp [noReference, parts rules rulesMade]

variable {answer : Answer} {brings : Name → Prop}

mutual

theorem mentions_value_iff
    (answers : ∀ access other found, answer access other = .ok found →
      (found.Mentions name ↔ brings other)) :
    (expr : Expr) → (rule : Rule) → expr.value answer = .ok rule →
      (rule.Mentions name ↔ name ∈ expr.spelled ∨ ∃ other ∈ expr.lookups, brings other)
  | .literal _, _, made => by
    cases made
    rw [Rule.mentions_iff]
    simp [Rule.children, spelled, lookups]
  | .foreign _, _, made => by
    cases made
    rw [Rule.mentions_iff]
    simp [Rule.children, spelled, lookups]
  | .reference other, _, made => by
    cases made
    rw [Rule.mentions_iff]
    simp [Rule.children, spelled, lookups, eq_comm]
  | .characterClass _ _ _, _, made => by
    simp [not_mentions_of_characterClass made, spelled, lookups]
  | .sequence _ items, _, made =>
    mentions_checkAllIf_iff (fun _ => rfl) (by simp) made (mentions_values_iff answers items)
  | .choice _ items, _, made =>
    mentions_checkAllIf_iff (fun _ => rfl) (by simp) made (mentions_values_iff answers items)
  | .between _ body _ _, _, made => by
    simp only [value, bind_eq_ok_iff] at made
    obtain ⟨inner, bodyMade, kept, accepted, bounds, -, returned⟩ := made
    cases returned
    rw [eq_of_checkIf accepted, Rule.mentions_iff]
    simpa [Rule.children, spelled, lookups] using mentions_value_iff answers body inner bodyMade
  | .zeroOrMore _ body, _, made =>
    mentions_checkIf_iff (fun _ => rfl) made (mentions_value_iff answers body)
  | .oneOrMore _ body, _, made =>
    mentions_checkIf_iff (fun _ => rfl) made (mentions_value_iff answers body)
  | .optional _ body, _, made =>
    mentions_checkIf_iff (fun _ => rfl) made (mentions_value_iff answers body)
  | .lookup access other, rule, made => by
    simpa [spelled, lookups] using answers access other rule made
  | .probe _ body, rule, made => mentions_value_iff answers body rule made

theorem mentions_values_iff
    (answers : ∀ access other found, answer access other = .ok found →
      (found.Mentions name ↔ brings other)) :
    (exprs : List Expr) → (rules : List Rule) → values answer exprs = .ok rules →
      ((∃ rule ∈ rules, rule.Mentions name) ↔
        name ∈ spelledInAll exprs ∨ ∃ other ∈ lookupsAll exprs, brings other)
  | [], _, made => by
    cases made
    simp [spelledInAll, lookupsAll]
  | expr :: rest, _, made => by
    simp only [values, bind_eq_ok_iff] at made
    obtain ⟨rule, exprMade, rules, restMade, returned⟩ := made
    cases returned
    have first := mentions_value_iff answers expr rule exprMade
    have others := mentions_values_iff answers rest rules restMade
    simp only [List.mem_cons, or_and_right, exists_or, exists_eq_left, first, others, spelledInAll,
      lookupsAll, List.mem_append]
    exact or_or_or_comm

end

end Expr

theorem Definition.mentions_value_iff {answer : Answer} {name : Name} {brings : Name → Prop}
    (answers : ∀ access other found, answer access other = .ok found →
      (found.Mentions name ↔ brings other))
    {definition : Definition} {rule : Rule} (made : definition.value answer = .ok rule) :
    rule.Mentions name ↔
      name ∈ definition.spelled ∨ ∃ other ∈ definition.lookups, brings other := by
  cases definition with
  | term written =>
      cases made
      simp [spelled, lookups, Rule.mem_references_iff]
  | builder label body => exact body.mentions_value_iff answers rule made

end Tessera.Grammar
