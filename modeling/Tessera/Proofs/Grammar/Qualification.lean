import Mathlib
import Tessera.Proofs.Grammar.LookupGraph
import Tessera.Proofs.Grammar.ProductionLines
import Tessera.Proofs.Grammar.UndefinedReferences

/-!
# Qualifiers

What a qualifier changes: the names of productions, and the references that lookups bring in.
-/

set_option autoImplicit false

/-! ## Renamed lookups

A term that a builder makes has references of two origins, which look the same in it: those that
lookups have brought in, and those that are spelled out. Renaming the first alone goes by the
expression that has made the term, and gives what the expression makes when the lookups are answered
with the new names.
-/

namespace Tessera.Grammar

open Tessera.Computation

/-! ### Renaming what lookups bring in -/

mutual

/-- A rule that an expression has made, with the references that its lookups have brought in renamed.
The expression tells where they are: another reference of the same name stays. -/
def Expr.renameLookups (rename : Name → Name) : Expr → Rule → Rule
  | .lookup _ name, _ => .reference (rename name)
  | .sequence _ items, .sequence rules => .sequence (renameLookupsAll rename items rules)
  | .choice _ items, .choice rules => .choice (renameLookupsAll rename items rules)
  | .between _ body _ _, .between rule bounds => .between (renameLookups rename body rule) bounds
  | .zeroOrMore _ body, .zeroOrMore rule => .zeroOrMore (renameLookups rename body rule)
  | .oneOrMore _ body, .oneOrMore rule => .oneOrMore (renameLookups rename body rule)
  | .optional _ body, .optional rule => .optional (renameLookups rename body rule)
  | .probe _ body, rule => renameLookups rename body rule
  | _, rule => rule

def Expr.renameLookupsAll (rename : Name → Name) : List Expr → List Rule → List Rule
  | expr :: exprs, rule :: rules =>
    renameLookups rename expr rule :: renameLookupsAll rename exprs rules
  | _, rules => rules

end

def Definition.renameLookups (rename : Name → Name) : Definition → Rule → Rule
  | .term _, rule => rule
  | .builder _ body, rule => body.renameLookups rename rule

/-- Answers that are all rules, and other answers that are references under new names instead. -/
def Renames (rename : Name → Name) (answer other : Answer) : Prop :=
  ∀ access name rule, answer access name = .ok rule →
    rule.isRule = true ∧ other access name = .ok (.reference (rename name))

namespace Expr

variable {rename : Name → Name} {answer other : Answer}

theorem checkIf_eq_self {checked : Bool} {rule renamed : Rule}
    (same : renamed.isRule = rule.isRule) (accepted : checkIf checked rule = .ok rule) :
    checkIf checked renamed = .ok renamed := by
  obtain ⟨kept, keptAccepted, -⟩ := follows_checkIf same rule accepted
  rw [keptAccepted, eq_of_checkIf keptAccepted]

theorem checkAllIf_eq_self {checked : Bool} {rules renamed : List Rule}
    (same : renamed.map Rule.isRule = rules.map Rule.isRule)
    (accepted : checkAllIf checked rules = .ok rules) :
    checkAllIf checked renamed = .ok renamed := by
  obtain ⟨kept, keptAccepted, -⟩ := follows_checkAllIf same rules accepted
  rw [keptAccepted, eq_of_checkAllIf keptAccepted]

/-- A part that is checked and put into a rule can be renamed before, if the check allows it. -/
theorem exists_part_of_made {α : Type} {check : α → Except Error α} {renamed : α → α}
    {first second : Except Error α} {next : α → Except Error Rule} {whole : Rule}
    (keeps : ∀ part kept, check part = .ok kept → kept = part)
    (made : (do let part ← first; let part ← check part; next part) = .ok whole)
    (remade : ∀ part, first = .ok part → second = .ok (renamed part) ∧
      (check part = .ok part → check (renamed part) = .ok (renamed part))) :
    ∃ part, next part = .ok whole ∧
      ∀ further : α → Except Error Rule,
        (do let part ← second; let part ← check part; further part) = further (renamed part) := by
  simp only [bind_eq_ok_iff] at made
  obtain ⟨part, partMade, kept, accepted, wholeMade⟩ := made
  cases keeps part kept accepted
  obtain ⟨secondMade, allowed⟩ := remade part partMade
  refine ⟨part, wholeMade, fun further => ?_⟩
  rw [secondMade]
  change (check (renamed part) >>= further) = _
  rw [allowed accepted]
  rfl

theorem exists_part_of_checkIf {checked : Bool} {renamed : Rule → Rule}
    {first second : Except Error Rule} {next : Rule → Except Error Rule} {whole : Rule}
    (made : (do let rule ← first; let rule ← checkIf checked rule; next rule) = .ok whole)
    (remade : ∀ rule, first = .ok rule →
      second = .ok (renamed rule) ∧ (renamed rule).isRule = rule.isRule) :
    ∃ rule, next rule = .ok whole ∧
      ∀ further : Rule → Except Error Rule,
        (do let rule ← second; let rule ← checkIf checked rule; further rule) =
          further (renamed rule) :=
  exists_part_of_made (fun _ _ => eq_of_checkIf) made fun rule ruleMade =>
    ⟨(remade rule ruleMade).1, checkIf_eq_self (remade rule ruleMade).2⟩

theorem exists_parts_of_checkAllIf {checked : Bool} {renamed : List Rule → List Rule}
    {first second : Except Error (List Rule)} {next : List Rule → Except Error Rule} {whole : Rule}
    (made : (do let rules ← first; let rules ← checkAllIf checked rules; next rules) = .ok whole)
    (remade : ∀ rules, first = .ok rules → second = .ok (renamed rules) ∧
      (renamed rules).map Rule.isRule = rules.map Rule.isRule) :
    ∃ rules, next rules = .ok whole ∧
      ∀ further : List Rule → Except Error Rule,
        (do let rules ← second; let rules ← checkAllIf checked rules; further rules) =
          further (renamed rules) :=
  exists_part_of_made (fun _ _ => eq_of_checkAllIf) made fun rules rulesMade =>
    ⟨(remade rules rulesMade).1, checkAllIf_eq_self (remade rules rulesMade).2⟩

mutual

/-- With other names for answers, an expression makes the same rule but for these names. -/
theorem value_renameLookups (renames : Renames rename answer other) :
    (expr : Expr) → (rule : Rule) → expr.value answer = .ok rule →
      expr.value other = .ok (expr.renameLookups rename rule) ∧
        (expr.renameLookups rename rule).isRule = rule.isRule
  | .literal _, _, made => ⟨made, rfl⟩
  | .foreign _, _, made => ⟨made, rfl⟩
  | .reference _, _, made => ⟨made, rfl⟩
  | .characterClass _ _ _, _, made => ⟨made, rfl⟩
  | .sequence _ items, _, made => by
    obtain ⟨rules, returned, remade⟩ :=
      exists_parts_of_checkAllIf made (values_renameLookups renames items)
    cases returned
    exact ⟨remade fun rules => .ok (.sequence rules), rfl⟩
  | .choice _ items, _, made => by
    obtain ⟨rules, returned, remade⟩ :=
      exists_parts_of_checkAllIf made (values_renameLookups renames items)
    cases returned
    exact ⟨remade fun rules => .ok (.choice rules), rfl⟩
  | .between _ body least greatest, _, made => by
    obtain ⟨rule, bounded, remade⟩ := exists_part_of_checkIf made (value_renameLookups renames body)
    obtain ⟨bounds, boundsMade, returned⟩ := bind_eq_ok_iff.mp bounded
    cases returned
    have boundedRemade :=
      remade fun rule => do return .between rule (← Bounds.ofIntegers least greatest)
    refine ⟨boundedRemade.trans ?_, rfl⟩
    rw [boundsMade]
    rfl
  | .zeroOrMore _ body, _, made => by
    obtain ⟨rule, returned, remade⟩ := exists_part_of_checkIf made (value_renameLookups renames body)
    cases returned
    exact ⟨remade fun rule => .ok (.zeroOrMore rule), rfl⟩
  | .oneOrMore _ body, _, made => by
    obtain ⟨rule, returned, remade⟩ := exists_part_of_checkIf made (value_renameLookups renames body)
    cases returned
    exact ⟨remade fun rule => .ok (.oneOrMore rule), rfl⟩
  | .optional _ body, _, made => by
    obtain ⟨rule, returned, remade⟩ := exists_part_of_checkIf made (value_renameLookups renames body)
    cases returned
    exact ⟨remade fun rule => .ok (.optional rule), rfl⟩
  | .lookup access name, rule, made => by
    obtain ⟨accepted, renamed⟩ := renames access name rule made
    exact ⟨renamed, accepted.symm⟩
  | .probe _ body, rule, made => value_renameLookups renames body rule made

theorem values_renameLookups (renames : Renames rename answer other) :
    (exprs : List Expr) → (rules : List Rule) → values answer exprs = .ok rules →
      values other exprs = .ok (renameLookupsAll rename exprs rules) ∧
        (renameLookupsAll rename exprs rules).map Rule.isRule = rules.map Rule.isRule
  | [], _, made => by
    cases made
    exact ⟨rfl, rfl⟩
  | expr :: rest, _, made => by
    simp only [values, bind_eq_ok_iff] at made
    obtain ⟨rule, exprMade, rules, restMade, returned⟩ := made
    cases returned
    obtain ⟨exprRemade, same⟩ := value_renameLookups renames expr rule exprMade
    obtain ⟨restRemade, allSame⟩ := values_renameLookups renames rest rules restMade
    refine ⟨?_, by rw [renameLookupsAll, List.map_cons, List.map_cons, same, allSame]⟩
    simp only [values, exprRemade, restRemade, renameLookupsAll]
    rfl

end

end Expr

theorem Definition.value_renameLookups {rename : Name → Name} {answer other : Answer}
    (renames : Renames rename answer other) {definition : Definition} {rule : Rule}
    (made : definition.value answer = .ok rule) :
    definition.value other = .ok (definition.renameLookups rename rule) ∧
      (definition.renameLookups rename rule).isRule = rule.isRule := by
  cases definition with
  | term written => exact ⟨made, rfl⟩
  | builder label body => exact body.value_renameLookups renames rule made

/-! ### Writing what is renamed -/

section

variable {rename : Name → Name} {escape : Bool}

mutual

/-- A rule that can be written can be written under other names. -/
theorem Expr.exists_render_renameLookups : (expr : Expr) → (rule : Rule) → {text : Text} →
    rule.render escape = .ok text →
    ∃ renamed, (expr.renameLookups rename rule).render escape = .ok renamed
  | .literal _, _, _, rendered => ⟨_, rendered⟩
  | .foreign _, _, _, rendered => ⟨_, rendered⟩
  | .reference _, _, _, rendered => ⟨_, rendered⟩
  | .characterClass _ _ _, _, _, rendered => ⟨_, rendered⟩
  | .sequence _ items, rule, _, rendered => by
    cases rule with
    | sequence rules =>
        exact exists_map_eq_ok rendered fun _ => exists_renderAll_renameLookups items rules
    | _ => exact ⟨_, rendered⟩
  | .choice _ items, rule, _, rendered => by
    cases rule with
    | choice rules =>
        exact exists_map_eq_ok rendered fun _ => exists_renderAll_renameLookups items rules
    | _ => exact ⟨_, rendered⟩
  | .between _ body _ _, rule, _, rendered => by
    cases rule with
    | between inner bounds =>
        exact exists_map_eq_ok rendered fun _ => exists_render_renameLookups body inner
    | _ => exact ⟨_, rendered⟩
  | .zeroOrMore _ body, rule, _, rendered => by
    cases rule with
    | zeroOrMore inner =>
        exact exists_map_eq_ok rendered fun _ => exists_render_renameLookups body inner
    | _ => exact ⟨_, rendered⟩
  | .oneOrMore _ body, rule, _, rendered => by
    cases rule with
    | oneOrMore inner =>
        exact exists_map_eq_ok rendered fun _ => exists_render_renameLookups body inner
    | _ => exact ⟨_, rendered⟩
  | .optional _ body, rule, _, rendered => by
    cases rule with
    | optional inner =>
        exact exists_map_eq_ok rendered fun _ => exists_render_renameLookups body inner
    | _ => exact ⟨_, rendered⟩
  | .lookup _ _, _, _, _ => ⟨_, rfl⟩
  | .probe _ body, rule, _, rendered => exists_render_renameLookups body rule rendered

theorem Expr.exists_renderAll_renameLookups : (exprs : List Expr) → (rules : List Rule) →
    {texts : List Text} → Rule.renderAll escape rules = .ok texts →
    ∃ renamed, Rule.renderAll escape (renameLookupsAll rename exprs rules) = .ok renamed
  | [], [], _, rendered => ⟨_, rendered⟩
  | [], _ :: _, _, rendered => ⟨_, rendered⟩
  | _ :: _, [], _, rendered => ⟨_, rendered⟩
  | expr :: exprs, rule :: rules, _, rendered => by
    obtain ⟨text, others, ruleRendered, rulesRendered, -⟩ :=
      Rule.renderAll_cons_eq_ok_iff.mp rendered
    obtain ⟨first, firstRendered⟩ := exists_render_renameLookups expr rule ruleRendered
    obtain ⟨rest, restRendered⟩ := exists_renderAll_renameLookups exprs rules rulesRendered
    exact ⟨_, Rule.renderAll_cons_eq_ok_iff.mpr ⟨first, rest, firstRendered, restRendered, rfl⟩⟩

end

theorem Definition.exists_render_renameLookups (definition : Definition) {rule : Rule} {text : Text}
    (rendered : rule.render escape = .ok text) :
    ∃ renamed, (definition.renameLookups rename rule).render escape = .ok renamed := by
  cases definition with
  | term written => exact ⟨text, rendered⟩
  | builder label body => exact body.exists_render_renameLookups rule rendered

end

/-! ## Qualified grammars

A qualifier goes before the names of the productions, and before the names of the references that
builders are given. References that a definition spells out are names of productions as they are, so
that a qualifier leaves them alone; where builders are given bodies, it leaves all of a body alone.
-/

/-! ### Other qualifiers -/

namespace Compiler

variable {compiler : Compiler} {bodies : List (Name × Rule)} {text : Text} {after : Session}

def withQualifier (compiler : Compiler) (qualifier : String) : Compiler :=
  { compiler with options := { compiler.options with qualifier := qualifier } }

/-- Bodies with the references renamed that the builders of their rules have looked up. -/
def renameLookups (compiler : Compiler) (rename : Name → Name) (bodies : List (Name × Rule)) :
    List (Name × Rule) :=
  bodies.map fun entry =>
    (entry.1, match compiler.definitions.lookup entry.1 with
      | some definition => definition.renameLookups rename entry.2
      | none => entry.2)

theorem productionName_eq_self {options : Options} (unqualified : options.qualifier = "")
    (name : Name) : options.productionName name = name := by
  rw [Options.productionName, unqualified]
  rfl

theorem productionName_of_qualified {options : Options} (qualified : options.qualifier ≠ "")
    (name : Name) : options.productionName name = options.qualifier ++ "-" ++ name := by
  simp [Options.productionName, qualified]

theorem renames_placeholder (compiler : Compiler) (qualifier : String) :
    Renames (compiler.withQualifier qualifier).options.productionName compiler.placeholder
      (compiler.withQualifier qualifier).placeholder := by
  intro access name rule answered
  obtain ⟨known, rfl⟩ := placeholder_eq_ok_iff.mp answered
  exact ⟨rfl, placeholder_eq_ok_iff.mpr ⟨known, rfl⟩⟩

theorem IsReferring.withQualifier {name : Name} {body : Rule} {definition : Definition}
    (isReferring : compiler.IsReferring name body)
    (defined : compiler.definitions.lookup name = some definition) (qualifier : String) :
    (compiler.withQualifier qualifier).IsReferring name (definition.renameLookups
      (compiler.withQualifier qualifier).options.productionName body) := by
  obtain ⟨accepted, _, sameDefined, made⟩ := isReferring
  rw [defined] at sameDefined
  cases sameDefined
  obtain ⟨remade, same⟩ := Definition.value_renameLookups (compiler.renames_placeholder qualifier) made
  exact ⟨same.trans accepted, definition, defined, remade⟩

/-- With references, another qualifier renames the references that have been looked up. -/
theorem bodies_withQualifier_of_referring (referring : compiler.options.inline = false)
    (resolved : outcome compiler.bodies .start = (.ok bodies, after)) (qualifier : String) :
    ∃ last, outcome (compiler.withQualifier qualifier).bodies .start =
      (.ok (compiler.renameLookups
        (compiler.withQualifier qualifier).options.productionName bodies), last) := by
  have referred : outcome compiler.referring.bodies .start = (.ok bodies, after) := by
    rw [referring_eq_self referring, resolved]
  have allReferring := isReferring_of_mem_references referred
  refine bodies_eq_of_isReferring referring ?_ ?_
  · rw [renameLookups, List.map_map]
    exact names_of_resolveAll resolved
  · intro entry listed
    obtain ⟨old, oldListed, rfl⟩ := List.mem_map.mp listed
    have oldReferring := allReferring old oldListed
    obtain ⟨definition, defined, -⟩ := oldReferring.2
    simp only [defined]
    exact oldReferring.withQualifier defined qualifier

/-- Inline, another qualifier changes no body. -/
theorem bodies_withQualifier_of_inline (inline : compiler.options.inline = true)
    (qualifier : String) : (compiler.withQualifier qualifier).bodies = compiler.bodies :=
  ResolvesLike.bodies_eq ⟨rfl, rfl, fun referring => by
    have notInline : compiler.options.inline = false := referring
    rw [inline] at notInline
    cases notInline⟩

theorem forall_render_renameLookups {rename : Name → Name} {escape : Bool}
    (written : ∀ entry ∈ bodies, ∃ text, entry.2.render escape = .ok text) :
    ∀ entry ∈ compiler.renameLookups rename bodies, ∃ text, entry.2.render escape = .ok text := by
  intro entry listed
  obtain ⟨old, oldListed, rfl⟩ := List.mem_map.mp listed
  obtain ⟨text, rendered⟩ := written old oldListed
  cases compiler.definitions.lookup old.1 with
  | none => exact ⟨text, rendered⟩
  | some definition => exact definition.exists_render_renameLookups rendered

/-- What becomes of bodies under another qualifier. -/
def requalified (compiler : Compiler) (qualifier : String) (bodies : List (Name × Rule)) :
    List (Name × Rule) :=
  if compiler.options.inline then bodies
  else compiler.renameLookups (compiler.withQualifier qualifier).options.productionName bodies

theorem bodies_withQualifier (resolved : outcome compiler.bodies .start = (.ok bodies, after))
    (qualifier : String) : ∃ last, outcome (compiler.withQualifier qualifier).bodies .start =
      (.ok (compiler.requalified qualifier bodies), last) := by
  cases inline : compiler.options.inline with
  | true =>
      rw [requalified, if_pos inline, bodies_withQualifier_of_inline inline]
      exact ⟨after, resolved⟩
  | false =>
      rw [requalified, if_neg (by simp [inline])]
      exact bodies_withQualifier_of_referring inline resolved qualifier

theorem exists_productions_requalified (written : ∃ lines, compiler.productions bodies = .ok lines)
    (qualifier : String) : ∃ lines, (compiler.withQualifier qualifier).productions
      (compiler.requalified qualifier bodies) = .ok lines := by
  have bodiesWritten := exists_productions_iff.mp written
  refine exists_productions_iff.mpr ?_
  unfold requalified
  split
  · exact bodiesWritten
  · exact forall_render_renameLookups bodiesWritten

/-- A grammar that compiles does so under another qualifier, unless it is refused for references that
nothing produces. -/
theorem exists_compile_withQualifier (compiled : outcome compiler.compile .start = (.ok text, after))
    (qualifier : String) (strict : Bool)
    (complete : strict = true → ∀ name, ¬ compiler.Spells name) :
    ∃ bodies last requalifiedText, outcome compiler.bodies .start = (.ok bodies, after) ∧
      outcome (compiler.withQualifier qualifier).bodies .start =
        (.ok (compiler.requalified qualifier bodies), last) ∧
      outcome ((compiler.withQualifier qualifier).withStrict strict).compile .start =
        (.ok requalifiedText, last) := by
  obtain ⟨bodies, resolved, written⟩ := outcome_compile_eq_ok_iff.mp compiled
  obtain ⟨-, lines, produced, -⟩ := written_eq_ok_iff.mp written
  obtain ⟨last, requalified⟩ := bodies_withQualifier resolved qualifier
  refine ⟨bodies, last, ?_⟩
  obtain ⟨others, othersProduced⟩ := exists_productions_requalified ⟨lines, produced⟩ qualifier
  have accepted : ¬ (strict = true ∧ (compiler.withQualifier qualifier).missingReferences
      (compiler.requalified qualifier bodies) ≠ []) := by
    rintro ⟨isStrict, missing⟩
    obtain ⟨name, listed⟩ := List.exists_mem_of_ne_nil _ missing
    exact complete isStrict name ((mem_missingReferences_iff_spells requalified).mp listed).1
  have resolvedStrict : outcome ((compiler.withQualifier qualifier).withStrict strict).bodies .start =
      (.ok (compiler.requalified qualifier bodies), last) := by
    rw [bodies_withStrict, requalified]
  refine ⟨['\n'].intercalate others, resolved, requalified, ?_⟩
  rw [outcome_compile_of_bodies resolvedStrict, written_withStrict, if_neg accepted, othersProduced]
  rfl

/-- A qualifier goes before the names of productions and before the references that builders have
looked up, and changes nothing else; inline it changes no body. Without a qualifier, each lookup has
brought in the name that it asked for. A grammar all of whose references come from lookups is never
refused for undefined references. -/
theorem compile_qualified (unqualified : compiler.options.qualifier = "")
    (compiled : outcome compiler.compile .start = (.ok text, after)) :
    ∃ bodies, outcome compiler.bodies .start = (.ok bodies, after) ∧
      IsListing compiler.options.escapeLiterals bodies text ∧
      (compiler.options.inline = false → compiler.renameLookups id bodies = bodies) ∧
      (∀ qualifier, qualifier ≠ "" → ∃ others last otherText,
        outcome (compiler.withQualifier qualifier).bodies .start = (.ok others, last) ∧
        others = (if compiler.options.inline then bodies
          else compiler.renameLookups (qualifier ++ "-" ++ ·) bodies) ∧
        outcome ((compiler.withQualifier qualifier).withStrict false).compile .start =
          (.ok otherText, last) ∧
        IsListing compiler.options.escapeLiterals
          (others.map fun entry => (qualifier ++ "-" ++ entry.1, entry.2)) otherText) ∧
      ((∀ name, ¬ compiler.Spells name) → ∀ qualifier, ∃ strictText last,
        outcome ((compiler.withQualifier qualifier).withStrict true).compile .start =
          (.ok strictText, last)) := by
  obtain ⟨bodies, resolved, listing⟩ := exists_listing_of_compile compiled
  have ownNames : compiler.options.productionName = id :=
    funext (productionName_eq_self unqualified)
  refine ⟨bodies, resolved, ?_, ?_, ?_, ?_⟩
  · simpa [named, ownNames] using listing
  · intro referring
    have same : compiler.withQualifier "" = compiler := by
      rw [withQualifier, ← unqualified]
    obtain ⟨last, again⟩ := bodies_withQualifier_of_referring referring resolved ""
    rw [same, resolved, ownNames] at again
    exact (Except.ok.inj (Prod.mk.inj again).1).symm
  · intro qualifier nonempty
    obtain ⟨_, last, otherText, same, requalified, otherCompiled⟩ :=
      exists_compile_withQualifier compiled qualifier false (by simp)
    rw [resolved] at same
    cases same
    have prefixed : (compiler.withQualifier qualifier).options.productionName =
        (qualifier ++ "-" ++ ·) := funext (productionName_of_qualified nonempty)
    refine ⟨_, last, otherText, requalified, ?_, otherCompiled, ?_⟩
    · rw [Compiler.requalified, prefixed]
    · obtain ⟨_, otherResolved, otherListing⟩ := exists_listing_of_compile otherCompiled
      rw [bodies_withStrict, requalified] at otherResolved
      cases otherResolved
      have strictNames : ((compiler.withQualifier qualifier).withStrict false).options.productionName =
        (qualifier ++ "-" ++ ·) := prefixed
      rw [named, strictNames] at otherListing
      exact otherListing
  · intro complete qualifier
    obtain ⟨_, last, strictText, -, -, strictCompiled⟩ :=
      exists_compile_withQualifier compiled qualifier true fun _ => complete
    exact ⟨strictText, last, strictCompiled⟩

/-- A lookup, a reference and a literal of the same name stand side by side: only the lookup is given
the qualifier. Without the reference that is spelled out, the grammar passes a strict compilation. -/
theorem compile_qualified_of_like_names :
    let definitions (spelled : List Expr) : Definitions := [
      ("root", .builder "root"
        (.sequence true (.lookup .attribute "item" :: .literal "item".toList :: spelled))),
      ("item", .builder "item" (.optional true (.lookup .subscript "root")))]
    let mixed : Compiler := ⟨definitions [.reference "item"], ⟨false, "", false, false⟩⟩
    let lookedUp : Compiler := ⟨definitions [], ⟨false, "", false, false⟩⟩
    let others : List (Name × Rule) := [
      ("root", .sequence [.reference "p-item", .literal "item".toList, .reference "item"]),
      ("item", .optional (.reference "p-root"))]
    mixed.options.qualifier = "" ∧ lookedUp.options.qualifier = "" ∧ "p" ≠ "" ∧
      (∃ after, outcome mixed.compile .start =
        (.ok "root ::= item \"item\" item\nitem ::= root?".toList, after)) ∧
      (outcome (mixed.withQualifier "p").bodies .start).1 = .ok others ∧
      (∃ text, (outcome ((mixed.withQualifier "p").withStrict false).compile .start).1 = .ok text ∧
        IsListing false (others.map fun entry => ("p" ++ "-" ++ entry.1, entry.2)) text) ∧
      (∀ name, ¬ lookedUp.Spells name) ∧
      (∃ after, outcome lookedUp.compile .start =
        (.ok "root ::= item \"item\"\nitem ::= root?".toList, after)) ∧
      ∃ text, (outcome ((lookedUp.withQualifier "p").withStrict true).compile .start).1 =
        .ok text := by
  intro definitions mixed lookedUp others
  have mixedCompiled : ∃ after, outcome mixed.compile .start =
      (.ok "root ::= item \"item\" item\nitem ::= root?".toList, after) := ⟨_, by cbv⟩
  have lookedUpCompiled : ∃ after, outcome lookedUp.compile .start =
      (.ok "root ::= item \"item\"\nitem ::= root?".toList, after) := ⟨_, by cbv⟩
  have mixedResolved : (outcome mixed.bodies .start).1 = .ok [
      ("root", .sequence [.reference "item", .literal "item".toList, .reference "item"]),
      ("item", .optional (.reference "root"))] := by cbv
  have nothingSpelled : ∀ name, ¬ lookedUp.Spells name := by
    rintro name ⟨owner, definition, defined, spelled⟩
    have listed := mem_of_lookup_eq_some defined
    simp only [lookedUp, definitions, List.mem_cons, List.not_mem_nil, or_false, Prod.mk.injEq] at listed
    rcases listed with ⟨-, rfl⟩ | ⟨-, rfl⟩ <;> cases spelled
  obtain ⟨after, compiled⟩ := id mixedCompiled
  obtain ⟨bodies, resolved, -, -, qualified, -⟩ := compile_qualified rfl compiled
  obtain ⟨_, last, text, otherResolved, renamed, otherCompiled, listing⟩ := qualified "p" (by decide)
  rw [resolved] at mixedResolved
  cases mixedResolved
  have othersEq : _ = others := renamed.trans (by cbv)
  cases othersEq
  obtain ⟨strictAfter, strictCompiled⟩ := id lookedUpCompiled
  obtain ⟨-, -, -, -, -, neverRefused⟩ := compile_qualified rfl strictCompiled
  obtain ⟨strictText, strictLast, accepted⟩ := neverRefused nothingSpelled "p"
  exact ⟨rfl, rfl, by decide, mixedCompiled, by rw [otherResolved],
    ⟨text, by rw [otherCompiled], listing⟩, nothingSpelled, lookedUpCompiled, strictText,
    by rw [accepted]⟩

end Compiler

end Tessera.Grammar
