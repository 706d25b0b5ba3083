import Mathlib
import Tessera.Proofs.Grammar.ProductionLines
import Tessera.Proofs.Grammar.Qualification

/-!
# Grammars that share a file

Grammars that are compiled under different qualifiers can stand in one file. A hyphen joins a qualifier
and a name, and may stand in either of them. So two productions have the same name exactly if one
qualifier is the other one with a hyphen and more behind it, and the rule under the shorter one is named
by what there is more, a hyphen and the name of the other rule. Where that is not so, and no rule is made
with a newline, the lines of the file are the productions of the grammars, each name being defined once.
-/

set_option autoImplicit false

namespace Tessera.Grammar

open Tessera.Computation

/-! ## Equal names under two qualifiers -/

theorem eq_of_qualified_eq {own other name otherName : String} (apart : own ≠ other)
    {more : List Char} (longer : other.toList = own.toList ++ more)
    (rest : '-' :: name.toList = more ++ '-' :: otherName.toList) :
    ∃ between, other = own ++ "-" ++ between ∧ name = between ++ "-" ++ otherName := by
  cases more with
  | nil =>
      rw [List.append_nil] at longer
      exact absurd (String.toList_inj.mp longer).symm apart
  | cons c between =>
      obtain ⟨rfl, nameEq⟩ := List.cons_eq_cons.mp rest
      refine ⟨String.ofList between, ?_, ?_⟩
      · rw [← String.toList_inj]
        simpa using longer
      · rw [← String.toList_inj]
        simpa using nameEq

theorem qualified_eq_iff {own other name otherName : String} (apart : own ≠ other) :
    own ++ "-" ++ name = other ++ "-" ++ otherName ↔
      (∃ between, other = own ++ "-" ++ between ∧ name = between ++ "-" ++ otherName) ∨
        ∃ between, own = other ++ "-" ++ between ∧ otherName = between ++ "-" ++ name := by
  constructor
  · intro same
    have letters : own.toList ++ '-' :: name.toList = other.toList ++ '-' :: otherName.toList := by
      simpa using congrArg String.toList same
    -- The hyphens of the two sides are at one place only if the qualifiers are equal.
    rcases List.append_eq_append_iff.mp letters with ⟨more, longer, rest⟩ | ⟨more, longer, rest⟩
    · exact .inl (eq_of_qualified_eq apart longer rest)
    · exact .inr (eq_of_qualified_eq apart.symm longer rest)
  · intro either
    rcases either with ⟨between, rfl, rfl⟩ | ⟨between, rfl, rfl⟩
    · simp only [String.append_assoc]
    · simp only [String.append_assoc]

/-! ## Texts that define names -/

/-- Whether a line is a production of a name. -/
def IsHeadOf (name : Name) (line : Text) : Prop := name.toList ++ " ::= ".toList <+: line

instance (name : Name) (line : Text) : Decidable (IsHeadOf name line) :=
  inferInstanceAs (Decidable (name.toList ++ " ::= ".toList <+: line))

/-- Whether the lines of a text, blank ones apart, are productions of the names in order. -/
def Defines (text : Text) (names : List Name) : Prop :=
  List.Forall₂ IsHeadOf names ((text.splitOn '\n').filter (· ≠ []))

/-- How many lines of a text are productions of a name. -/
def definitionsOf (name : Name) (text : Text) : Nat :=
  (text.splitOn '\n').countP fun line => IsHeadOf name line

/-- Whether a name does not hold the mark that tells the name of a production from its body. -/
def IsUnmarked (name : Name) : Prop := ¬ " ::=".toList <:+: name.toList

theorem IsHeadOf.ne_nil {name : Name} {line : Text} (head : IsHeadOf name line) : line ≠ [] := by
  intro blank
  rw [blank, IsHeadOf, List.prefix_nil] at head
  simp at head

theorem Defines.append {text otherText : Text} {names otherNames : List Name}
    (defines : Defines text names) (otherDefines : Defines otherText otherNames) :
    Defines (text ++ '\n' :: otherText) (names ++ otherNames) := by
  rw [Defines, List.splitOn_append_cons_self, List.filter_append]
  exact List.rel_append defines otherDefines

/-- What one name has more than another one is nothing, if both of them head one line. -/
theorem eq_nil_of_marked {more behind otherBehind : Text}
    (same : more ++ " ::= ".toList ++ behind = " ::= ".toList ++ otherBehind)
    (unmarked : ¬ " ::=".toList <:+: more) : more = [] := by
  have spelled : " ::= ".toList = [' ', ':', ':', '=', ' '] := by decide
  rw [spelled] at same
  -- The mark cannot start within itself, so it would have to stand in what there is more.
  rcases more with _ | ⟨a, _ | ⟨b, _ | ⟨c, _ | ⟨d, rest⟩⟩⟩⟩
  · rfl
  · simp at same
  · simp at same
  · simp at same
  · simp only [List.cons_append, List.cons.injEq] at same
    obtain ⟨rfl, rfl, rfl, rfl, -⟩ := same
    exact absurd ⟨[], rest, rfl⟩ unmarked

theorem eq_of_isHeadOf_of_length_le {name other : Name} {line : Text} (head : IsHeadOf name line)
    (otherHead : IsHeadOf other line) (unmarked : IsUnmarked other)
    (shorter : name.toList.length ≤ other.toList.length) : name = other := by
  obtain ⟨behind, rfl⟩ := head
  obtain ⟨otherBehind, same⟩ := otherHead
  have ahead : name.toList <+: other.toList := by
    apply List.prefix_of_prefix_length_le _ _ shorter
    · exact name.toList ++ " ::= ".toList ++ behind
    · rw [List.append_assoc]
      exact List.prefix_append _ _
    · rw [← same, List.append_assoc]
      exact List.prefix_append _ _
  obtain ⟨more, longer⟩ := ahead
  have none : more = [] := by
    have unmarkedMore : ¬ " ::=".toList <:+: more := fun marked =>
      unmarked (marked.trans ⟨name.toList, [], by rw [List.append_nil, longer]⟩)
    rw [← longer] at same
    apply eq_nil_of_marked _ unmarkedMore
    · exact otherBehind
    · exact behind
    · simpa only [List.append_assoc, List.append_cancel_left_eq] using same
  rw [none, List.append_nil] at longer
  exact String.toList_inj.mp longer

theorem eq_of_isHeadOf {name other : Name} {line : Text} (head : IsHeadOf name line)
    (otherHead : IsHeadOf other line) (unmarked : IsUnmarked name) (otherUnmarked : IsUnmarked other) :
    name = other := by
  rcases Nat.le_total name.toList.length other.toList.length with shorter | longer
  · exact eq_of_isHeadOf_of_length_le head otherHead otherUnmarked shorter
  · exact (eq_of_isHeadOf_of_length_le otherHead head unmarked longer).symm

theorem countP_isHeadOf {names : List Name} {lines : List Text} {name : Name}
    (heads : List.Forall₂ IsHeadOf names lines) (unmarked : ∀ other ∈ names, IsUnmarked other)
    (own : IsUnmarked name) : (lines.countP fun line => IsHeadOf name line) = names.count name := by
  induction heads with
  | nil => rfl
  | @cons other line rest lines head _ ih =>
      obtain ⟨otherUnmarked, restUnmarked⟩ := List.forall_mem_cons.mp unmarked
      have headIff : IsHeadOf name line ↔ other = name := by
        constructor
        · intro named
          exact eq_of_isHeadOf head named otherUnmarked own
        · intro same
          exact same ▸ head
      rw [List.countP_cons, List.count_cons, ih restUnmarked]
      simp only [headIff, decide_eq_true_eq, beq_iff_eq]

/-- In a text that defines names each of which is told from its body, each name is defined as often as
it is among the names. -/
theorem Defines.definitionsOf_eq {text : Text} {names : List Name} {name : Name}
    (defines : Defines text names) (unmarked : ∀ other ∈ names, IsUnmarked other)
    (own : IsUnmarked name) : definitionsOf name text = names.count name := by
  rw [← countP_isHeadOf defines unmarked own, List.countP_filter, definitionsOf]
  apply List.countP_congr
  intro line _
  simp only [Bool.and_eq_true, decide_eq_true_eq, iff_self_and]
  exact IsHeadOf.ne_nil

namespace Compiler

variable {compiler other first second : Compiler} {name reference : Name}
  {bodies : List (Name × Rule)} {text otherText : Text} {after last : Session}

/-- Whether there is no newline in the names of a grammar, its qualifier and what its rules are made
of. -/
structure IsFlat (compiler : Compiler) (bodies : List (Name × Rule)) : Prop where
  names : ∀ name ∈ compiler.names, '\n' ∉ name.toList
  qualifier : '\n' ∉ compiler.options.qualifier.toList
  contents : ∀ entry ∈ bodies, '\n' ∉ entry.2.contents

theorem IsOnePerLine.defines (onePerLine : compiler.IsOnePerLine text) :
    Defines text compiler.produced := by
  have heads : List.Forall₂ IsHeadOf compiler.produced (text.splitOn '\n') :=
    List.forall₂_map_left_iff.mpr onePerLine
  have noneBlank : ((text.splitOn '\n').filter (· ≠ [])) = text.splitOn '\n' := by
    rw [List.filter_eq_self]
    intro line listed
    obtain ⟨place, inside, rfl⟩ := List.mem_iff_getElem.mp listed
    have head := (List.forall₂_iff_get.mp heads).2 place
      (heads.length_eq ▸ inside) inside
    exact decide_eq_true head.ne_nil
  rw [Defines, noneBlank]
  exact heads

theorem defines_of_compile (compiled : outcome compiler.compile .start = (.ok text, after))
    (resolved : outcome compiler.bodies .start = (.ok bodies, after))
    (flat : compiler.IsFlat bodies) : Defines text compiler.produced := by
  by_cases empty : compiler.definitions = []
  · have nothing : text = [] := by
      obtain ⟨bodies, resolved, made⟩ := outcome_compile_eq_ok_iff.mp compiled
      obtain ⟨-, lines, linesMade, rfl⟩ := written_eq_ok_iff.mp made
      have noNames : bodies.map Prod.fst = [] := by
        rw [names_of_resolveAll resolved, names, empty]
        rfl
      rw [List.map_eq_nil_iff.mp noNames] at linesMade
      cases linesMade
      rfl
    rw [Defines, nothing, produced, names, empty]
    exact .nil
  · obtain ⟨others, sameResolved, onePerLineIff⟩ :=
      isOnePerLine_iff empty flat.names flat.qualifier compiled
    rw [resolved] at sameResolved
    cases sameResolved
    exact (onePerLineIff.mpr flat.contents).defines

/-! ## Productions of the same name -/

/-- Whether the qualifier of another compiler is that of a compiler with a hyphen and more behind it, and
the compiler has a rule named by what there is more, a hyphen and the name of a rule of the other. -/
def RunsInto (compiler other : Compiler) : Prop :=
  ∃ more, other.options.qualifier = compiler.options.qualifier ++ "-" ++ more ∧
    ∃ name ∈ other.names, more ++ "-" ++ name ∈ compiler.names

theorem productionName_injective (options : Options) :
    Function.Injective options.productionName := by
  intro name other same
  unfold Options.productionName at same
  split at same
  · exact same
  · simpa [← String.toList_inj] using same

theorem nodup_produced (distinct : compiler.names.Nodup) : compiler.produced.Nodup :=
  distinct.map (productionName_injective compiler.options)

theorem exists_produced_in_both_iff (qualified : first.options.qualifier ≠ "")
    (otherQualified : second.options.qualifier ≠ "")
    (apart : first.options.qualifier ≠ second.options.qualifier) :
    (∃ name ∈ first.produced, name ∈ second.produced) ↔
      first.RunsInto second ∨ second.RunsInto first := by
  simp only [produced, List.mem_map, productionName_of_qualified qualified,
    productionName_of_qualified otherQualified]
  constructor
  · intro common
    obtain ⟨_, ⟨name, defined, rfl⟩, other, otherDefined, same⟩ := common
    rcases (qualified_eq_iff apart).mp same.symm with ⟨more, longer, rfl⟩ | ⟨more, longer, rfl⟩
    · exact .inl ⟨more, longer, other, otherDefined, defined⟩
    · exact .inr ⟨more, longer, name, defined, otherDefined⟩
  · intro either
    rcases either with ⟨more, longer, other, otherDefined, defined⟩ |
      ⟨more, longer, name, defined, otherDefined⟩
    · refine ⟨_, ⟨_, defined, rfl⟩, other, otherDefined, ?_⟩
      exact ((qualified_eq_iff apart).mpr (.inl ⟨more, longer, rfl⟩)).symm
    · refine ⟨_, ⟨name, defined, rfl⟩, _, otherDefined, ?_⟩
      exact ((qualified_eq_iff apart).mpr (.inr ⟨more, longer, rfl⟩)).symm

/-! ## References that lookups bring in -/

/-- Whether a reference is what the lookup of a rule in some definition brings in. -/
def IsLookupReference (compiler : Compiler) (reference : Name) : Prop :=
  ∃ owner name, compiler.LooksUp owner name ∧ compiler.options.productionName name = reference

theorem IsLookupReference.mem_produced (lookedUp : compiler.IsLookupReference reference)
    (resolved : outcome compiler.bodies .start = (.ok bodies, after)) :
    reference ∈ compiler.produced := by
  obtain ⟨owner, name, looksUp, rfl⟩ := lookedUp
  obtain ⟨body, isReferring⟩ := isReferring_of_bodies resolved owner looksUp.mem_names
  obtain ⟨definition, defined, listed⟩ := looksUp
  exact List.mem_map_of_mem (isReferring.lookups_subset defined listed)

theorem spells_or_isLookupReference
    (resolved : outcome compiler.bodies .start = (.ok bodies, after))
    {entry : Name × Rule} (listed : entry ∈ bodies) (mentions : entry.2.Mentions reference) :
    compiler.Spells reference ∨ compiler.IsLookupReference reference := by
  cases inline : compiler.options.inline with
  | true => exact .inl ((exists_mentions_iff_spells inline resolved).mp ⟨entry, listed, mentions⟩)
  | false =>
      have isReferring :=
        isReferring_of_mem_references ((referring_eq_self inline).symm ▸ resolved) entry listed
      obtain ⟨definition, defined, -⟩ := isReferring.2
      rcases (isReferring.mentions_iff defined).mp mentions with spelled | ⟨name, lookedUp, same⟩
      · exact .inl ⟨entry.1, definition, defined, spelled⟩
      · exact .inr ⟨entry.1, name, ⟨definition, defined, lookedUp⟩, same⟩

/-- Whether the references in bodies are those that definitions spell out, and those that lookups bring
in, which name productions of the compiler and none of another one. -/
structure FindsItsOwn (compiler other : Compiler) (bodies : List (Name × Rule)) : Prop where
  accounted : ∀ entry ∈ bodies, ∀ reference, entry.2.Mentions reference →
    compiler.Spells reference ∨ compiler.IsLookupReference reference
  own : ∀ reference, compiler.IsLookupReference reference →
    reference ∈ compiler.produced ∧ reference ∉ other.produced

theorem findsItsOwn_of_disjoint (disjoint : compiler.produced.Disjoint other.produced)
    (resolved : outcome compiler.bodies .start = (.ok bodies, after)) :
    compiler.FindsItsOwn other bodies where
  accounted _ listed _ mentions := spells_or_isLookupReference resolved listed mentions
  own _ lookedUp := ⟨lookedUp.mem_produced resolved, disjoint (lookedUp.mem_produced resolved)⟩

/-- Texts that are compiled under different qualifiers have a production of the same name exactly if one
grammar runs into the other. If not, what the builders of a grammar look up is among its own productions
and none of the other. And if no rule is made with a newline, the lines of a file with both texts are the
productions of the two grammars; all names are different, and if they are told from the bodies, each of
them is defined by one line of the file. -/
theorem sharing_file (distinct : first.names.Nodup) (otherDistinct : second.names.Nodup)
    (qualified : first.options.qualifier ≠ "") (otherQualified : second.options.qualifier ≠ "")
    (apart : first.options.qualifier ≠ second.options.qualifier)
    (compiled : outcome first.compile .start = (.ok text, after))
    (otherCompiled : outcome second.compile .start = (.ok otherText, last)) :
    ((∃ name ∈ first.produced, name ∈ second.produced) ↔
      first.RunsInto second ∨ second.RunsInto first) ∧
    ∃ bodies others, outcome first.bodies .start = (.ok bodies, after) ∧
      outcome second.bodies .start = (.ok others, last) ∧
      (first.IsFlat bodies → Defines text first.produced) ∧
      (second.IsFlat others → Defines otherText second.produced) ∧
      (¬ first.RunsInto second → ¬ second.RunsInto first →
        first.FindsItsOwn second bodies ∧ second.FindsItsOwn first others ∧
        (first.produced ++ second.produced).Nodup ∧
        (first.IsFlat bodies → second.IsFlat others →
          Defines (text ++ '\n' :: otherText) (first.produced ++ second.produced) ∧
          ((∀ name ∈ first.produced ++ second.produced, IsUnmarked name) →
            ∀ name ∈ first.produced ++ second.produced,
              definitionsOf name (text ++ '\n' :: otherText) = 1))) := by
  have commonIff := exists_produced_in_both_iff qualified otherQualified apart
  obtain ⟨bodies, resolved, -⟩ := outcome_compile_eq_ok_iff.mp compiled
  obtain ⟨others, otherResolved, -⟩ := outcome_compile_eq_ok_iff.mp otherCompiled
  have defines := defines_of_compile compiled resolved
  have otherDefines := defines_of_compile otherCompiled otherResolved
  refine ⟨commonIff, bodies, others, resolved, otherResolved, defines, otherDefines, ?_⟩
  intro notInto notBack
  have disjoint : first.produced.Disjoint second.produced := by
    intro name here there
    rcases commonIff.mp ⟨name, here, there⟩ with into | back
    · exact notInto into
    · exact notBack back
  have allDistinct : (first.produced ++ second.produced).Nodup :=
    (nodup_produced distinct).append (nodup_produced otherDistinct) disjoint
  refine ⟨findsItsOwn_of_disjoint disjoint resolved,
    findsItsOwn_of_disjoint disjoint.symm otherResolved, allDistinct, ?_⟩
  intro flat otherFlat
  have together := (defines flat).append (otherDefines otherFlat)
  refine ⟨together, ?_⟩
  intro unmarked name member
  rw [together.definitionsOf_eq unmarked (unmarked name member)]
  exact List.count_eq_one_of_mem allDistinct member

/-- The qualifier of the second grammar goes on as a rule of the first grammar starts, but the rule ends
otherwise than those of the second grammar. -/
theorem sharing_file_of_longer_qualifier :
    let first : Compiler := ⟨[
      ("root", .builder "root" (.optional true (.lookup .subscript "b-d"))),
      ("b-d", .term (.literal "x".toList))], ⟨false, "a", false, false⟩⟩
    let second : Compiler := ⟨[
      ("root", .builder "root" (.oneOrMore true (.lookup .attribute "c"))),
      ("c", .term (.literal "y".toList))], ⟨false, "a-b", false, true⟩⟩
    let text := "a-root ::= a-b-d?\na-b-d ::= \"x\"".toList
    let otherText := "a-b-root ::= a-b-c+\na-b-c ::= \"y\"".toList
    first.names.Nodup ∧ second.names.Nodup ∧
      first.options.qualifier ≠ "" ∧ second.options.qualifier ≠ "" ∧
      first.options.qualifier ≠ second.options.qualifier ∧
      (∃ after, outcome first.compile .start = (.ok text, after)) ∧
      (∃ last, outcome second.compile .start = (.ok otherText, last)) ∧
      ¬ first.RunsInto second ∧ ¬ second.RunsInto first ∧
      Defines (text ++ '\n' :: otherText) ["a-root", "a-b-d", "a-b-root", "a-b-c"] ∧
      definitionsOf "a-b-d" (text ++ '\n' :: otherText) = 1 ∧
      ∃ bodies others, first.IsFlat bodies ∧ second.IsFlat others ∧
        first.FindsItsOwn second bodies ∧ second.FindsItsOwn first others := by
  intro first second text otherText
  let bodies : List (Name × Rule) :=
    [("root", .optional (.reference "a-b-d")), ("b-d", .literal "x".toList)]
  let others : List (Name × Rule) :=
    [("root", .oneOrMore (.reference "a-b-c")), ("c", .literal "y".toList)]
  have resolved : ∃ after, outcome first.bodies .start = (.ok bodies, after) := ⟨_, by cbv⟩
  have otherResolved : ∃ last, outcome second.bodies .start = (.ok others, last) := ⟨_, by cbv⟩
  have compiled : ∃ after, outcome first.compile .start = (.ok text, after) := ⟨_, by cbv⟩
  have otherCompiled : ∃ last, outcome second.compile .start = (.ok otherText, last) := ⟨_, by cbv⟩
  have nothingCommon : ¬ ∃ name ∈ first.produced, name ∈ second.produced := by decide
  obtain ⟨after, firstCompiled⟩ := id compiled
  obtain ⟨last, secondCompiled⟩ := id otherCompiled
  obtain ⟨commonIff, _, _, sameResolved, sameOtherResolved, -, -, shares⟩ := sharing_file
    (by decide) (by decide) (by decide) (by decide) (by decide) firstCompiled secondCompiled
  obtain ⟨_, resolved⟩ := resolved
  obtain ⟨_, otherResolved⟩ := otherResolved
  rw [resolved] at sameResolved
  rw [otherResolved] at sameOtherResolved
  cases sameResolved
  cases sameOtherResolved
  have notInto : ¬ first.RunsInto second := fun into => nothingCommon (commonIff.mpr (.inl into))
  have notBack : ¬ second.RunsInto first := fun back => nothingCommon (commonIff.mpr (.inr back))
  have flat : first.IsFlat bodies := ⟨by decide, by decide, by decide⟩
  have otherFlat : second.IsFlat others := ⟨by decide, by decide, by decide⟩
  obtain ⟨finds, otherFinds, -, together⟩ := shares notInto notBack
  obtain ⟨defines, once⟩ := together flat otherFlat
  have unmarked : ∀ name ∈ first.produced ++ second.produced, IsUnmarked name := by
    unfold IsUnmarked
    decide
  exact ⟨by decide, by decide, by decide, by decide, by decide, compiled, otherCompiled, notInto,
    notBack, defines, once unmarked "a-b-d" (by decide), bodies, others, flat, otherFlat, finds,
    otherFinds⟩

/-- Different qualifiers are not enough: with a hyphen in a name, two rules of one grammar change places. -/
theorem compile_clashes_of_hyphens :
    let definitions : Definitions :=
      [("b-c", .term (.literal "x".toList)), ("c", .term (.literal "y".toList))]
    let first : Compiler := ⟨definitions, ⟨false, "a", false, false⟩⟩
    let second : Compiler := ⟨definitions, ⟨false, "a-b", false, false⟩⟩
    definitions.names.Nodup ∧ first.options.qualifier ≠ "" ∧ second.options.qualifier ≠ "" ∧
      first.options.qualifier ≠ second.options.qualifier ∧
      (outcome first.compile .start).1 = .ok "a-b-c ::= \"x\"\na-c ::= \"y\"".toList ∧
      (outcome second.compile .start).1 = .ok "a-b-b-c ::= \"x\"\na-b-c ::= \"y\"".toList ∧
      "a-b-c" ∈ first.produced ∧ "a-b-c" ∈ second.produced ∧
      ¬ (first.produced ++ second.produced).Nodup := by
  refine ⟨by decide, by decide, by decide, by decide, by cbv, by cbv, by decide, by decide, ?_⟩
  decide

end Compiler

end Tessera.Grammar
