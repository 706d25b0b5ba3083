import Mathlib
import Tessera.Proofs.Grammar.Compilation

/-!
# Productions and lines

Each production is meant to stand on a line of its own. Nothing that a rule is made of is escaped when
it holds a newline, so that is so exactly if no rule holds one.
-/

set_option autoImplicit false

namespace Tessera

/-! ## Lines -/

theorem mem_intercalate_iff {c : Char} {separator : Text} (apart : c ∉ separator)
    {parts : List Text} : c ∈ separator.intercalate parts ↔ ∃ part ∈ parts, c ∈ part := by
  induction parts with
  | nil => simp [List.intercalate]
  | cons first rest ih =>
      cases rest with
      | nil => simp [List.intercalate]
      | cons next further =>
          rw [List.intercalate_cons_cons, List.mem_append, ih, List.mem_append]
          simp [apart]

theorem length_splitOn (text : Text) :
    (text.splitOn '\n').length = text.count '\n' + 1 := by
  induction text with
  | nil => rfl
  | cons c rest ih =>
      rw [List.splitOn, List.splitOnP_cons_eq_if_modifyHead]
      rw [List.splitOn] at ih
      by_cases newline : c = '\n'
      · simp [newline, ih]
      · simp [newline, ih]

/-- There is a line for each of the texts that are joined, and another one for each newline in them. -/
theorem length_splitOn_intercalate {lines : List Text} (nonempty : lines ≠ []) :
    ((['\n'].intercalate lines).splitOn '\n').length =
      lines.length + (lines.map (·.count '\n')).sum := by
  rw [length_splitOn]
  induction lines with
  | nil => exact absurd rfl nonempty
  | cons first rest ih =>
      cases rest with
      | nil => simp [List.intercalate, Nat.add_comm]
      | cons next further =>
          have others := ih (List.cons_ne_nil _ _)
          rw [List.intercalate_cons_cons, List.count_append, List.count_append]
          simp only [List.map_cons, List.sum_cons, List.length_cons, List.count_singleton_self]
            at others ⊢
          omega

theorem splitOn_intercalate_iff {lines : List Text} (nonempty : lines ≠ []) :
    ((['\n'].intercalate lines).splitOn '\n').length = lines.length ↔
      ∀ line ∈ lines, '\n' ∉ line := by
  rw [length_splitOn_intercalate nonempty]
  simp [List.sum_eq_zero_iff_forall_eq_nat, List.count_eq_zero]

namespace Grammar

open Tessera.Computation

/-! ## What rules are made of -/

namespace Rule

mutual

/-- The characters of the literals, classes and names in a rule. -/
def contents : Rule → Text
  | .literal text => text
  | .sequence items => contentsOfAll items
  | .choice items => contentsOfAll items
  | .between rule _ => contents rule
  | .zeroOrMore rule => contents rule
  | .oneOrMore rule => contents rule
  | .optional rule => contents rule
  | .range first last => [first, last]
  | .oneOf members => members.flatten
  | .reference name => name.toList
  | .foreign _ => []

def contentsOfAll : List Rule → Text
  | [] => []
  | rule :: rest => contents rule ++ contentsOfAll rest

end

end Rule

theorem newline_mem_quoteLiteral_iff {escape : Bool} {text : Text} :
    '\n' ∈ quoteLiteral escape text ↔ '\n' ∈ text := by
  have escaped : ∀ c, '\n' ∈ escapeLiteralChar c ↔ c = '\n' := by
    intro c
    unfold escapeLiteralChar
    split
    · next backslash => simp [backslash]
    · split
      · next quote => simp [quote]
      · simp [eq_comm]
  cases escape with
  | false => simp [quoteLiteral]
  | true => simp [quoteLiteral, escaped]

theorem newline_notMem_naturalText (n : Nat) : '\n' ∉ naturalText n := by
  intro member
  have digit := Nat.isDigit_of_mem_toDigits (by decide) (by decide) member
  cases digit

namespace Rule

variable {escape : Bool}

theorem renderAll_cons_eq_ok_iff {rule : Rule} {rest : List Rule} {texts : List Text} :
    renderAll escape (rule :: rest) = .ok texts ↔
      ∃ text others, rule.render escape = .ok text ∧ renderAll escape rest = .ok others ∧
        text :: others = texts := by
  rw [renderAll]
  cases rule.render escape <;> simp [map_eq_ok_iff]

mutual

theorem newline_mem_render_iff : (rule : Rule) → {text : Text} → rule.render escape = .ok text →
    ('\n' ∈ text ↔ '\n' ∈ rule.contents)
  | .literal _, _, rendered => by
    cases rendered
    exact newline_mem_quoteLiteral_iff
  | .sequence items, _, rendered => by
    obtain ⟨parts, partsRendered, rfl⟩ := map_eq_ok_iff.mp rendered
    rw [contents, ← newline_mem_renderAll_iff items partsRendered]
    exact mem_intercalate_iff (by decide)
  | .choice items, _, rendered => by
    obtain ⟨parts, partsRendered, rfl⟩ := map_eq_ok_iff.mp rendered
    rw [contents, ← newline_mem_renderAll_iff items partsRendered]
    have inner : '\n' ∈ [' ', '|', ' '].intercalate parts ↔ ∃ part ∈ parts, '\n' ∈ part :=
      mem_intercalate_iff (by decide)
    simp [inner]
  | .between rule bounds, _, rendered => by
    obtain ⟨inner, innerRendered, rfl⟩ := map_eq_ok_iff.mp rendered
    rw [contents, ← newline_mem_render_iff rule innerRendered]
    simp [newline_notMem_naturalText]
  | .zeroOrMore rule, _, rendered => by
    obtain ⟨inner, innerRendered, rfl⟩ := map_eq_ok_iff.mp rendered
    rw [contents, ← newline_mem_render_iff rule innerRendered]
    simp
  | .oneOrMore rule, _, rendered => by
    obtain ⟨inner, innerRendered, rfl⟩ := map_eq_ok_iff.mp rendered
    rw [contents, ← newline_mem_render_iff rule innerRendered]
    simp
  | .optional rule, _, rendered => by
    obtain ⟨inner, innerRendered, rfl⟩ := map_eq_ok_iff.mp rendered
    rw [contents, ← newline_mem_render_iff rule innerRendered]
    simp
  | .range first last, _, rendered => by
    cases rendered
    simp [contents]
  | .oneOf members, _, rendered => by
    cases rendered
    simp [contents]
  | .reference name, _, rendered => by
    cases rendered
    exact Iff.rfl

theorem newline_mem_renderAll_iff : (rules : List Rule) → {texts : List Text} →
    renderAll escape rules = .ok texts →
    ((∃ text ∈ texts, '\n' ∈ text) ↔ '\n' ∈ contentsOfAll rules)
  | [], _, rendered => by
    cases rendered
    simp [contentsOfAll]
  | rule :: rest, _, rendered => by
    obtain ⟨text, others, ruleRendered, othersRendered, rfl⟩ :=
      renderAll_cons_eq_ok_iff.mp rendered
    rw [contentsOfAll, List.mem_append, ← newline_mem_render_iff rule ruleRendered,
      ← newline_mem_renderAll_iff rest othersRendered]
    simp

end

end Rule

/-! ## Productions -/

namespace Compiler

variable {compiler : Compiler}

theorem newline_notMem_productionName {options : Options} {name : Name}
    (flatQualifier : '\n' ∉ options.qualifier.toList) (flatName : '\n' ∉ name.toList) :
    '\n' ∉ (options.productionName name).toList := by
  unfold Options.productionName
  split
  · exact flatName
  · simp [flatQualifier, flatName]

/-- Whether the lines of a text are the productions of the grammar, in order. -/
def IsOnePerLine (compiler : Compiler) (text : Text) : Prop :=
  List.Forall₂
    (fun name line => (compiler.options.productionName name).toList ++ " ::= ".toList <+: line)
    compiler.names (text.splitOn '\n')

theorem newline_mem_production_iff {name : Name} {body : Rule} {line : Text}
    (flat : '\n' ∉ (compiler.options.productionName name).toList)
    (made : compiler.production name body = .ok line) : '\n' ∈ line ↔ '\n' ∈ body.contents := by
  obtain ⟨text, rendered, rfl⟩ := production_eq_ok_iff.mp made
  simp [flat, ← Rule.newline_mem_render_iff body rendered]

theorem flat_lines_iff {bodies : List (Name × Rule)} {lines : List Text}
    (flat : ∀ entry ∈ bodies, '\n' ∉ (compiler.options.productionName entry.1).toList)
    (produced : List.Forall₂ (fun entry line => compiler.production entry.1 entry.2 = .ok line)
      bodies lines) :
    (∀ line ∈ lines, '\n' ∉ line) ↔ ∀ entry ∈ bodies, '\n' ∉ entry.2.contents := by
  induction produced with
  | nil => simp
  | @cons entry line rest others made _ ih =>
      obtain ⟨entryFlat, restFlat⟩ := List.forall_mem_cons.mp flat
      rw [List.forall_mem_cons, List.forall_mem_cons, newline_mem_production_iff entryFlat made,
        ih restFlat]

theorem prefix_of_production {name : Name} {body : Rule} {line : Text}
    (made : compiler.production name body = .ok line) :
    (compiler.options.productionName name).toList ++ " ::= ".toList <+: line := by
  obtain ⟨text, -, rfl⟩ := production_eq_ok_iff.mp made
  exact List.prefix_append _ text

/-- The productions stand one per line exactly if no rule is made with a newline. -/
theorem isOnePerLine_iff {text : Text} {after : Session} (nonempty : compiler.definitions ≠ [])
    (flatNames : ∀ name ∈ compiler.names, '\n' ∉ name.toList)
    (flatQualifier : '\n' ∉ compiler.options.qualifier.toList)
    (compiled : outcome compiler.compile .start = (.ok text, after)) :
    ∃ bodies, outcome compiler.bodies .start = (.ok bodies, after) ∧
      (compiler.IsOnePerLine text ↔ ∀ entry ∈ bodies, '\n' ∉ entry.2.contents) := by
  obtain ⟨bodies, resolved, made⟩ := outcome_compile_eq_ok_iff.mp compiled
  obtain ⟨-, lines, linesMade, rfl⟩ := written_eq_ok_iff.mp made
  have produced := productions_eq_ok_iff.mp linesMade
  have namesEq : bodies.map Prod.fst = compiler.names := names_of_resolveAll resolved
  have linesLength : lines.length = compiler.names.length := by
    rw [← namesEq, List.length_map, produced.length_eq]
  have linesNonempty : lines ≠ [] := by
    intro none
    rw [none, names, Definitions.names, List.length_map] at linesLength
    exact nonempty (List.length_eq_zero_iff.mp linesLength.symm)
  have flat : ∀ entry ∈ bodies,
      '\n' ∉ (compiler.options.productionName entry.1).toList := by
    intro entry listed
    have named : entry.1 ∈ compiler.names := namesEq ▸ List.mem_map_of_mem listed
    exact newline_notMem_productionName flatQualifier (flatNames entry.1 named)
  refine ⟨bodies, resolved, ?_⟩
  rw [← flat_lines_iff flat produced]
  constructor
  · intro onePerLine
    -- A newline too many makes a line too many.
    have count := onePerLine.length_eq
    exact (splitOn_intercalate_iff linesNonempty).mp (count.symm.trans linesLength.symm)
  · intro flatLines
    have cut := List.splitOn_intercalate '\n' flatLines linesNonempty
    rw [IsOnePerLine, cut, ← namesEq, List.forall₂_map_left_iff]
    exact produced.imp fun entry line => prefix_of_production

/-- The letter n behind a backslash is no newline, and neither is a tabulator. -/
theorem isOnePerLine_of_flat_rules :
    let blank : Rule := .oneOf [[' '], ['\t']]
    let item : Definition := .builder "item" (.sequence true
      [.literal ['\\', 'n'], .reference "elsewhere", .lookup .attribute "blank"])
    let compiler : Compiler :=
      ⟨[("item", item), ("blank", .term blank)], ⟨true, "p", true, false⟩⟩
    let text := "p-item ::= \"\\\\n\" elsewhere [ \t]\np-blank ::= [ \t]".toList
    compiler.definitions ≠ [] ∧ (∀ name ∈ compiler.names, '\n' ∉ name.toList) ∧
      '\n' ∉ compiler.options.qualifier.toList ∧
      (outcome compiler.compile .start).1 = .ok text ∧ compiler.IsOnePerLine text := by
  intro blank item compiler text
  let bodies : List (Name × Rule) :=
    [("item", .sequence [.literal ['\\', 'n'], .reference "elsewhere", blank]), ("blank", blank)]
  let after : Session := ⟨bodies.reverse, #[.started "item"]⟩
  have nonempty : compiler.definitions ≠ [] := List.cons_ne_nil _ _
  have flatNames : ∀ name ∈ compiler.names, '\n' ∉ name.toList := by decide +kernel
  have flatQualifier : '\n' ∉ compiler.options.qualifier.toList := by decide +kernel
  have resolved : outcome compiler.bodies .start = (.ok bodies, after) := by cbv
  have compiled : outcome compiler.compile .start = (.ok text, after) := by cbv
  obtain ⟨_, same, onePerLine⟩ :=
    isOnePerLine_iff nonempty flatNames flatQualifier compiled
  rw [resolved] at same
  cases same
  refine ⟨nonempty, flatNames, flatQualifier, by rw [compiled], onePerLine.mpr ?_⟩
  simp [bodies, blank, Rule.contents, Rule.contentsOfAll]

/-- A newline within a literal divides its production. -/
theorem newline_divides_production :
    let compiler : Compiler :=
      ⟨[("a", .term (.literal ['x', '\n', 'y']))], ⟨false, "", true, false⟩⟩
    let text := "a ::= \"x\ny\"".toList
    (outcome compiler.compile .start).1 = .ok text ∧
      text.splitOn '\n' = ["a ::= \"x".toList, "y\"".toList] ∧ ¬ compiler.IsOnePerLine text := by
  intro compiler text
  have cut : text.splitOn '\n' = ["a ::= \"x".toList, "y\"".toList] := by decide +kernel
  refine ⟨by cbv, cut, ?_⟩
  intro onePerLine
  have count := onePerLine.length_eq
  rw [cut] at count
  cases count

end Compiler

end Grammar

end Tessera
