import Mathlib.Computability.Language
import Tessera.Grammar.Rule
import Tessera.Proofs.Grammar.NotationTokens

/-!
# What the notation is read as

The texts that a rule stands for, and the rule that a reader makes of what is written.
-/

set_option autoImplicit false

/-! ## What rules mean

A rule stands for a set of texts. What a reference stands for is left open, and is the same
wherever the name is used. A value that is no rule stands for nothing.
-/

namespace Tessera.Grammar

/-- Texts one behind the other, as many as the bounds allow. -/
def Bounds.copies (bounds : Bounds) (texts : Language Char) : Language Char :=
  {text | ∃ count, bounds.least ≤ count ∧ count ≤ bounds.greatest ∧ text ∈ texts ^ count}

namespace Rule

mutual

/-- The texts that a rule stands for. -/
def language (named : Name → Language Char) : Rule → Language Char
  | .literal text => {text}
  | .sequence items => concatenation named items
  | .choice items => union named items
  | .between rule bounds => bounds.copies (language named rule)
  | .zeroOrMore rule => KStar.kstar (language named rule)
  | .oneOrMore rule => language named rule * KStar.kstar (language named rule)
  | .optional rule => 1 + language named rule
  | .range first last => {text | ∃ c, first ≤ c ∧ c ≤ last ∧ text = [c]}
  | .oneOf members => {text | text ∈ members}
  | .reference name => named name
  | .foreign _ => 0

def concatenation (named : Name → Language Char) : List Rule → Language Char
  | [] => 1
  | rule :: rest => language named rule * concatenation named rest

def union (named : Name → Language Char) : List Rule → Language Char
  | [] => 0
  | rule :: rest => language named rule + union named rest

end

section Membership

variable {named : Name → Language Char} {text : Text}

@[simp] theorem mem_language_literal {written : Text} :
    text ∈ (literal written).language named ↔ text = written := Iff.rfl

@[simp] theorem mem_language_oneOf {members : List Text} :
    text ∈ (oneOf members).language named ↔ text ∈ members := Iff.rfl

@[simp] theorem mem_language_sequence_nil :
    text ∈ (sequence []).language named ↔ text = [] := Iff.rfl

@[simp] theorem mem_language_sequence_cons {rule : Rule} {rest : List Rule} :
    text ∈ (sequence (rule :: rest)).language named ↔
      ∃ front ∈ rule.language named, ∃ back ∈ (sequence rest).language named,
        front ++ back = text :=
  Iff.rfl

@[simp] theorem mem_language_choice_nil : text ∉ (choice []).language named := id

@[simp] theorem mem_language_choice_cons {rule : Rule} {rest : List Rule} :
    text ∈ (choice (rule :: rest)).language named ↔
      text ∈ rule.language named ∨ text ∈ (choice rest).language named := Iff.rfl

@[simp] theorem mem_language_optional {rule : Rule} :
    text ∈ (optional rule).language named ↔ text = [] ∨ text ∈ rule.language named := Iff.rfl

end Membership

variable (named : Name → Language Char)

theorem concatenation_append (front back : List Rule) :
    concatenation named (front ++ back) = concatenation named front * concatenation named back := by
  induction front with
  | nil => simp [concatenation]
  | cons rule rest ih => simp [concatenation, ih, mul_assoc]

end Rule

/-! ## Reading the notation

A reader goes over the tokens from left to right. It keeps the items of the sequence it is in, the
alternatives that are complete, and what it has left open outside. From the tokens of a legible
rule it makes that rule again, with the sequences within its sequences spliced.
-/

/-- Items one behind the other. The last one may still be repeated. -/
structure Items where
  before : List Rule
  last : Rule

namespace Items

def blank : Items := ⟨[], .sequence []⟩

def after (front : List Rule) (items : Items) : Items :=
  { items with before := front ++ items.before }

def whole : Items → Rule
  | ⟨[], last⟩ => last
  | ⟨first :: rest, last⟩ => .sequence (first :: rest ++ [last])

end Items

/-! ### Splicing -/

namespace Rule

mutual

/-- The items of a rule, with the sequences in it spliced. -/
def spliced : Rule → Items
  | .sequence items => splicedAll items
  | .choice items => ⟨[], .choice (wholes items)⟩
  | .between rule bounds => ⟨[], .between (spliced rule).whole bounds⟩
  | .zeroOrMore rule => ⟨[], .zeroOrMore (spliced rule).whole⟩
  | .oneOrMore rule => ⟨[], .oneOrMore (spliced rule).whole⟩
  | .optional rule => ⟨[], .optional (spliced rule).whole⟩
  | rule => ⟨[], rule⟩

def splicedAll : List Rule → Items
  | [] => .blank
  | [rule] => spliced rule
  | rule :: next :: rest =>
    let first := spliced rule
    (splicedAll (next :: rest)).after (first.before ++ [first.last])

def wholes : List Rule → List Rule
  | [] => []
  | rule :: rest => (spliced rule).whole :: wholes rest

end

theorem spliced_repeated (how : Repetition) (rule : Rule) :
    (how.apply rule).spliced = ⟨[], how.apply rule.spliced.whole⟩ := by
  cases how <;> rfl

theorem before_eq_nil_of_isSingle {rule : Rule} (single : rule.isSingle = true) :
    rule.spliced.before = [] := by
  fun_induction isSingle rule with
  | case1 => rfl
  | case2 item ih => exact ih single
  | case3 => cases single
  | case4 rule _ _ other =>
      cases rule with
      | sequence items => exact absurd rfl (other items)
      | _ => rfl

theorem spliced_ne_blank {rule : Rule} (visible : rule.isBlank = false) :
    rule.spliced ≠ .blank := by
  fun_induction isBlank rule with
  | case1 => cases visible
  | case2 item ih => exact ih visible
  | case3 rule noItems noItem =>
      cases rule with
      | sequence items =>
          match items with
          | [] => exact absurd rfl noItems
          | [item] => exact absurd rfl (noItem item)
          | first :: next :: rest => simp [spliced, splicedAll, Items.after, Items.blank]
      | _ => simp [spliced, Items.blank]

theorem language_apply {named : Name → Language Char} {a b : Rule} (how : Repetition)
    (same : a.language named = b.language named) :
    (how.apply a).language named = (how.apply b).language named := by
  cases how <;> simp only [Repetition.apply, language, same]

end Rule

def Items.language (named : Name → Language Char) (items : Items) : Language Char :=
  Rule.concatenation named items.before * items.last.language named

section Meaning

variable (named : Name → Language Char)

theorem Items.language_whole (items : Items) :
    items.whole.language named = items.language named := by
  rcases items with ⟨before, last⟩
  cases before with
  | nil => simp [whole, Items.language, Rule.concatenation]
  | cons first rest =>
      simp only [whole, Items.language, Rule.language, Rule.concatenation_append]
      simp [Rule.concatenation]

theorem Items.language_after (front : List Rule) (items : Items) :
    (items.after front).language named =
      Rule.concatenation named front * items.language named := by
  simp [after, Items.language, Rule.concatenation_append, mul_assoc]

theorem Rule.language_splicedAll {items : List Rule}
    (each : ∀ item ∈ items, item.spliced.language named = item.language named) :
    (splicedAll items).language named = concatenation named items := by
  induction items with
  | nil => simp [splicedAll, Items.blank, Items.language, language, concatenation]
  | cons rule rest ih =>
      have first := each rule (.head _)
      have others := ih fun item member => each item (.tail _ member)
      cases rest with
      | nil => simpa [splicedAll, concatenation] using first
      | cons next further =>
          rw [splicedAll, Items.language_after, others, concatenation_append]
          simp [concatenation, ← first, Items.language, mul_assoc]

theorem Rule.union_wholes {items : List Rule}
    (each : ∀ item ∈ items, item.spliced.language named = item.language named) :
    union named (wholes items) = union named items := by
  induction items with
  | nil => rfl
  | cons rule rest ih =>
      have first := each rule (.head _)
      have others := ih fun item member => each item (.tail _ member)
      rw [wholes, union, union, others, Items.language_whole, first]

theorem Rule.Legible.language_spliced {rule : Rule} (legible : Legible rule) :
    rule.spliced.language named = rule.language named := by
  induction legible with
  | sequence each ih => exact language_splicedAll named ih
  | choice each visible ih =>
      simp [spliced, Items.language, concatenation, language, union_wholes named ih]
  | repeated how operand single ih =>
      have same : language named _ = language named _ := (Items.language_whole named _).trans ih
      simp [spliced_repeated, Items.language, concatenation, language_apply how same]
  | _ => simp [spliced, Items.language, concatenation]

end Meaning

/-! ### The reader -/

/-- What is kept inside of a pair of parentheses: the alternatives that are complete, and the items
of the next one. -/
structure Frame where
  alternatives : List Rule
  items : Items

namespace Frame

/-- The alternatives, once the last one is complete. -/
def choices : Frame → List Rule
  | ⟨[], ⟨[], .sequence []⟩⟩ => []
  | ⟨alternatives, items⟩ => alternatives ++ [items.whole]

def put (frame : Frame) (rule : Rule) : Frame :=
  { frame with items := { frame.items with last := rule } }

end Frame

/-- What a reader keeps: the frame it is in, and the frames around it, the nearest first. -/
structure Reading where
  current : Frame
  enclosing : List Frame

namespace Reading

/-- Goes over a token. -/
def step (reading : Reading) : Token → Reading
  | .literal text => { reading with current := reading.current.put (.literal text) }
  | .range first last => { reading with current := reading.current.put (.range first last) }
  | .oneOf characters =>
    { reading with current := reading.current.put (.oneOf (characters.map fun c => [c])) }
  | .reference name =>
    { reading with current := reading.current.put (.reference (String.ofList name)) }
  | .repetition how =>
    { reading with current := reading.current.put (how.apply reading.current.items.last) }
  | .space =>
    let items := reading.current.items
    { reading with current.items := Items.blank.after (items.before ++ [items.last]) }
  | .bar =>
    { reading with
      current := ⟨reading.current.alternatives ++ [reading.current.items.whole], .blank⟩ }
  | .opening => ⟨⟨[], .blank⟩, reading.current :: reading.enclosing⟩
  | .closing =>
    match reading.enclosing with
    | [] => reading
    | outer :: enclosing => ⟨outer.put (.choice reading.current.choices), enclosing⟩

def steps (reading : Reading) (tokens : List Token) : Reading := tokens.foldl step reading

theorem steps_append (reading : Reading) (front back : List Token) :
    reading.steps (front ++ back) = (reading.steps front).steps back := by
  simp [steps]

theorem steps_cons (reading : Reading) (token : Token) (rest : List Token) :
    reading.steps (token :: rest) = (reading.step token).steps rest := rfl

end Reading

/-- Whether the reader, wherever a rule may begin, makes its items from its tokens. -/
def Rule.IsReadBack (rule : Rule) : Prop :=
  ∀ (alternatives before : List Rule) (enclosing : List Frame),
    Reading.steps ⟨⟨alternatives, Items.blank.after before⟩, enclosing⟩ rule.tokens =
      ⟨⟨alternatives, rule.spliced.after before⟩, enclosing⟩

theorem Rule.isReadBack_sequence {items : List Rule} (each : ∀ item ∈ items, item.IsReadBack) :
    (Rule.sequence items).IsReadBack := by
  intro alternatives before enclosing
  simp only [tokens, spliced]
  induction items generalizing before with
  | nil => rfl
  | cons rule rest ih =>
      have first := each rule (.head _)
      cases rest with
      | nil => exact first alternatives before enclosing
      | cons next further =>
          have others := ih fun item member => each item (.tail _ member)
          rw [tokensOfAll, Reading.steps_append, first, Reading.steps_cons, Reading.step, others,
            splicedAll]
          simp [Items.after]

theorem Frame.choices_eq {alternatives : List Rule} {items : Items}
    (visible : alternatives = [] → items ≠ .blank) :
    choices ⟨alternatives, items⟩ = alternatives ++ [items.whole] := by
  unfold choices
  split
  · next shape =>
      cases shape
      exact absurd rfl (visible rfl)
  · next shape =>
      cases shape
      rfl

/-- Alternatives are read up to the end of their choice. -/
theorem Rule.steps_alternatives {items : List Rule} (nonempty : items ≠ [])
    (each : ∀ item ∈ items, item.IsReadBack) (alternatives : List Rule)
    (visible : alternatives = [] → ∀ item, items = [item] → item.isBlank = false)
    (outer : Frame) (enclosing : List Frame) :
    Reading.steps ⟨⟨alternatives, .blank⟩, outer :: enclosing⟩
        (tokensOfAll .bar items ++ [.closing]) =
      ⟨outer.put (.choice (alternatives ++ wholes items)), enclosing⟩ := by
  -- Alternatives that are complete move into the frame, which the induction is general in.
  induction items generalizing alternatives with
  | nil => exact absurd rfl nonempty
  | cons rule rest ih =>
      have first : Reading.steps ⟨⟨alternatives, .blank⟩, outer :: enclosing⟩ rule.tokens =
          ⟨⟨alternatives, rule.spliced⟩, outer :: enclosing⟩ :=
        each rule (.head _) alternatives [] (outer :: enclosing)
      cases rest with
      | nil =>
          have last : Frame.choices ⟨alternatives, rule.spliced⟩ =
              alternatives ++ [rule.spliced.whole] :=
            Frame.choices_eq fun none => spliced_ne_blank (visible none rule rfl)
          simp only [tokensOfAll, Reading.steps_append, first, Reading.steps_cons, Reading.step,
            last, wholes]
          rfl
      | cons next further =>
          have others := ih (List.cons_ne_nil _ _) (fun item member => each item (.tail _ member))
            (alternatives ++ [rule.spliced.whole]) (fun none => by simp at none)
          rw [tokensOfAll, List.append_assoc, List.cons_append, Reading.steps_append, first,
            Reading.steps_cons, Reading.step, others, List.append_assoc]
          rfl

theorem Rule.isReadBack_choice {items : List Rule} (each : ∀ item ∈ items, item.IsReadBack)
    (visible : ∀ item, items = [item] → item.isBlank = false) :
    (Rule.choice items).IsReadBack := by
  intro alternatives before enclosing
  have opened := fun nonempty : items ≠ [] =>
    steps_alternatives nonempty each [] (fun _ => visible)
      ⟨alternatives, Items.blank.after before⟩ enclosing
  rw [tokens, Reading.steps_cons, Reading.step]
  by_cases nonempty : items = []
  · subst nonempty
    rfl
  · rw [opened nonempty]
    rfl

theorem Rule.isReadBack_repeated {rule : Rule} (how : Repetition) (operand : rule.IsReadBack)
    (single : rule.isSingle = true) : (how.apply rule).IsReadBack := by
  intro alternatives before enclosing
  rw [tokens_repeated, Reading.steps_append, operand, spliced_repeated]
  have alone := before_eq_nil_of_isSingle single
  cases itemsEq : rule.spliced with
  | mk inner last =>
      rw [itemsEq] at alone
      subst alone
      rfl

theorem Rule.Legible.isReadBack {rule : Rule} (legible : Legible rule) : rule.IsReadBack := by
  induction legible with
  | sequence each ih => exact isReadBack_sequence ih
  | choice each visible ih => exact isReadBack_choice ih visible
  | repeated how operand single ih => exact isReadBack_repeated how ih single
  | oneOf closed spread =>
      intro alternatives before enclosing
      rw [tokens_oneOf]
      rfl
  | @reference name plain =>
      intro alternatives before enclosing
      simp only [tokens, Reading.steps_cons, Reading.step, String.ofList_toList]
      rfl
  | _ => exact fun _ _ _ => rfl

end Tessera.Grammar
