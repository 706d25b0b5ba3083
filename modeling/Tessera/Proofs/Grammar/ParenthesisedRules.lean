import Tessera.Proofs.Grammar.NotationReader

/-!
# Rules that are written alike

Rules that are written alike mean the same if they are legible, and are the same if there is nothing to
splice in them.
-/

set_option autoImplicit false

/-! ## Notation and meaning

Legible rules that are written alike mean the same. Other rules may be written alike and mean
different things.
-/

namespace Tessera.Grammar

namespace Rule

theorem Legible.spliced_eq {a b : Rule} (legibleA : Legible a) (legibleB : Legible b)
    (same : a.render true = b.render true) : a.spliced = b.spliced := by
  rw [legibleA.render_eq, legibleB.render_eq] at same
  have tokensEq : a.tokens = b.tokens :=
    legibleA.areReadable.eq_of_text_eq legibleB.areReadable (Except.ok.inj same)
  have readA := legibleA.isReadBack [] [] []
  have readB := legibleB.isReadBack [] [] []
  rw [tokensEq, readB] at readA
  exact (congrArg (fun reading => reading.current.items) readA).symm

/-- Legible rules with the same notation stand for the same texts, whatever references stand for.
-/
theorem language_eq_of_render_eq {a b : Rule} (legibleA : Legible a) (legibleB : Legible b)
    (same : a.render true = b.render true) (named : Name → Language Char) :
    a.language named = b.language named := by
  rw [← legibleA.language_spliced named, ← legibleB.language_spliced named,
    legibleA.spliced_eq legibleB same]

/-- Sequences may be nested in different ways. -/
theorem language_eq_of_nested_sequences :
    let option : Rule := .optional (.literal [])
    let a : Rule := .sequence [.literal ['a', '"'], .sequence [.reference "x", option]]
    let b : Rule := .sequence [.sequence [.literal ['a', '"'], .reference "x"], option]
    a.Legible ∧ b.Legible ∧ a.render true = b.render true ∧
      a.language (fun _ => 1) = b.language (fun _ => 1) := by
  intro option a b
  have literal : Legible (.literal ['a', '"']) := .literal _
  have reference : Legible (.reference "x") :=
    .reference (isPlain_of_isIdentifier (by decide +kernel))
  have repeated : Legible option := .repeated .optional (.literal []) rfl
  have pair {first second : Rule} (one : Legible first) (two : Legible second) :
      Legible (.sequence [first, second]) := .sequence (by simp [one, two])
  have legibleA : Legible a := pair literal (pair reference repeated)
  have legibleB : Legible b := pair (pair literal reference) repeated
  have same : a.render true = b.render true := by decide +kernel
  exact ⟨legibleA, legibleB, same, language_eq_of_render_eq legibleA legibleB same _⟩

/-- Whether two rules are written alike and mean different things. -/
def Confused (a b : Rule) : Prop :=
  (∃ text, a.render true = .ok text ∧ b.render true = .ok text) ∧
    ∃ named, a.language named ≠ b.language named

theorem confused_of_mem {a b : Rule} {written : Text} (text : Text)
    (writtenA : a.render true = .ok written) (writtenB : b.render true = .ok written)
    (member : text ∈ a.language fun _ => 0)
    (absent : text ∉ b.language fun _ => 0) : Confused a b :=
  ⟨⟨written, writtenA, writtenB⟩, fun _ => 0, fun same => absent (same ▸ member)⟩

/-- A repeated sequence is written like a sequence with a repetition at its end. A class may be
written like a range, like other members, or like several classes; a choice of a blank item is
written like a choice of nothing. -/
theorem confused_rules :
    Confused (.optional (.sequence [.literal ['a'], .literal ['b']]))
        (.sequence [.literal ['a'], .optional (.literal ['b'])]) ∧
      Confused (.range 'a' 'z') (.oneOf [['a'], ['-'], ['z']]) ∧
      Confused (.oneOf [['a', 'b']]) (.oneOf [['a'], ['b']]) ∧
      Confused (.sequence [.oneOf [['a']], .oneOf [['b']]])
        (.oneOf [['a'], [']'], [' '], ['['], ['b']]) ∧
      Confused (.choice [.sequence []]) (.choice []) := by
  refine ⟨?repeated, ?range, ?members, ?classes, ?blank⟩
  case repeated =>
    exact confused_of_mem [] rfl rfl (by simp) (by simp)
  case range =>
    exact confused_of_mem ['b'] rfl rfl ⟨'b', by decide, by decide, rfl⟩ (by simp)
  case members => exact confused_of_mem ['a', 'b'] rfl rfl (by simp) (by simp)
  case classes => exact confused_of_mem ['a', 'b'] rfl rfl (by simp) (by simp)
  case blank => exact confused_of_mem [] rfl rfl (by simp) (by simp)

end Rule

/-! ## Reading rules back

Where sequences have several items, none of them a sequence, and are not repeated, there is nothing
to splice: a rule is made again from its notation, so two rules are never written alike.
-/

/-! ### Cutting a text into tokens -/

/-- The tokens at the beginning of a text, up to the given number of them. -/
def readTokens : Nat → Text → List Token
  | 0, _ => []
  | count + 1, text =>
    match next? text with
    | none => []
    | some (token, rest) => token :: readTokens count rest

theorem Token.length_le_of_readable {tokens : List Token}
    (readable : ∀ token ∈ tokens, token.IsReadable) :
    tokens.length ≤ (tokens.flatMap Token.text).length := by
  induction tokens with
  | nil => exact Nat.zero_le _
  | cons token rest ih =>
      obtain ⟨c, further, textEq, -⟩ := text_eq_cons (readable token (.head _))
      have others := ih fun other member => readable other (.tail _ member)
      simp only [List.flatMap_cons, textEq, List.length_append, List.length_cons]
      omega

theorem Token.AreReadable.readTokens_text {tokens : List Token} (readable : AreReadable tokens)
    {count : Nat} (enough : tokens.length ≤ count) :
    readTokens count (tokens.flatMap Token.text) = tokens := by
  induction tokens generalizing count with
  | nil => cases count <;> rfl
  | cons token rest ih =>
      cases count with
      | zero => cases enough
      | succ count =>
          have others := ih readable.tail (Nat.le_of_succ_le_succ enough)
          simp only [readTokens, readable.next?, others]

namespace Rule

def decode (text : Text) : Rule :=
  (Reading.steps ⟨⟨[], .blank⟩, []⟩ (readTokens text.length text)).current.items.whole

theorem Legible.decode_render {rule : Rule} (legible : Legible rule) :
    ∃ text, rule.render true = .ok text ∧ decode text = rule.spliced.whole := by
  refine ⟨_, legible.render_eq, ?_⟩
  have readable := legible.areReadable
  have cut := readable.readTokens_text (Token.length_le_of_readable readable.each)
  have read := legible.isReadBack [] [] []
  rw [decode, cut]
  exact congrArg (fun reading => reading.current.items.whole) read

/-! ### Rules with nothing to splice -/

def isSequence : Rule → Bool
  | .sequence _ => true
  | _ => false

theorem isPlain_of_word {name : Text} (nonempty : name ≠ [])
    (word : name.all (fun c => c.isAlphanum || c = '-' || c = '_') = true) : IsPlain name := by
  refine ⟨nonempty, fun c member => ?_⟩
  have inside := List.all_eq_true.mp word c member
  cases marked : isMark c with
  | false => rfl
  | true =>
      simp only [isMark, List.contains_iff_mem, List.mem_cons, List.not_mem_nil, or_false] at marked
      rcases marked with rfl | rfl | rfl | rfl | rfl | rfl | rfl | rfl | rfl | rfl <;> cases inside

/-- Rules whose sequences have several items, none of them a sequence, and are not repeated as a
whole. Names have no marks in them; the bounds of ranges may be any characters. -/
inductive Parenthesised : Rule → Prop where
  | literal (text : Text) : Parenthesised (.literal text)
  | reference {name : Name} (plain : IsPlain name.toList) : Parenthesised (.reference name)
  | range (first last : Char) : Parenthesised (.range first last)
  /-- The members are single characters; they do not end the class and do not look like a range. -/
  | oneOf {characters : Text} (closed : ']' ∉ characters)
      (spread : ∀ first last, characters ≠ [first, '-', last]) :
      Parenthesised (.oneOf (characters.map fun c => [c]))
  | choice {items : List Rule} (each : ∀ item ∈ items, Parenthesised item) :
      Parenthesised (.choice items)
  | sequence {items : List Rule} (several : 2 ≤ items.length)
      (apart : ∀ item ∈ items, item.isSequence = false)
      (each : ∀ item ∈ items, Parenthesised item) : Parenthesised (.sequence items)
  | repeated {rule : Rule} (how : Repetition) (apart : rule.isSequence = false)
      (operand : Parenthesised rule) : Parenthesised (how.apply rule)

theorem isSingle_of_not_isSequence {rule : Rule} (apart : rule.isSequence = false) :
    rule.isSingle = true := by
  cases rule with
  | sequence items => cases apart
  | _ => rfl

theorem Parenthesised.isBlank_eq_false {rule : Rule} (inside : Parenthesised rule) :
    rule.isBlank = false := by
  cases inside with
  | @sequence items several =>
      match items with
      | _ :: _ :: _ => rfl
  | repeated how => cases how <;> rfl
  | _ => rfl

theorem Parenthesised.legible {rule : Rule} (inside : Parenthesised rule) : Legible rule := by
  induction inside with
  | literal text => exact .literal text
  | reference plain => exact .reference plain
  | range first last => exact .range first last
  | oneOf closed spread => exact .oneOf closed spread
  | choice each ih =>
      refine .choice ih fun item alone => ?_
      subst alone
      exact (each item (.head _)).isBlank_eq_false
  | sequence _ _ _ ih => exact .sequence ih
  | repeated how apart _ ih => exact .repeated how ih (isSingle_of_not_isSequence apart)

theorem spliced_eq_of_not_isSequence {rule : Rule} (apart : rule.isSequence = false)
    (whole : rule.spliced.whole = rule) : rule.spliced = ⟨[], rule⟩ := by
  have alone := before_eq_nil_of_isSingle (isSingle_of_not_isSequence apart)
  cases itemsEq : rule.spliced with
  | mk before last =>
      rw [itemsEq] at alone whole
      subst alone
      exact congrArg (Items.mk []) whole

theorem splicedAll_eq {items : List Rule} (nonempty : items ≠ [])
    (each : ∀ item ∈ items, item.spliced = ⟨[], item⟩) :
    splicedAll items = ⟨items.dropLast, items.getLast nonempty⟩ := by
  induction items with
  | nil => exact absurd rfl nonempty
  | cons rule rest ih =>
      have first := each rule (.head _)
      cases rest with
      | nil => exact first
      | cons next further =>
          have others := ih (List.cons_ne_nil _ _) fun item member => each item (.tail _ member)
          simp [splicedAll, first, others, Items.after]

theorem wholes_eq {items : List Rule} (each : ∀ item ∈ items, item.spliced.whole = item) :
    wholes items = items := by
  induction items with
  | nil => rfl
  | cons rule rest ih =>
      have others := ih fun item member => each item (.tail _ member)
      rw [wholes, each rule (.head _), others]

theorem Parenthesised.whole_spliced {rule : Rule} (inside : Parenthesised rule) :
    rule.spliced.whole = rule := by
  induction inside with
  | @sequence items several apart _ ih =>
      match items with
      | first :: next :: rest =>
          have alone : ∀ item ∈ first :: next :: rest, item.spliced = ⟨[], item⟩ :=
            fun item member => spliced_eq_of_not_isSequence (apart item member) (ih item member)
          have nonempty : first :: next :: rest ≠ [] := List.cons_ne_nil _ _
          rw [spliced, splicedAll_eq nonempty alone]
          exact congrArg Rule.sequence (List.dropLast_append_getLast nonempty)
  | choice _ ih => rw [spliced, Items.whole, wholes_eq ih]
  | repeated how apart _ ih =>
      rw [spliced_repeated, Items.whole, ih]
  | _ => rfl

theorem Parenthesised.decode_render {rule : Rule} (inside : Parenthesised rule) :
    ∃ text, rule.render true = .ok text ∧ decode text = rule := by
  obtain ⟨text, rendered, read⟩ := inside.legible.decode_render
  exact ⟨text, rendered, read.trans inside.whole_spliced⟩

/-- Rules with nothing to splice are read back from their notation, so that no two of them are
written alike. -/
theorem eq_of_render_eq :
    (∀ rule, Parenthesised rule → ∃ text, rule.render true = .ok text ∧ decode text = rule) ∧
      ∀ a b, Parenthesised a → Parenthesised b → a.render true = b.render true → a = b := by
  refine ⟨fun rule inside => inside.decode_render, ?_⟩
  intro a b aInside bInside same
  obtain ⟨text, aRendered, rfl⟩ := aInside.decode_render
  obtain ⟨other, bRendered, rfl⟩ := bInside.decode_render
  rw [aRendered, bRendered] at same
  cases same
  rfl

/-- Marks within literals and classes are not taken for marks of the notation. -/
theorem eq_of_render_eq_of_marks_within :
    let repeated : Rule := .optional (.zeroOrMore (.reference "list-item"))
    let rule (members : List Text) : Rule := .oneOrMore (.choice [
      .sequence [.literal ['(', '"'], repeated], .oneOf members, .choice []])
    let listed := rule [['x'], ['"'], [' '], ['|']]
    let spread := rule ("x\" |".toList.map fun c => [c])
    let written := "(\"(\\\"\" list-item*? | [x\" |] | ())+".toList
    listed.Parenthesised ∧ spread.Parenthesised ∧ listed.render true = spread.render true ∧
      listed = spread ∧ listed.render true = .ok written ∧
      decode written = listed := by
  intro repeated rule listed spread written
  have repeatedInside : Parenthesised repeated :=
    .repeated .optional rfl
      (.repeated .zeroOrMore rfl (.reference (isPlain_of_word (by decide) (by decide +kernel))))
  have firstInside : Parenthesised (.sequence [.literal ['(', '"'], repeated]) :=
    .sequence (by decide) (by decide) (by simp [Parenthesised.literal, repeatedInside])
  have classInside : Parenthesised (.oneOf [['x'], ['"'], [' '], ['|']]) :=
    @Parenthesised.oneOf ['x', '"', ' ', '|'] (by decide) (by simp)
  have inside : listed.Parenthesised :=
    .repeated .oneOrMore rfl
      (.choice (by simp [firstInside, classInside, Parenthesised.choice]))
  have rendered : listed.render true = .ok written := by decide +kernel
  obtain ⟨text, same, read⟩ := eq_of_render_eq.1 listed inside
  rw [rendered] at same
  cases same
  exact ⟨inside, inside, rfl, eq_of_render_eq.2 listed spread inside inside rfl, rendered, read⟩

end Rule

end Tessera.Grammar
