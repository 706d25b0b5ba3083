import Mathlib.Data.List.Chain
import Tessera.Grammar.Rule
import Tessera.Text.Basic

/-!
# The notation in tokens

A written rule is cut into tokens in one way only. Of legible rules, the tokens tell the rule.
-/

set_option autoImplicit false

/-! ## The tokens of the notation

A written rule is a run of tokens. Each token can be told from the beginning of what is left of the
text, so a text is cut into tokens in one way only. What the rules around a token are is not looked
at here.
-/

namespace Tessera.Grammar

inductive Repetition where
  | between (bounds : Bounds)
  | zeroOrMore
  | oneOrMore
  | optional

namespace Repetition

def apply : Repetition → Rule → Rule
  | .between bounds, rule => .between rule bounds
  | .zeroOrMore, rule => .zeroOrMore rule
  | .oneOrMore, rule => .oneOrMore rule
  | .optional, rule => .optional rule

/-- What is written behind a repeated rule. -/
def text : Repetition → Text
  | .between bounds =>
    '\x7b' :: (naturalText bounds.least ++ ',' :: (naturalText bounds.greatest ++ ['\x7d']))
  | .zeroOrMore => ['*']
  | .oneOrMore => ['+']
  | .optional => ['?']

end Repetition

/-- The characters that begin the tokens of the notation, names apart. -/
def isMark (c : Char) : Bool := ['"', '[', '\x7b', ' ', '(', ')', '*', '+', '?', '|'].contains c

/-- Whether a name can be told from the rest of the notation. -/
def IsPlain (name : Text) : Prop := name ≠ [] ∧ ∀ c ∈ name, isMark c = false

theorem isPlain_of_isIdentifier {name : Text} (identifier : isIdentifier name) : IsPlain name := by
  have apart : ∀ c, isMark c = true → isIdentifierStart c = false ∧ isIdentifierChar c = false := by
    intro c marked
    simp only [isMark, List.contains_iff_mem, List.mem_cons, List.not_mem_nil, or_false] at marked
    rcases marked with rfl | rfl | rfl | rfl | rfl | rfl | rfl | rfl | rfl | rfl <;> decide +kernel
  cases name with
  | nil => simp [isIdentifier] at identifier
  | cons first rest =>
      simp only [isIdentifier, Bool.and_eq_true, List.all_eq_true] at identifier
      refine ⟨List.cons_ne_nil _ _, fun c member => ?_⟩
      cases marked : isMark c with
      | false => rfl
      | true =>
          obtain ⟨noStart, noChar⟩ := apart c marked
          rcases List.mem_cons.mp member with rfl | member
          · simp [noStart] at identifier
          · simp [identifier.2 c member] at noChar

/-! ### Tokens -/

inductive Token where
  | literal (text : Text)
  | range (first last : Char)
  | oneOf (characters : Text)
  | reference (name : Text)
  | repetition (how : Repetition)
  | opening
  | closing
  | bar
  | space

namespace Token

def text : Token → Text
  | .literal text => quoteLiteral true text
  | .range first last => ['[', first, '-', last, ']']
  | .oneOf characters => '[' :: (characters ++ [']'])
  | .reference name => name
  | .repetition how => how.text
  | .opening => ['(']
  | .closing => [')']
  | .bar => [' ', '|', ' ']
  | .space => [' ']

/-- Whether a token can be told from other tokens: a class must not end early or look like a range,
and a name must be plain. -/
def IsReadable : Token → Prop
  | .oneOf characters => ']' ∉ characters ∧ ∀ first last, characters ≠ [first, '-', last]
  | .reference name => IsPlain name
  | _ => True

def isReference : Token → Bool
  | .reference _ => true
  | _ => false

/-- Whether a name may stand right behind a token. -/
def isGap : Token → Bool
  | .opening | .bar | .space => true
  | _ => false

/-- A token starts with a mark, unless it is a name. -/
theorem text_eq_cons {token : Token} (readable : token.IsReadable) :
    ∃ c rest, token.text = c :: rest ∧ c ≠ '|' ∧ (token.isReference = false → isMark c = true) := by
  cases token with
  | reference name =>
      obtain ⟨nonempty, plain⟩ := readable
      cases name with
      | nil => exact absurd rfl nonempty
      | cons c rest =>
          refine ⟨c, rest, rfl, ?_, fun other => by cases other⟩
          rintro rfl
          simpa [isMark] using plain '|' (.head _)
  | repetition how => cases how <;> exact ⟨_, _, rfl, by decide, fun _ => rfl⟩
  | _ => exact ⟨_, _, rfl, by decide, fun _ => rfl⟩

end Token

/-! ### Reading a token -/

/-- The text before the first stop, and the text behind it. -/
def readUntil (stop : Char) (text : Text) : Option (Text × Text) :=
  match text.dropWhile (· ≠ stop) with
  | [] => none
  | _ :: rest => some (text.takeWhile (· ≠ stop), rest)

/-- Reads a literal behind its opening quotation mark, up to the first mark that no backslash
escapes. -/
def readLiteral (escaped : Bool) : Text → Option (Text × Text)
  | [] => none
  | c :: rest =>
    if escaped = false ∧ c = '"' then some ([], rest)
    else if escaped = false ∧ c = '\\' then readLiteral true rest
    else (readLiteral false rest).map fun (text, after) => (c :: text, after)

def readClass : Text → Option (Token × Text)
  | first :: '-' :: last :: ']' :: rest => some (.range first last, rest)
  | text => (readUntil ']' text).map fun (characters, after) => (.oneOf characters, after)

def readBounds (text : Text) : Option (Token × Text) := do
  let (least, rest) ← readUntil ',' text
  let (greatest, rest) ← readUntil '\x7d' rest
  if ordered : Nat.ofDigitChars 10 least 0 ≤ Nat.ofDigitChars 10 greatest 0 then
    some (.repetition (.between ⟨_, _, ordered⟩), rest)
  else none

def readGap : Text → Token × Text
  | '|' :: ' ' :: rest => (.bar, rest)
  | rest => (.space, rest)

/-- The first token of a text, and the text behind it. -/
def next? : Text → Option (Token × Text)
  | [] => none
  | c :: rest =>
    if c = '"' then (readLiteral false rest).map fun (text, after) => (.literal text, after)
    else if c = '[' then readClass rest
    else if c = '\x7b' then readBounds rest
    else if c = ' ' then some (readGap rest)
    else if c = '(' then some (.opening, rest)
    else if c = ')' then some (.closing, rest)
    else if c = '*' then some (.repetition .zeroOrMore, rest)
    else if c = '+' then some (.repetition .oneOrMore, rest)
    else if c = '?' then some (.repetition .optional, rest)
    else some (.reference ((c :: rest).takeWhile (!isMark ·)), (c :: rest).dropWhile (!isMark ·))

theorem readUntil_append {stop : Char} {front : Text} (absent : stop ∉ front) (rest : Text) :
    readUntil stop (front ++ stop :: rest) = some (front, rest) := by
  have passed : ∀ c ∈ front, decide (c ≠ stop) = true := by
    rintro c member
    simpa using fun same : c = stop => absent (same ▸ member)
  simp only [readUntil, List.dropWhile_append_of_pos passed, List.takeWhile_append_of_pos passed]
  simp

theorem readLiteral_escape (text rest : Text) :
    readLiteral false (text.flatMap escapeLiteralChar ++ '"' :: rest) = some (text, rest) := by
  induction text with
  | nil => simp [readLiteral]
  | cons c further ih =>
      simp only [List.flatMap_cons, List.append_assoc, escapeLiteralChar]
      split
      · next backslash => simp [readLiteral, ih, backslash]
      · next noBackslash =>
          split
          · next quote => simp [readLiteral, ih, quote]
          · next noQuote => simp [readLiteral, ih, noBackslash, noQuote]

theorem readClass_characters {characters rest : Text} (closed : ']' ∉ characters)
    (spread : ∀ first last, characters ≠ [first, '-', last])
    (ahead : ∀ c ∈ rest.head?, isMark c = true) :
    readClass (characters ++ ']' :: rest) = some (.oneOf characters, rest) := by
  unfold readClass
  split
  · next first last behind shape =>
      -- Only a class of three characters can have the form of a range.
      exfalso
      match characters with
      | [] =>
          obtain ⟨-, rfl⟩ := List.cons.inj shape
          simpa [isMark] using ahead '-' rfl
      | [_] => simp at shape
      | [_, _] =>
          simp only [List.cons_append, List.nil_append, List.cons.injEq] at shape
          obtain ⟨-, -, -, rfl⟩ := shape
          simpa [isMark] using ahead ']' rfl
      | [a, b, c] =>
          simp only [List.cons_append, List.nil_append, List.cons.injEq] at shape
          obtain ⟨-, rfl, -⟩ := shape
          exact spread a c rfl
      | a :: b :: c :: d :: more =>
          simp only [List.cons_append, List.cons.injEq] at shape
          obtain ⟨-, -, -, rfl, -⟩ := shape
          simp at closed
  · rw [readUntil_append closed]
    rfl

theorem readBounds_text (bounds : Bounds) (rest : Text) :
    readBounds
        (naturalText bounds.least ++ ',' :: (naturalText bounds.greatest ++ '\x7d' :: rest)) =
      some (.repetition (.between bounds), rest) := by
  have digits : ∀ (stop : Char) (n : Nat), stop.isDigit = false → stop ∉ naturalText n :=
    fun stop n other member => by
      simp [Nat.isDigit_of_mem_toDigits (by decide) (by decide) member] at other
  have value : ∀ n, Nat.ofDigitChars 10 (naturalText n) 0 = n :=
    fun n => Nat.ofDigitChars_toDigits (by decide) (by decide)
  simp only [readBounds, readUntil_append (digits ',' _ rfl), Option.bind_eq_bind, Option.bind_some,
    readUntil_append (digits '\x7d' _ rfl), value, bounds.ordered, ↓reduceDIte]

theorem readGap_of_head? {rest : Text} (ahead : ∀ c ∈ rest.head?, c ≠ '|') :
    readGap rest = (.space, rest) := by
  unfold readGap
  split
  · exact absurd rfl (ahead '|' rfl)
  · rfl

theorem next?_name {name rest : Text} (plain : IsPlain name)
    (ahead : ∀ c ∈ rest.head?, isMark c = true) :
    next? (name ++ rest) = some (.reference name, rest) := by
  obtain ⟨nonempty, unmarked⟩ := plain
  have passed : ∀ c ∈ name, (!isMark c) = true := fun c member => by simp [unmarked c member]
  have stopped : rest.takeWhile (!isMark ·) = [] ∧ rest.dropWhile (!isMark ·) = rest := by
    cases rest with
    | nil => exact ⟨rfl, rfl⟩
    | cons c further => simp [ahead c rfl]
  have taken : (name ++ rest).takeWhile (!isMark ·) = name := by
    rw [List.takeWhile_append_of_pos passed, stopped.1, List.append_nil]
  have left : (name ++ rest).dropWhile (!isMark ·) = rest := by
    rw [List.dropWhile_append_of_pos passed, stopped.2]
  cases name with
  | nil => exact absurd rfl nonempty
  | cons c further =>
      have first : isMark c = false := unmarked c (.head _)
      simp only [isMark, List.contains_eq_mem, List.mem_cons, List.not_mem_nil, or_false,
        decide_eq_false_iff_not, not_or] at first
      rw [List.cons_append] at taken left ⊢
      simp [next?, first, taken, left]

theorem next?_text {token : Token} (readable : token.IsReadable) {rest : Text}
    (ahead : ∀ c ∈ rest.head?, c ≠ '|' ∧ (token.isGap = false → isMark c = true)) :
    next? (token.text ++ rest) = some (token, rest) := by
  cases token with
  | literal text => simp [Token.text, quoteLiteral, next?, readLiteral_escape]
  | range first last => simp [Token.text, next?, readClass]
  | oneOf characters =>
      have read := readClass_characters readable.1 readable.2 fun c first => (ahead c first).2 rfl
      simp [Token.text, next?, read]
  | reference name => exact next?_name readable fun c first => (ahead c first).2 rfl
  | repetition how =>
      cases how with
      | between bounds => simp [Token.text, Repetition.text, next?, readBounds_text]
      | _ => simp [Token.text, Repetition.text, next?]
  | space => simp [Token.text, next?, readGap_of_head? fun c first => (ahead c first).1]
  | bar => simp [Token.text, next?, readGap]
  | _ => simp [Token.text, next?]

/-! ### Runs of tokens -/

namespace Token

/-- Whether two tokens may stand one behind the other: a name needs a gap before it. -/
def Fits (before after : Token) : Prop := after.isReference = true → before.isGap = true

structure AreReadable (tokens : List Token) : Prop where
  each : ∀ token ∈ tokens, token.IsReadable
  fitting : tokens.IsChain Fits

theorem AreReadable.tail {token : Token} {rest : List Token}
    (readable : AreReadable (token :: rest)) : AreReadable rest :=
  ⟨fun other member => readable.each other (.tail _ member), readable.fitting.tail⟩

theorem AreReadable.next? {token : Token} {rest : List Token}
    (readable : AreReadable (token :: rest)) :
    Grammar.next? ((token :: rest).flatMap Token.text) = some (token, rest.flatMap Token.text) := by
  rw [List.flatMap_cons]
  refine next?_text (readable.each token (.head _)) fun c first => ?_
  cases rest with
  | nil => cases first
  | cons after further =>
      obtain ⟨d, others, textEq, apart, marked⟩ :=
        text_eq_cons (readable.each after (.tail _ (.head _)))
      rw [List.flatMap_cons, textEq, List.cons_append, List.head?_cons,
        Option.mem_some_iff] at first
      subst first
      refine ⟨apart, fun noGap => marked ?_⟩
      have fits : Fits token after := (List.isChain_cons_cons.mp readable.fitting).1
      cases reference : after.isReference with
      | false => rfl
      | true => simp [fits reference] at noGap

/-- A text is cut into tokens in one way only. -/
theorem AreReadable.eq_of_text_eq {front back : List Token} (frontReadable : AreReadable front)
    (backReadable : AreReadable back)
    (same : front.flatMap Token.text = back.flatMap Token.text) : front = back := by
  induction front generalizing back with
  | nil =>
      cases back with
      | nil => rfl
      | cons token rest =>
          have read := backReadable.next?
          rw [← same] at read
          cases read
  | cons token rest ih =>
      have read := frontReadable.next?
      cases back with
      | nil =>
          rw [same] at read
          cases read
      | cons other further =>
          rw [same, backReadable.next?] at read
          simp only [Option.some.injEq, Prod.mk.injEq] at read
          obtain ⟨rfl, sameRest⟩ := read
          rw [ih frontReadable.tail backReadable.tail sameRest.symm]

theorem AreReadable.append {front back : List Token} (frontReadable : AreReadable front)
    (backReadable : AreReadable back)
    (fits : ∀ before ∈ front.getLast?, ∀ after ∈ back.head?, Fits before after) :
    AreReadable (front ++ back) :=
  ⟨fun token member => (List.mem_append.mp member).elim (frontReadable.each token)
      (backReadable.each token),
    List.isChain_append.mpr ⟨frontReadable.fitting, backReadable.fitting, fits⟩⟩

theorem areReadable_nil : AreReadable [] := ⟨fun _ member => (by cases member), .nil⟩

theorem areReadable_singleton {token : Token} (readable : token.IsReadable) :
    AreReadable [token] :=
  ⟨fun _ member => List.mem_singleton.mp member ▸ readable, .singleton token⟩

theorem AreReadable.ended {front : List Token} (frontReadable : AreReadable front) (last : Token)
    (readable : last.IsReadable) (noReference : last.isReference = false) :
    AreReadable (front ++ [last]) := by
  refine frontReadable.append (areReadable_singleton readable) fun before _ after first => ?_
  simp only [List.head?_cons, Option.mem_some_iff] at first
  subst first
  exact fun reference => by simp [noReference] at reference

theorem AreReadable.separated {front back : List Token} (frontReadable : AreReadable front)
    (gap : Token) (gapHead : gap.isGap = true) (backReadable : AreReadable back) :
    AreReadable (front ++ gap :: back) := by
  have gapReadable : gap.IsReadable ∧ gap.isReference = false := by
    cases gap <;> simp_all [isGap, IsReadable, isReference]
  have frontGap := frontReadable.ended gap gapReadable.1 gapReadable.2
  rw [List.append_cons]
  refine frontGap.append backReadable fun before last _ _ _ => ?_
  simp only [List.getLast?_append, List.getLast?_singleton, Option.some_or,
    Option.mem_some_iff] at last
  exact last ▸ gapHead

end Token

/-! ## Legible rules

Sequences are written without parentheses and character classes without escapes, so a repeated
sequence is written like a sequence that ends with a repetition, and some classes are written like
something else. Legible rules are those where that does not happen. Their parts may be nested in
any way.
-/

namespace Rule

/-- Whether a rule is one item, once sequences within sequences are taken apart. -/
def isSingle : Rule → Bool
  | .sequence [] => true
  | .sequence [item] => item.isSingle
  | .sequence _ => false
  | _ => true

/-- Whether nothing at all is written for a rule. -/
def isBlank : Rule → Bool
  | .sequence [] => true
  | .sequence [item] => item.isBlank
  | _ => false

/-- Rules whose notation shows what they are made of. Ranges and literals are not restricted; a
sequence of several items is not repeated as a whole. -/
inductive Legible : Rule → Prop where
  | literal (text : Text) : Legible (.literal text)
  | sequence {items : List Rule} (each : ∀ item ∈ items, Legible item) :
      Legible (.sequence items)
  /-- A choice of nothing is written like a choice of a blank item. -/
  | choice {items : List Rule} (each : ∀ item ∈ items, Legible item)
      (visible : ∀ item, items = [item] → item.isBlank = false) : Legible (.choice items)
  | repeated {rule : Rule} (how : Repetition) (operand : Legible rule)
      (single : rule.isSingle = true) : Legible (how.apply rule)
  | range (first last : Char) : Legible (.range first last)
  /-- The members are single characters; they do not end the class and do not look like a range. -/
  | oneOf {characters : Text} (closed : ']' ∉ characters)
      (spread : ∀ first last, characters ≠ [first, '-', last]) :
      Legible (.oneOf (characters.map fun c => [c]))
  | reference {name : Name} (plain : IsPlain name.toList) : Legible (.reference name)

/-! ### The tokens of a rule -/

mutual

def tokens : Rule → List Token
  | .literal text => [.literal text]
  | .sequence items => tokensOfAll .space items
  | .choice items => .opening :: (tokensOfAll .bar items ++ [.closing])
  | .between rule bounds => tokens rule ++ [.repetition (.between bounds)]
  | .zeroOrMore rule => tokens rule ++ [.repetition .zeroOrMore]
  | .oneOrMore rule => tokens rule ++ [.repetition .oneOrMore]
  | .optional rule => tokens rule ++ [.repetition .optional]
  | .range first last => [.range first last]
  | .oneOf members => [.oneOf members.flatten]
  | .reference name => [.reference name.toList]
  | .foreign _ => []

def tokensOfAll (separator : Token) : List Rule → List Token
  | [] => []
  | [rule] => tokens rule
  | rule :: next :: rest => tokens rule ++ separator :: tokensOfAll separator (next :: rest)

end

theorem tokens_repeated (how : Repetition) (rule : Rule) :
    (how.apply rule).tokens = rule.tokens ++ [.repetition how] := by
  cases how <;> rfl

theorem tokens_oneOf (characters : Text) :
    (Rule.oneOf (characters.map fun c => [c])).tokens = [.oneOf characters] := by
  rw [tokens, ← List.flatMap_def, List.flatMap_singleton']

theorem text_tokensOfAll (separator : Token) (items : List Rule) :
    (tokensOfAll separator items).flatMap Token.text =
      separator.text.intercalate (items.map fun item => item.tokens.flatMap Token.text) := by
  induction items with
  | nil => rfl
  | cons rule rest ih =>
      cases rest with
      | nil => simp [tokensOfAll, List.intercalate]
      | cons next others =>
          simp only [tokensOfAll, List.flatMap_append, List.flatMap_cons, ih]
          simp [List.intercalate]

theorem renderAll_eq {escape : Bool} {items : List Rule} {text : Rule → Text}
    (each : ∀ item ∈ items, item.render escape = .ok (text item)) :
    renderAll escape items = .ok (items.map text) := by
  induction items with
  | nil => rfl
  | cons rule rest ih =>
      have first := each rule (.head _)
      have others := ih fun item member => each item (.tail _ member)
      simp [renderAll, first, others, Except.map]

theorem render_repeated {escape : Bool} {rule : Rule} {text : Text} (how : Repetition)
    (rendered : rule.render escape = .ok text) :
    (how.apply rule).render escape = .ok (text ++ how.text) := by
  cases how <;> simp [Repetition.apply, Repetition.text, render, rendered, Except.map]

theorem Legible.render_eq {rule : Rule} (legible : Legible rule) :
    rule.render true = .ok (rule.tokens.flatMap Token.text) := by
  induction legible with
  | literal text => simp [render, tokens, Token.text]
  | sequence each ih =>
      simp [render, tokens, renderAll_eq ih, Except.map, text_tokensOfAll, Token.text]
  | choice each visible ih =>
      simp [render, tokens, renderAll_eq ih, Except.map, text_tokensOfAll, Token.text]
  | repeated how operand single ih =>
      simp [render_repeated how ih, tokens_repeated, Token.text]
  | range first last => simp [render, tokens, Token.text]
  | oneOf closed spread => simp [render, tokens, Token.text]
  | reference plain => simp [render, tokens, Token.text]

theorem areReadable_tokensOfAll (gap : Token) (isGap : gap.isGap = true) {items : List Rule}
    (each : ∀ item ∈ items, Token.AreReadable item.tokens) :
    Token.AreReadable (tokensOfAll gap items) := by
  induction items with
  | nil => exact Token.areReadable_nil
  | cons rule rest ih =>
      have first := each rule (.head _)
      have others := ih fun item member => each item (.tail _ member)
      cases rest with
      | nil => exact first
      | cons next further => exact first.separated gap isGap others

theorem Legible.areReadable {rule : Rule} (legible : Legible rule) :
    Token.AreReadable rule.tokens := by
  induction legible with
  | literal text => exact Token.areReadable_singleton trivial
  | sequence each ih => exact areReadable_tokensOfAll .space rfl ih
  | choice each visible ih =>
      have inner := areReadable_tokensOfAll .bar rfl ih
      exact Token.areReadable_nil.separated .opening rfl (inner.ended .closing trivial rfl)
  | repeated how operand single ih =>
      rw [tokens_repeated]
      exact ih.ended (.repetition how) trivial rfl
  | range first last => exact Token.areReadable_singleton trivial
  | oneOf closed spread =>
      rw [tokens_oneOf]
      exact Token.areReadable_singleton ⟨closed, spread⟩
  | reference plain => exact Token.areReadable_singleton plain

end Rule

end Tessera.Grammar
