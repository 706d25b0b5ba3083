import Tessera.Document.Basic
import Tessera.Text.Basic

/-!
# Grammar rules

The terms that a grammar is made of, how they are made with checks and how they are written, and what can
go wrong with a grammar.
-/

set_option autoImplicit false

/-! ## Terms

The terms a grammar is made of. A term may also hold a foreign value, one that is no rule, where a
rule belongs: the checked combinators refuse such a term, the plain constructors do not.
-/

namespace Tessera

abbrev Name := String

namespace Grammar

/-- A value that is no rule: the name of its type, which messages give, and what it is compared by. A text
is none, since it counts as a literal. -/
structure Foreign where
  kind : String
  value : Document

structure Bounds where
  least : Nat
  greatest : Nat
  ordered : least ≤ greatest
deriving DecidableEq

inductive Rule where
  | literal (text : Text)
  | sequence (items : List Rule)
  | choice (items : List Rule)
  | between (rule : Rule) (bounds : Bounds)
  | zeroOrMore (rule : Rule)
  | oneOrMore (rule : Rule)
  | optional (rule : Rule)
  | range (first last : Char)
  /-- Any one of the members, usually single characters. -/
  | oneOf (members : List Text)
  | reference (name : Name)
  /-- A value that is no rule. -/
  | foreign (value : Foreign)
deriving Inhabited

namespace Rule

/-- Whether a term is a rule at all; its parts are not looked at. -/
def isRule : Rule → Bool
  | .foreign _ => false
  | _ => true

def children : Rule → List Rule
  | .sequence items => items
  | .choice items => items
  | .between rule _ => [rule]
  | .zeroOrMore rule => [rule]
  | .oneOrMore rule => [rule]
  | .optional rule => [rule]
  | _ => []

mutual

def size : Rule → Nat
  | .sequence items => 1 + sizes items
  | .choice items => 1 + sizes items
  | .between rule _ => 1 + size rule
  | .zeroOrMore rule => 1 + size rule
  | .oneOrMore rule => 1 + size rule
  | .optional rule => 1 + size rule
  | _ => 1

def sizes : List Rule → Nat
  | [] => 0
  | rule :: rest => size rule + sizes rest

end

theorem sizes_append (front back : List Rule) :
    sizes (front ++ back) = sizes front + sizes back := by
  induction front with
  | nil => simp [sizes]
  | cons rule rest ih => simp [sizes, ih, Nat.add_assoc]

theorem size_eq_succ_sizes_children (rule : Rule) : rule.size = sizes rule.children + 1 := by
  cases rule <;> simp [size, sizes, children] <;> omega

/-- The names seen so far, with the name of a reference added at its first appearance. -/
def noteReference (seen : List Name) : Rule → List Name
  | .reference name => if seen.contains name then seen else seen ++ [name]
  | _ => seen

/-- Works off a stack of terms. The parts of a term come before everything that is already waiting. -/
def collectReferences (seen : List Name) : List Rule → List Name
  | [] => seen
  | rule :: waiting => collectReferences (noteReference seen rule) (rule.children ++ waiting)
termination_by waiting => sizes waiting
decreasing_by
  simp only [sizes, sizes_append, size_eq_succ_sizes_children rule]
  omega

/-- The names that a term refers to, each once, in the order of their first appearance. -/
def references (rule : Rule) : List Name := collectReferences [] [rule]

mutual

/-- Whether two terms are equal, foreign values being compared as values. -/
def same : Rule → Rule → Bool
  | .literal a, .literal b => a = b
  | .sequence a, .sequence b => sameAll a b
  | .choice a, .choice b => sameAll a b
  | .between a m, .between b n => same a b && decide (m = n)
  | .zeroOrMore a, .zeroOrMore b => same a b
  | .oneOrMore a, .oneOrMore b => same a b
  | .optional a, .optional b => same a b
  | .range a b, .range c d => a = c && b = d
  | .oneOf a, .oneOf b => a = b
  | .reference a, .reference b => a = b
  | .foreign a, .foreign b => a.value.same b.value
  | _, _ => false

def sameAll : List Rule → List Rule → Bool
  | [], [] => true
  | a :: as, b :: bs => same a b && sameAll as bs
  | _, _ => false

end

end Rule

end Grammar

end Tessera

/-! ## What can go wrong with a grammar

Every cause is a constructor; its wording is in `Error.message`.
-/

namespace Tessera.Grammar

inductive Access where
  | subscript
  /-- By a member name; names that start with an underscore are no members. -/
  | attribute
deriving DecidableEq

inductive Error where
  /-- A combinator was given a value that is no rule. -/
  | notRule (kind : String)
  | negativeBounds (least greatest : Int)
  | unorderedBounds (least greatest : Int)
  /-- A character class takes two bounds or a list of members, and not both. -/
  | ambiguousRange
  | halfRange
  | wideRange (first last : Text)
  /-- A term holds a value that is no rule, so it has no notation. -/
  | unprintable (kind : String)
  | unknownRule (access : Access) (name : Name) (defined : List Name)
  | privateName (name : Name)
  /-- Resolving a rule leads back to a rule whose resolution is still under way. -/
  | cyclic (path : List Name) (name : Name)
  | builtNoRule (name : Name) (kind : String)
  | definedNoRule (name : Name) (kind : String)
  | undefinedReferences (names : List Name)
  | duplicate (name : Name)
  | absent (name : Name)
deriving DecidableEq

def boundsText (least greatest : Int) : String :=
  "\x7b" ++ String.ofList (integerText least) ++ "," ++ String.ofList (integerText greatest) ++ "\x7d"

def Error.message : Error → String
  | notRule kind => "Expected a rule or string literal, got " ++ kind
  | negativeBounds least greatest =>
    "repeat bounds must be >= 0, got " ++ boundsText least greatest
  | unorderedBounds least greatest =>
    "repeat min must be <= max, got " ++ boundsText least greatest
  | ambiguousRange => "Range takes exactly one of min_char/max_char or chars"
  | halfRange => "Range needs both min_char and max_char"
  | wideRange first last =>
    "Range bounds must be single characters, got "
      ++ String.ofList (first.quoted ++ '-' :: last.quoted)
  | unprintable kind => "Cannot stringify " ++ kind ++ ": not a grammar rule"
  | unknownRule _ name defined =>
    quotedString ("Unknown rule '" ++ name ++ "'. Defined: " ++ ", ".intercalate defined)
  | privateName name => name
  | cyclic path name =>
    "Cyclic rule in inline mode: " ++ " -> ".intercalate (path ++ [name])
  | builtNoRule name kind => "Builder for '" ++ name ++ "' returned " ++ kind ++ ", expected a rule"
  | definedNoRule name kind => "Invalid definition for '" ++ name ++ "': " ++ kind
  | undefinedReferences names => "Undefined rule references: " ++ ", ".intercalate names
  | duplicate name => "Rule '" ++ name ++ "' already exists."
  | absent name => quotedString name

/-! ## Making rules

The combinators check the terms they are given; bounds are checked on every way to make a rule.
-/

def Bounds.ofIntegers (least greatest : Int) : Except Error Bounds :=
  if least < 0 ∨ greatest < 0 then .error (.negativeBounds least greatest)
  else if ordered : least ≤ greatest then
    .ok ⟨least.toNat, greatest.toNat, Int.toNat_le_toNat ordered⟩
  else .error (.unorderedBounds least greatest)

namespace Rule

def check : Rule → Except Error Rule
  | .foreign value => .error (.notRule value.kind)
  | rule => .ok rule

/-- Terms that must all be rules; the first that is none is at fault. -/
def checkAll : List Rule → Except Error (List Rule)
  | [] => .ok []
  | rule :: rest =>
    match check rule with
    | .error cause => .error cause
    | .ok rule => (checkAll rest).map (rule :: ·)

/-- A character class, given either by its two bounds or by its members. -/
def characterClass (first last : Option Text) (members : Option (List Text)) :
    Except Error Rule :=
  match first, last, members with
  | none, none, some members => .ok (.oneOf members)
  | none, none, none => .error .ambiguousRange
  | _, _, some _ => .error .ambiguousRange
  | some [a], some [b], none => .ok (.range a b)
  | some a, some b, none => .error (.wideRange a b)
  | _, _, none => .error .halfRange

end Rule

/-! ## The notation of rules

A rule is written in a notation close to BNF: literals between quotation marks, sequences separated by
spaces, choices in parentheses, repetition behind its rule, character classes in brackets. A term with
a foreign value has no notation.
-/

def escapeLiteralChar (c : Char) : Text :=
  if c = '\\' then ['\\', '\\'] else if c = '"' then ['\\', '"'] else [c]

/-- A literal between quotation marks. Without escaping, marks inside it stay as they are. -/
def quoteLiteral (escape : Bool) (text : Text) : Text :=
  '"' :: ((if escape then text.flatMap escapeLiteralChar else text) ++ ['"'])

namespace Rule

mutual

def render (escape : Bool) : Rule → Except Error Text
  | .literal text => .ok (quoteLiteral escape text)
  | .sequence items => (renderAll escape items).map fun parts => [' '].intercalate parts
  | .choice items =>
    (renderAll escape items).map fun parts =>
      '(' :: ([' ', '|', ' '].intercalate parts ++ [')'])
  | .between rule bounds =>
    (render escape rule).map fun text =>
      text ++ '\x7b' :: (naturalText bounds.least ++ ',' :: (naturalText bounds.greatest ++ ['\x7d']))
  | .zeroOrMore rule => (render escape rule).map (· ++ ['*'])
  | .oneOrMore rule => (render escape rule).map (· ++ ['+'])
  | .optional rule => (render escape rule).map (· ++ ['?'])
  | .range first last => .ok ['[', first, '-', last, ']']
  | .oneOf members => .ok ('[' :: (members.flatten ++ [']']))
  | .reference name => .ok name.toList
  | .foreign value => .error (.unprintable value.kind)

/-- The notations of several rules; the first foreign value decides the error. -/
def renderAll (escape : Bool) : List Rule → Except Error (List Text)
  | [] => .ok []
  | rule :: rest =>
    match render escape rule with
    | .error cause => .error cause
    | .ok text => (renderAll escape rest).map (text :: ·)

end

end Rule

end Tessera.Grammar
