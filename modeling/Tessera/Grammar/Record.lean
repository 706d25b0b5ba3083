import Tessera.Grammar.Compiler

/-!
# Terms and options as documents

A literal is written as a text. Any other term, a value that is no rule included, is an object with one
field, which names the form of the term: in lower case where parts that are no rules are refused, and with
a capital where they are not.

Options are an object, in which any of them may be left out. Where an option is a truth value, any value
will do.
-/

set_option autoImplicit false

namespace Tessera.Grammar

namespace Rule

mutual

def toDocument : Rule → Document
  | .literal text => .ofText text
  | .sequence items => .object [("seq", .array (toDocuments items))]
  | .choice items => .object [("choice", .array (toDocuments items))]
  | .between rule bounds =>
    .object [("repeat",
      .array [toDocument rule, .natural bounds.least, .natural bounds.greatest])]
  | .zeroOrMore rule => .object [("repeat0", toDocument rule)]
  | .oneOrMore rule => .object [("repeat1", toDocument rule)]
  | .optional rule => .object [("optional", toDocument rule)]
  | .range first last => .object [("range", .array [.ofText [first], .ofText [last]])]
  | .oneOf members => .object [("set", .array (members.map .ofText))]
  | .reference name => .object [("ref", .text name)]
  | .foreign value => .object [("raw", value.value)]

def toDocuments : List Rule → List Document
  | [] => []
  | rule :: rest => toDocument rule :: toDocuments rest

end

end Rule

/-- A document as a value that is no rule. -/
def Foreign.ofDocument (document : Document) : Foreign := ⟨document.kindName, document⟩

namespace Expr

def readText? (document : Document) : Option Text := document.text?.map String.toList

/-- The members of a character class: a list of texts, or the characters of one text. -/
def readMembers? : Document → Option (List Text)
  | .text value => some (value.toList.map fun c => [c])
  | .array items => items.mapM readText?
  | _ => none

/-- A class given by its bounds, its members, or both; whether they fit together is found out when the
term is made. -/
def readClass? (document : Document) : Option Expr := do
  return .characterClass
    (← Document.ifGiven? readText? (document.field? "min"))
    (← Document.ifGiven? readText? (document.field? "max"))
    (← Document.ifGiven? readMembers? (document.field? "chars"))

mutual

def ofDocument? : Document → Option Expr
  | .text value => some (.literal value.toList)
  | .object [(form, value)] => ofField? form value
  | _ => none

def ofField? (form : String) (value : Document) : Option Expr :=
  match form, value with
  | "seq", .array items => (ofDocuments? items).map (.sequence true)
  | "choice", .array items => (ofDocuments? items).map (.choice true)
  | "repeat", .array [body, least, greatest] => between? true body least greatest
  | "repeat0", body => (ofDocument? body).map (.zeroOrMore true)
  | "repeat1", body => (ofDocument? body).map (.oneOrMore true)
  | "optional", body => (ofDocument? body).map (.optional true)
  | "Sequence", .array items => (ofDocuments? items).map (.sequence false)
  | "Choice", .array items => (ofDocuments? items).map (.choice false)
  | "Repeat", .array [body, least, greatest] => between? false body least greatest
  | "Repeat0", body => (ofDocument? body).map (.zeroOrMore false)
  | "Repeat1", body => (ofDocument? body).map (.oneOrMore false)
  | "Optional", body => (ofDocument? body).map (.optional false)
  | "range", .array [first, last] => do
    return .characterClass (← Document.ifGiven? readText? (some first))
      (← Document.ifGiven? readText? (some last)) none
  | "set", members => (readMembers? members).map fun found => .characterClass none none (some found)
  | "Range", bounds => readClass? bounds
  | "ref", .text name => some (.reference name)
  | "raw", .text text => some (.literal text.toList)
  | "raw", other => some (.foreign (.ofDocument other))
  | "get", .text name => some (.lookup .subscript name)
  | "attr", .text name => some (.lookup .attribute name)
  | "probe", .array [.array names, body] => do
    let asked ← names.mapM readText?
    return .probe (asked.map String.ofList) (← ofDocument? body)
  | _, _ => none

def between? (checked : Bool) (body least greatest : Document) : Option Expr := do
  return .between checked (← ofDocument? body) (← least.integer?) (← greatest.integer?)

def ofDocuments? : List Document → Option (List Expr)
  | [] => some []
  | document :: rest => do return (← ofDocument? document) :: (← ofDocuments? rest)

end

end Expr

namespace Definition

/-- A definition: a builder is an object with one field of that name, and what it makes is under the
given label in the log; anything else is a term, which is made at once. -/
def ofDocument? (label : Name) (document : Document) : Option (Except Error Definition) :=
  match document with
  | .object [("builder", body)] => (Expr.ofDocument? body).map fun found => .ok (.builder label found)
  | other => (Expr.ofDocument? other).map fun found => found.build.map .term

end Definition

namespace Options.Overrides

/-- A qualifier; whatever does not count as true stands for the empty one. -/
def qualifier? (document : Document) : Option String :=
  if document.isTruthy then document.text? else some ""

def ofDocument? (document : Document) : Option Overrides := do
  return {
    inline := document.truth? "inline"
    qualifier := ← (document.field? "prefix").mapM qualifier?
    escapeLiterals := document.truth? "escape_literals"
    strict := document.truth? "strict" }

end Options.Overrides

end Tessera.Grammar
