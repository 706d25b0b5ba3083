import Tessera.Grammar.Rule

/-!
# Grammars

How the rules of a grammar are defined, and how a grammar is compiled to its productions.
-/

set_option autoImplicit false

/-! ## Definitions of rules

A rule is defined by a term or by a builder. A builder is an expression that makes a term and may ask
for other rules of the grammar on the way.
-/

namespace Tessera.Grammar

/-- An expression that makes a term. Parts are made from left to right, before the whole; `checked`
tells a combinator, which refuses parts that are no rules, from a plain constructor. -/
inductive Expr where
  | literal (text : Text)
  | foreign (value : Foreign)
  | reference (name : Name)
  | characterClass (first last : Option Text) (members : Option (List Text))
  | sequence (checked : Bool) (items : List Expr)
  | choice (checked : Bool) (items : List Expr)
  | between (checked : Bool) (rule : Expr) (least greatest : Int)
  | zeroOrMore (checked : Bool) (rule : Expr)
  | oneOrMore (checked : Bool) (rule : Expr)
  | optional (checked : Bool) (rule : Expr)
  | lookup (access : Access) (name : Name)
  /-- Notes what the builder sees of the grammar, then goes on. -/
  | probe (names : List Name) (rule : Expr)
deriving Inhabited

inductive Definition where
  | term (rule : Rule)
  /-- The label shows in the log when the builder runs. -/
  | builder (label : Name) (body : Expr)
deriving Inhabited

abbrev Definitions := List (Name × Definition)

namespace Definitions

/-- Defines a rule. A rule that is defined again keeps its place. -/
def set (name : Name) (definition : Definition) : Definitions → Definitions
  | [] => [(name, definition)]
  | (other, old) :: rest =>
    if other = name then (other, definition) :: rest else (other, old) :: set name definition rest

def names (definitions : Definitions) : List Name := definitions.map Prod.fst

/-- Definitions in order of appearance, the last one of a name being the one that counts. -/
def ofList (entries : List (Name × Definition)) : Definitions :=
  entries.foldl (fun definitions (name, definition) => set name definition definitions) []

end Definitions

inductive LogEntry where
  | started (label : Name)
  /-- A builder asked which names the grammar has, and whether it has the given ones. -/
  | probed (names : List Name) (contained : List Bool)
deriving DecidableEq

/-- What is kept while a grammar is compiled: the bodies that are complete, and the log. -/
structure Session where
  bodies : List (Name × Rule)
  log : Array LogEntry

namespace Session

def start : Session := ⟨[], #[]⟩

end Session

/-- A computation on a session; what it has done to the session stays when it fails. -/
abbrev Run (α : Type) := ExceptT Error (StateM Session) α

namespace Run

def record (entry : LogEntry) : Run Unit :=
  modify fun session => { session with log := session.log.push entry }

def ofExcept {α : Type} : Except Error α → Run α
  | .ok value => pure value
  | .error cause => throw cause

end Run

namespace Expr

/-- The check of a combinator, which a plain constructor leaves out. -/
def checkIf (checked : Bool) (rule : Rule) : Except Error Rule :=
  if checked then rule.check else .ok rule

def checkAllIf (checked : Bool) (rules : List Rule) : Except Error (List Rule) :=
  if checked then Rule.checkAll rules else .ok rules

mutual

/-- Makes the term of an expression. `find` answers the lookups, and `names` are the names that the
builder sees. -/
def eval (names : List Name) (find : Access → Name → Run Rule) : Expr → Run Rule
  | .literal text => pure (.literal text)
  | .foreign value => pure (.foreign value)
  | .reference name => pure (.reference name)
  | .characterClass first last members => Run.ofExcept (Rule.characterClass first last members)
  | .sequence checked items => do
    let rules ← evalAll names find items
    return .sequence (← Run.ofExcept (checkAllIf checked rules))
  | .choice checked items => do
    let rules ← evalAll names find items
    return .choice (← Run.ofExcept (checkAllIf checked rules))
  | .between checked body least greatest => do
    let rule ← eval names find body
    let rule ← Run.ofExcept (checkIf checked rule)
    return .between rule (← Run.ofExcept (Bounds.ofIntegers least greatest))
  | .zeroOrMore checked body => do
    let rule ← eval names find body
    return .zeroOrMore (← Run.ofExcept (checkIf checked rule))
  | .oneOrMore checked body => do
    let rule ← eval names find body
    return .oneOrMore (← Run.ofExcept (checkIf checked rule))
  | .optional checked body => do
    let rule ← eval names find body
    return .optional (← Run.ofExcept (checkIf checked rule))
  | .lookup access name => find access name
  | .probe asked body => do
    Run.record (.probed names (asked.map names.contains))
    eval names find body

def evalAll (names : List Name) (find : Access → Name → Run Rule) : List Expr → Run (List Rule)
  | [] => pure []
  | expr :: rest => do
    let rule ← eval names find expr
    return rule :: (← evalAll names find rest)

end

/-- Makes the term of an expression that stands alone: there is no other rule to ask for. -/
def build (expr : Expr) : Except Error Rule :=
  ((expr.eval [] fun access name => throw (.unknownRule access name [])).run.run .start).1

end Expr

/-! ## Compiling a grammar

A compiler evaluates the definitions of a grammar and writes one production per rule. By default a
builder that asks for another rule gets a reference to its production, which is what makes recursion
possible. In inline mode it gets the body of that rule, so a rule that leads back to itself cannot be
compiled.

Bodies that are complete are kept, so no builder is run again after it has succeeded.
-/

structure Options where
  /-- Whether builders get the bodies of other rules instead of references. -/
  inline : Bool
  /-- Put before every production name, with a hyphen; the empty text stands for none. -/
  qualifier : String
  escapeLiterals : Bool
  /-- Whether a reference to a production that the grammar lacks is an error. -/
  strict : Bool
deriving DecidableEq

namespace Options

/-- References, no qualifier, literals as they are, and no check of references. -/
def default : Options := ⟨false, "", false, false⟩

def productionName (options : Options) (name : Name) : Name :=
  if options.qualifier.isEmpty then name else options.qualifier ++ "-" ++ name

structure Overrides where
  inline : Option Bool
  qualifier : Option String
  escapeLiterals : Option Bool
  strict : Option Bool

def Overrides.none : Overrides := ⟨.none, .none, .none, .none⟩

def override (options : Options) (overrides : Overrides) : Options where
  inline := overrides.inline.getD options.inline
  qualifier := overrides.qualifier.getD options.qualifier
  escapeLiterals := overrides.escapeLiterals.getD options.escapeLiterals
  strict := overrides.strict.getD options.strict

end Options

structure Compiler where
  definitions : Definitions
  options : Options

namespace Compiler

def names (compiler : Compiler) : List Name := compiler.definitions.names

/-- Answers a lookup of a builder by `resolve`, once it is known that the name is defined. A failed
lookup by member name says so, also when the lookup that failed was made inside another builder. -/
def find (compiler : Compiler) (resolve : Name → Run Rule) (access : Access) (name : Name) :
    Run Rule :=
  let subscript : Run Rule :=
    if compiler.names.contains name then resolve name
    else throw (.unknownRule .subscript name compiler.names)
  match access with
  | .subscript => subscript
  | .attribute =>
    if name.startsWith "_" then throw (.privateName name)
    else tryCatch subscript fun
      | .unknownRule .subscript missing defined => throw (.unknownRule .attribute missing defined)
      | cause => throw cause

def evaluate (compiler : Compiler) (resolve : Name → Run Rule) (name : Name) :
    Definition → Run Rule
  | .term (.foreign value) => throw (.definedNoRule name value.kind)
  | .term rule => pure rule
  | .builder label body => do
    Run.record (.started label)
    match ← body.eval compiler.names (compiler.find resolve) with
    | .foreign value => throw (.builtNoRule name value.kind)
    | rule => pure rule

def complete (name : Name) (body : Rule) : Run Unit :=
  modify fun session => { session with bodies := session.bodies ++ [(name, body)] }

/-- The body of a rule. `inProgress` are the rules whose resolution led here, outermost first. In
inline mode each further resolution is of another rule, so the number of rules bounds the depth. -/
def resolveWithin (compiler : Compiler) (depth : Nat) (inProgress : List Name) (name : Name) :
    Run Rule := do
  match (← get).bodies.lookup name with
  | some body => return body
  | none =>
    if inProgress.contains name then throw (.cyclic inProgress name)
    else match depth, compiler.definitions.lookup name with
      | depth + 1, some definition =>
        let resolve : Name → Run Rule :=
          if compiler.options.inline then compiler.resolveWithin depth (inProgress ++ [name])
          else fun other => pure (.reference (compiler.options.productionName other))
        let body ← compiler.evaluate resolve name definition
        complete name body
        return body
      | 0, _ => throw (.cyclic inProgress name)
      | _, none => throw (.unknownRule .subscript name compiler.names)

def resolve (compiler : Compiler) (name : Name) : Run Rule :=
  compiler.resolveWithin compiler.definitions.length [] name

def lookup (compiler : Compiler) (access : Access) (name : Name) : Run Rule :=
  compiler.find
    (if compiler.options.inline then compiler.resolve
      else fun other => pure (.reference (compiler.options.productionName other)))
    access name

def resolveAll (compiler : Compiler) : List Name → Run (List (Name × Rule))
  | [] => pure []
  | name :: rest => do
    let body ← compiler.resolve name
    return (name, body) :: (← compiler.resolveAll rest)

def bodies (compiler : Compiler) : Run (List (Name × Rule)) := compiler.resolveAll compiler.names

def sortedNames (names : List Name) : List Name := names.eraseDups.mergeSort fun a b => decide (a ≤ b)

/-- The references of bodies that no production of the grammar satisfies. -/
def missingReferences (compiler : Compiler) (bodies : List (Name × Rule)) : List Name :=
  let produced := bodies.map fun (name, _) => compiler.options.productionName name
  sortedNames
    ((bodies.flatMap fun (_, body) => body.references).filter fun name => !produced.contains name)

def production (compiler : Compiler) (name : Name) (body : Rule) : Except Error Text :=
  (body.render compiler.options.escapeLiterals).map fun text =>
    (compiler.options.productionName name).toList ++ " ::= ".toList ++ text

/-- The productions of several rules; the first that cannot be written is at fault. -/
def productions (compiler : Compiler) : List (Name × Rule) → Except Error (List Text)
  | [] => .ok []
  | (name, body) :: rest =>
    match compiler.production name body with
    | .error cause => .error cause
    | .ok line => (compiler.productions rest).map (line :: ·)

def compile (compiler : Compiler) : Run Text := do
  let bodies ← compiler.bodies
  if compiler.options.strict then
    match compiler.missingReferences bodies with
    | [] => pure ()
    | missing => throw (.undefinedReferences missing)
  let lines ← Run.ofExcept (compiler.productions bodies)
  return ['\n'].intercalate lines

end Compiler

/-! ## An example grammar

Integer arithmetic with sums and products. Products bind their operands before sums do.
-/

private def rule (name : Name) : Expr := .lookup .attribute name

/-- One operand, and then operators with operands as often as one likes. -/
def chainOf (operand operator : Name) : Expr :=
  .sequence true [rule operand, .zeroOrMore true (.choice true [.sequence true
    [rule "ws", rule operator, rule "ws", rule operand]])]

def arithmetic : Definitions := [
  ("root", .builder "root" (chainOf "term" "addop")),
  ("term", .builder "term" (chainOf "number" "mulop")),
  ("number", .term (.sequence [.optional (.literal ['-']), .oneOrMore (.range '0' '9')])),
  ("addop", .term (.choice [.literal ['+'], .literal ['-']])),
  ("mulop", .term (.choice [.literal ['*'], .literal ['/']])),
  ("ws", .term (.zeroOrMore (.choice [.literal [' ']])))]

end Tessera.Grammar
