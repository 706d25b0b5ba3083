import Tessera.Grammar.Compiler

/-!
# Grammars

A grammar collects definitions in order, together with the options for compiling them.
-/

set_option autoImplicit false

namespace Tessera

structure Grammar where
  definitions : Grammar.Definitions
  options : Grammar.Options

namespace Grammar

def contains (grammar : Grammar) (name : Name) : Bool := grammar.definitions.names.contains name

def size (grammar : Grammar) : Nat := grammar.definitions.length

def names (grammar : Grammar) : List Name := grammar.definitions.names

def get (grammar : Grammar) (name : Name) : Except Error Definition :=
  match grammar.definitions.lookup name with
  | some definition => .ok definition
  | none => .error (.absent name)

def set (grammar : Grammar) (name : Name) (definition : Definition) : Grammar :=
  { grammar with definitions := grammar.definitions.set name definition }

def add (grammar : Grammar) (name : Name) (definition : Definition) :
    Except Error (Rule × Grammar) :=
  if grammar.contains name then .error (.duplicate name)
  else .ok (.reference (grammar.options.productionName name), grammar.set name definition)

/-- Defines a new rule by a builder, under the given name or else under the label of the builder; an
empty name counts as none. -/
def register (grammar : Grammar) (label : Name) (body : Expr) (name : Option Name) :
    Except Error (Rule × Grammar) :=
  let chosen := match name with
    | some given => if given.isEmpty then label else given
    | none => label
  grammar.add chosen (.builder label body)

/-- The names that each rule refers to, builders being given references. -/
def references (grammar : Grammar) : Run (List (Name × List Name)) := do
  let compiler : Compiler := ⟨grammar.definitions, { grammar.options with inline := false }⟩
  let bodies ← compiler.bodies
  return bodies.map fun (name, body) => (name, body.references)

/-- The references that no production of the grammar satisfies. -/
def undefinedReferences (grammar : Grammar) : Run (List Name) := do
  let produced := grammar.names.map grammar.options.productionName
  let found := (← grammar.references).flatMap Prod.snd
  return Compiler.sortedNames (found.filter fun name => !produced.contains name)

def compile (grammar : Grammar) (overrides : Options.Overrides) : Run Text :=
  Compiler.compile ⟨grammar.definitions, grammar.options.override overrides⟩

end Grammar

end Tessera
