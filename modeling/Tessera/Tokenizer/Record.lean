import Tessera.Document.Basic
import Tessera.Tokenizer.Options

/-!
# Options of tokenization as documents

Options are an object, in which any of them may be left out. What is read is not checked yet; where an
option is a truth value, any value will do.
-/

set_option autoImplicit false

namespace Tessera.Tokenizer.Options

namespace Overrides

/-- The name that is given for a strategy. What is no text has a name too, but no strategy has it. -/
def strategyName? : Document → Option String
  | .null => some "None"
  | .bool value => some (if value then "True" else "False")
  | .number value => some (String.ofList value.messageText)
  | document => document.text?

/-- An ideal length. A truth value counts as zero or one. -/
def givenLength (document : Document) : GivenLength :=
  match document.number? <|> document.numeric? with
  | some value => .number value
  | .none => .other document.kindName

def seed? : Document → Option (Option Int)
  | .null => some .none
  | document => document.integer?.map some

def ofDocument? (document : Document) : Option Overrides := do
  return {
    strategy := ← (document.field? "strategy").mapM strategyName?
    idealLength := (document.field? "ideal_length").map givenLength
    seed := ← (document.field? "seed").mapM seed?
    addBos := document.truth? "add_bos"
    addEos := document.truth? "add_eos"
    preserveSpecial := document.truth? "preserve_special_tokens"
    strict := document.truth? "strict" }

end Overrides

def toDocument (options : Options) : Document :=
  .object [
    ("strategy", .text options.strategy.name),
    ("ideal_length", .number options.idealLength),
    ("seed", (options.seed.map Document.natural).getD .null),
    ("add_bos", .bool options.addBos),
    ("add_eos", .bool options.addEos),
    ("preserve_special_tokens", .bool options.preserveSpecial),
    ("strict", .bool options.strict)]

/-- The object of some options, in which what was given for them stands as it was given, a strategy
apart. -/
def toDocumentAsGiven (given : Document) (options : Options) : Document :=
  let kept := (given.fields?.getD []).filter fun (name, _) => name ≠ "strategy"
  .object (kept.foldl (fun fields (name, value) => Document.setField name value fields)
    (options.toDocument.fields?.getD []))

end Tessera.Tokenizer.Options
