import Tessera.Document.Basic
import Tessera.Number.Binary64
import Tessera.Text.Basic
import Tessera.Tokenizer.Options
import Tessera.Tokenizer.Walk

/-!
# Calls to a tokenizer

A call to a tokenizer: what can stand in its way, what it has to tell, and what it gives.
-/

set_option autoImplicit false

/-! ## Failures

Everything that can stand in the way of a call to a tokenizer, with its wording.
-/

namespace Tessera

namespace Tokenizer.OptionError

def message : OptionError → String
  | .unknownStrategy name =>
    "Unknown strategy: '" ++ name ++ "'. Available: " ++ ", ".intercalate (Strategy.all.map (·.name))
  | .unorderedIdealLength kind => "'<' not supported between instances of '" ++ kind ++ "' and 'int'"
  | .negativeIdealLength value =>
    "ideal_length must be >= 0, got " ++ String.ofList value.messageText
  | .negativeSeed value => "seed must be >= 0, got " ++ String.ofList (integerText value)

end Tokenizer.OptionError

inductive Failure where
  | badOption (cause : Tokenizer.OptionError)
  | badSeed
  /-- Lengths were to be compared with one that is out of range. -/
  | unmeasurable
  /-- No token matches a character, and characters must not be left out. -/
  | uncovered (position : Nat) (character : Char)
  | absentBos
  | absentEos
  | factorOutside (value : Number)
  | gradientOutside (value : Number)
  | windowTooShort (length : Int)
  /-- A piece of a text starts before the piece to its left has ended. -/
  | overlap (start stop : Nat)
  | beyondEnd (start stop length : Nat)
  | badRecord (faults : List Fault)

namespace Failure

private def shown (n : Nat) : String := String.ofList (naturalText n)

def pieceText (start stop : Nat) : String := "segment [" ++ shown start ++ ", " ++ shown stop ++ ")"

/-- The wording of a failure. Bad records have no common wording; their faults tell. -/
def message : Failure → String
  | badOption cause => cause.message
  | badSeed => "expected non-negative integer"
  | unmeasurable => Selection.Obstacle.unmeasurable.message
  | uncovered position character =>
    "No valid token at position " ++ shown position ++ " for character "
      ++ String.ofList (Text.quoted [character])
  | absentBos => "add_bos requested but the vocabulary has no bos_token_id"
  | absentEos => "add_eos requested but the vocabulary has no eos_token_id"
  | factorOutside value => "factor must be in [0, 1], got " ++ String.ofList value.messageText
  | gradientOutside value => "gradient must be in [-1, 1], got " ++ String.ofList value.messageText
  | windowTooShort length =>
    "min_segment_length must be >= 1, got " ++ String.ofList (integerText length)
  | overlap start stop => pieceText start stop ++ " overlaps a previous segment"
  | beyondEnd start stop length => pieceText start stop ++ " exceeds text length " ++ shown length
  | badRecord faults => "\n".intercalate (faults.filterMap fun fault => fault.cause.message?)

end Failure

/-! ## Notices

What is worth telling about a run, besides its result. A notice has a level, so that a reader can ask
for the important ones only.
-/

inductive Level where
  | debug
  | info
  | warning
  | error
deriving DecidableEq

namespace Level

/-- The place of a level among the levels, the least important first. -/
def rank : Level → Nat
  | debug => 0
  | info => 1
  | warning => 2
  | error => 3

def name : Level → String
  | debug => "DEBUG"
  | info => "INFO"
  | warning => "WARNING"
  | error => "ERROR"

end Level

inductive Notice where
  | loaded (size : Nat) (path : Text)
  | built (size special depth : Nat)
  | uncovered (position : Nat) (character : Char)
  /-- Some characters were left out on the whole. -/
  | dropped (count : Nat)
  /-- An ideal length was found between the least and the greatest length of a token. -/
  | interpolated (factor ideal : Float) (least greatest : Nat)
  /-- A grammar was compiled; an empty qualifier counts as none. -/
  | compiled (productions : Nat) (inline : Bool) (qualifier : Text)
  | report (text : Text)
  | gaveUp (reason : Text)

namespace Notice

def level : Notice → Level
  | loaded _ _ => .info
  | built _ _ _ => .debug
  | uncovered _ _ => .warning
  | dropped _ => .warning
  | interpolated _ _ _ _ => .debug
  | compiled _ _ _ => .debug
  | report _ => .info
  | gaveUp _ => .error

def text : Notice → Text
  | loaded size path =>
    "Loaded vocabulary with ".toList ++ naturalText size ++ " tokens from ".toList ++ path
  | built size special depth =>
    "Built tokenizer: ".toList ++ naturalText size ++ " tokens, ".toList ++ naturalText special
      ++ " special, max token length ".toList ++ naturalText depth
  | uncovered position character =>
    "No valid token at position ".toList ++ naturalText position ++ " for character ".toList
      ++ Text.quoted [character]
  | dropped count =>
    "Tokenization dropped ".toList ++ naturalText count
      ++ " uncovered character(s); output will not round-trip".toList
  | interpolated factor ideal least greatest =>
    "Compression factor ".toList ++ fixedText 2 factor ++ " -> ideal length ".toList
      ++ fixedText 2 ideal ++ " (range ".toList ++ naturalText least ++ '-' :: naturalText greatest
      ++ [')']
  | compiled productions inline qualifier =>
    "Compiled ".toList ++ naturalText productions ++ " productions (inline=".toList
      ++ (if inline then "True" else "False").toList ++ ", prefix=".toList
      ++ (if qualifier.isEmpty then "None".toList else Text.quoted qualifier) ++ [')']
  | report text => '\n' :: text
  | gaveUp reason => "Error: ".toList ++ reason

def textsFrom (least : Level) (notices : List Notice) : List Text :=
  (notices.filter fun notice => decide (least.rank ≤ notice.level.rank)).map text

end Notice

/-! ## Calls

A call to a tokenizer takes random numbers from a source, may leave notices, and may fail. What it has
taken and noted before it fails stays taken and noted.
-/

structure Desk (σ : Type) where
  source : σ
  notices : Array Notice

namespace Desk

def fresh {σ : Type} (source : σ) : Desk σ := ⟨source, #[]⟩

end Desk

abbrev Call (σ α : Type) := ExceptT Failure (StateM (Desk σ)) α

namespace Call

variable {σ α : Type}

def note (notice : Notice) : Call σ Unit :=
  modify fun desk => { desk with notices := desk.notices.push notice }

def ofExcept : Except Failure α → Call σ α
  | .ok value => pure value
  | .error failure => throw failure

def ofOptions : Except Tokenizer.OptionError α → Call σ α
  | .ok value => pure value
  | .error cause => throw (.badOption cause)

/-- Puts the source that a supply gives for a seed on the desk, if it gives one. -/
def start (supply : Supply σ) (seed : Option Int) : Call σ Unit := do
  match supply.begin? seed (← get).source with
  | some source => modify fun desk => { desk with source := source }
  | none => throw .badSeed

def noteAll (notices : List Notice) : Call σ Unit :=
  modify fun desk => { desk with notices := desk.notices ++ notices }

def noticesOf (decisions : List Tokenizer.Decision) : List Notice :=
  decisions.filterMap fun
    | .skip position character => some (Notice.uncovered position character)
    | _ => none

def take (walk : σ → Tokenizer.Walk σ) : Call σ (Tokenizer.Walk σ) :=
  modifyGet fun ⟨source, notices⟩ =>
    let taken := walk source
    (taken, ⟨taken.source, notices ++ noticesOf taken.decisions⟩)

/-- Runs a call at a desk: what it gives, and how it leaves the desk. -/
def runOn (call : Call σ α) (desk : Desk σ) : Except Failure α × Desk σ := call.run.run desk

end Call

/-! ## Tokenizations

The ids that a walk through a text has selected, with the marks of beginning and end where they are
asked for, and the places of the characters that no token covers.
-/

structure Tokenization where
  text : Text
  ids : List Nat
  skipped : List Nat
deriving DecidableEq

namespace Tokenization

def count (tokenization : Tokenization) : Nat := tokenization.ids.length

def isLossless (tokenization : Tokenization) : Bool := tokenization.skipped.isEmpty

def toDocument (tokenization : Tokenization) : Document :=
  .object [
    ("text", .ofText tokenization.text),
    ("token_ids", .array (tokenization.ids.map .natural)),
    ("skipped_positions", .array (tokenization.skipped.map .natural)),
    ("is_lossless", .bool tokenization.isLossless),
    ("token_count", .natural tokenization.count)]

end Tokenization

namespace Tokenizer

def summary (tokenizer : Tokenizer) : Text :=
  "NondeterministicTokenizer(vocab_size=".toList ++ naturalText tokenizer.vocabulary.size
    ++ ", special=".toList ++ naturalText tokenizer.special.length ++ [')']

def mark (requested : Bool) (id : Option Nat) (absent : Failure) : Except Failure (List Nat) :=
  if requested then
    match id with
    | some id => .ok [id]
    | none => .error absent
  else .ok []

/-- What comes of a walk. A walk that stopped short has failed, whatever the marks. -/
def outcome {σ : Type} (tokenizer : Tokenizer) (options : Options) (text : Text) (walk : Walk σ) :
    Except Failure Tokenization :=
  match walk.uncovered with
  | some (position, character) => .error (.uncovered position character)
  | none =>
    match mark options.addBos tokenizer.vocabulary.bos .absentBos with
    | .error failure => .error failure
    | .ok first =>
      match mark options.addEos tokenizer.vocabulary.eos .absentEos with
      | .error failure => .error failure
      | .ok last => .ok ⟨text, first ++ walk.ids ++ last, walk.skipped⟩

variable {σ : Type} [RandomSource σ]

/-- Fails where a token is to be selected for the first time, if the options do not allow any to be
selected. What is left out before that is noted. -/
def requireMeasure (tokenizer : Tokenizer) (options : Options) (text : Text) : Call σ Unit := do
  let walk := tokenizer.walk options text (← get).source
  if !options.isMeasurable && walk.decisions.any Decision.isEmit then
    Call.noteAll (Call.noticesOf walk.beforeSelection)
    throw .unmeasurable

def tokenizeHere (tokenizer : Tokenizer) (options : Options) (text : Text) :
    Call σ Tokenization := do
  tokenizer.requireMeasure options text
  let walk ← Call.take (tokenizer.walk options text)
  let tokenization ← Call.ofExcept (tokenizer.outcome options text walk)
  unless tokenization.isLossless do Call.note (.dropped tokenization.skipped.length)
  return tokenization

def tokenize (tokenizer : Tokenizer) (options : Options) (text : Text) (supply : Supply σ) :
    Call σ Tokenization := do
  Call.start supply (options.seed.map Int.ofNat)
  tokenizer.tokenizeHere options text

def detokenize (tokenizer : Tokenizer) (ids : List Int) : Text := tokenizer.vocabulary.decode ids

def tokensAt (tokenizer : Tokenizer) (text : Text) : Int → List (Match Nat)
  | .ofNat start => if start < text.length then tokenizer.trie.matchesOf (text.drop start) else []
  | .negSucc _ => []

end Tokenizer

end Tessera
