import Tessera.Number.Basic
import Tessera.Random.Source
import Tessera.Vocabulary.Lookup

/-!
# Strategies and options

How one of the matching tokens is selected, and what else can be asked of a tokenization.
-/

set_option autoImplicit false

/-! ## Selection of a token

At a place of a text several tokens may match. A strategy says which of them are in play, and a random
number decides among those. All that a strategy knows of a candidate is its length.
-/

namespace Tessera

inductive Strategy where
  | random
  | shortest
  | longest
  /-- All of them, the more likely the closer their length is to an ideal one. -/
  | idealLength
deriving DecidableEq

namespace Strategy

def all : List Strategy := [.random, .shortest, .longest, .idealLength]

def name : Strategy → String
  | .random => "random"
  | .shortest => "shortest"
  | .longest => "longest"
  | .idealLength => "ideal-length"

def ofName? (name : String) : Option Strategy := all.find? fun strategy => strategy.name = name

end Strategy

namespace Selection

variable {σ α : Type}

def uniform [RandomSource σ] (elements : List α) (source : σ) : Option (α × σ) :=
  match elements with
  | [] => none
  | first :: rest =>
    let (place, after) := RandomSource.below (rest.length + 1) (Nat.succ_pos _) source
    some ((first :: rest).get place, after)

/-- One element of a list, with chances in proportion to its weight. -/
def weighted [RandomSource σ] (weight : α → Float) (elements : List α) (source : σ) :
    Option (α × σ) :=
  match elements with
  | [] => none
  | first :: rest =>
    let (draw, after) := RandomSource.fraction source
    let place := (Weighted.index? ((first :: rest).map weight) draw).getD 0
    some ((first :: rest)[place]?.getD first, after)

def leastLength (length : α → Int) (candidates : List α) : Int :=
  ((candidates.map length).min?).getD 0

def greatestLength (length : α → Int) (candidates : List α) : Int :=
  ((candidates.map length).max?).getD 0

def shortestOf (length : α → Int) (candidates : List α) : List α :=
  let least := leastLength length candidates
  candidates.filter fun candidate => length candidate = least

def longestOf (length : α → Int) (candidates : List α) : List α :=
  let greatest := greatestLength length candidates
  candidates.filter fun candidate => length candidate = greatest

/-- How much a candidate counts whose length should be close to an ideal one. -/
def closeness (ideal : Float) (length : Int) : Float :=
  1.0 / (1.0 + ((Number.integer length).toFloat - ideal).abs)

def select [RandomSource σ] (strategy : Strategy) (ideal : Float) (length : α → Int)
    (candidates : List α) (source : σ) : Option (α × σ) :=
  match strategy with
  | .random => uniform candidates source
  | .shortest => uniform (shortestOf length candidates) source
  | .longest => uniform (longestOf length candidates) source
  | .idealLength => weighted (fun candidate => closeness ideal (length candidate)) candidates source

inductive Obstacle where
  | unmeasurable
  | nothing (strategy : Strategy)
deriving DecidableEq

namespace Obstacle

def message : Obstacle → String
  | unmeasurable => "int too large to convert to float"
  | nothing .random => "high <= 0"
  | nothing .shortest => "min() arg is an empty sequence"
  | nothing .longest => "max() arg is an empty sequence"
  | nothing .idealLength => "list index out of range"

end Obstacle

/-- Whether a strategy can measure the candidates: where lengths are compared with an ideal one, all of
them have to be in range. -/
def isMeasurable (strategy : Strategy) (ideal : Number) (length : α → Int) (candidates : List α) :
    Bool :=
  strategy != .idealLength
    || ideal.inRange && candidates.all fun candidate => (Number.integer (length candidate)).inRange

def attempt [RandomSource σ] (strategy : Strategy) (ideal : Number) (length : α → Int)
    (candidates : List α) (source : σ) : Except Obstacle (α × σ) :=
  if !isMeasurable strategy ideal length candidates then .error .unmeasurable
  else
    match select strategy ideal.toFloat length candidates source with
    | some selected => .ok selected
    | none => .error (.nothing strategy)

end Selection

/-! ## Options of tokenization -/

namespace Tokenizer

structure Options where
  strategy : Strategy
  idealLength : Number
  /-- The seed of a source that is made for one call. -/
  seed : Option Nat
  addBos : Bool
  addEos : Bool
  /-- Whether special texts are kept together. Otherwise special ids are used only where nothing else
  matches. -/
  preserveSpecial : Bool
  /-- Whether a character without a token is an error; otherwise it is left out. -/
  strict : Bool

inductive OptionError where
  | unknownStrategy (name : String)
  /-- The ideal length is of a kind that cannot be compared with zero. -/
  | unorderedIdealLength (kind : String)
  | negativeIdealLength (value : Number)
  | negativeSeed (value : Int)

namespace Options

def defaultIdealLength : Number := .integer 4

inductive GivenLength where
  | number (value : Number)
  | other (kind : String)

/-- Options of which only some are given, not checked yet. A seed may be given as none. -/
structure Overrides where
  strategy : Option String
  idealLength : Option GivenLength
  seed : Option (Option Int)
  addBos : Option Bool
  addEos : Option Bool
  preserveSpecial : Option Bool
  strict : Option Bool

namespace Overrides

def none : Overrides := ⟨.none, .none, .none, .none, .none, .none, .none⟩

end Overrides

def default : Options :=
  ⟨.random, defaultIdealLength, none, false, false, true, false⟩

def ofStrategy (strategy : Strategy) : Options := { default with strategy := strategy }

/-- Whether tokens can be selected under the options: where lengths are compared with an ideal one, that
has to be in range. -/
def isMeasurable (options : Options) : Bool :=
  options.strategy != .idealLength || options.idealLength.inRange

def checkStrategy (name : String) : Except OptionError Strategy :=
  match Strategy.ofName? name with
  | some strategy => .ok strategy
  | none => .error (.unknownStrategy name)

/-- An ideal length is a number, and no negative one. -/
def checkIdealLength : GivenLength → Except OptionError Number
  | .other kind => .error (.unorderedIdealLength kind)
  | .number value => if value.isNegative then .error (.negativeIdealLength value) else .ok value

def checkSeed : Option Int → Except OptionError (Option Nat)
  | none => .ok none
  | some value => if value < 0 then .error (.negativeSeed value) else .ok (some value.toNat)

/-- Replaces the options that are given, and checks them: first the strategy, then the ideal length,
then the seed. -/
def override (options : Options) (given : Overrides) : Except OptionError Options := do
  let strategy ← match given.strategy with
    | some name => checkStrategy name
    | none => .ok options.strategy
  let idealLength ← checkIdealLength (given.idealLength.getD (.number options.idealLength))
  let seed ← match given.seed with
    | some seed => checkSeed seed
    | none => .ok options.seed
  return {
    strategy := strategy
    idealLength := idealLength
    seed := seed
    addBos := given.addBos.getD options.addBos
    addEos := given.addEos.getD options.addEos
    preserveSpecial := given.preserveSpecial.getD options.preserveSpecial
    strict := given.strict.getD options.strict }

end Options

end Tokenizer

end Tessera
