import Tessera.Document.Basic
import Tessera.Tokenizer.Tokenization

/-!
# Compression

Texts are compressed by tokenizations, more or less strongly, and the results are compared.
-/

set_option autoImplicit false

/-! ## Compressed texts

A text together with the ids that stand for it, and the figures that say how well it was compressed:
the fewer ids, the better.
-/

namespace Tessera

structure Compressed where
  text : Text
  ids : List Int
  pieces : List Text
deriving DecidableEq

namespace Compressed

def count (result : Compressed) : Nat := result.ids.length

def size (result : Compressed) : Nat := result.text.length

/-- A quotient, which is zero where there is nothing to divide by. -/
def ratioOrZero (numerator denominator : Nat) : Float :=
  if denominator = 0 then 0 else ratio numerator denominator

def charsPerToken (result : Compressed) : Float := ratioOrZero result.size result.count

def meanLength (result : Compressed) : Float :=
  ratioOrZero result.pieces.flatten.length result.pieces.length

def summary (result : Compressed) : Text :=
  naturalText result.size ++ " chars -> ".toList ++ naturalText result.count ++ " tokens (".toList
    ++ fixedText 2 result.charsPerToken ++ " chars/token)".toList

def recordKind : String := "CompressionResult"

open Document in
/-- Reads a record. The figures follow from the other fields and are not read. -/
def ofDocument : Document → Checked Compressed :=
  asRecord recordKind fun fields =>
    Compressed.mk
      <$> required fields "text" asText
      <*> withDefault fields "tokens" [] (asList asInteger)
      <*> withDefault fields "token_strings" [] (asList asText)

def toDocument (result : Compressed) : Document :=
  .object [
    ("text", .ofText result.text),
    ("tokens", .array (result.ids.map .integer)),
    ("token_strings", .array (result.pieces.map .ofText)),
    ("token_count", .natural result.count),
    ("char_count", .natural result.size),
    ("compression_ratio", .real result.charsPerToken),
    ("avg_token_length", .real result.meanLength)]

end Compressed

namespace Tokenizer

/-- The text of an id; an id without a token has none. -/
def piece (tokenizer : Tokenizer) (id : Nat) : Text := (tokenizer.vocabulary.token? id).getD []

def compressed (tokenizer : Tokenizer) (text : Text) (ids : List Nat) : Compressed :=
  ⟨text, ids.map Int.ofNat, ids.map tokenizer.piece⟩

end Tokenizer

/-! ## Strength of compression

A text is compressed most by the longest tokens. Weaker compression aims at an ideal length between the
shortest and the longest tokens, or prefers long tokens by a factor that grows with their length.
-/

namespace Selection

/-- How much a token counts under a pull towards long tokens, relative to one whose pull is `top`. -/
def pulledWeight (pull top : Float) (m : Match Nat) : Float := Float.exp (exponent pull m - top)
where
  exponent (pull : Float) (m : Match Nat) : Float := pull * m.length.toFloat * 2.0

/-- The greatest exponent among some tokens. Weights are taken relative to it, so none is infinite. -/
def topExponent (pull : Float) : List (Match Nat) → Float
  | [] => 0
  | first :: rest =>
    rest.foldl (fun top m =>
      let exponent := pulledWeight.exponent pull m
      if top < exponent then exponent else top) (pulledWeight.exponent pull first)

/-- Selects one of the matches, the longer the more likely if the pull is positive, and the shorter if it
is negative. -/
def pulled {σ : Type} [RandomSource σ] (pull : Float) (candidates : List (Match Nat)) (source : σ) :
    Option (Match Nat × σ) :=
  weighted (pulledWeight pull (topExponent pull candidates)) candidates source

end Selection

namespace Tokenizer

def defaultSample : Int := 10000

/-- The least and the greatest length of the tokens that are not empty, among the first ones of the
vocabulary. -/
def lengthRange (tokenizer : Tokenizer) (sample : Int) : Nat × Nat :=
  let lengths := (leading sample tokenizer.vocabulary.tokens.toList).filterMap fun token =>
    if token.isEmpty then none else some token.length
  match lengths with
  | [] => (1, 1)
  | first :: rest => (rest.foldl min first, rest.foldl max first)

variable {σ : Type} [RandomSource σ]

def compressWith (tokenizer : Tokenizer) (text : Text) (given : Options.Overrides)
    (supply : Supply σ) : Call σ Compressed := do
  let options ← Call.ofOptions (Options.default.override given)
  let tokenization ← tokenizer.tokenize options text supply
  return tokenizer.compressed text tokenization.ids

/-- Compresses a text as far as walking without lookahead goes: by the longest token everywhere. -/
def compress (tokenizer : Tokenizer) (text : Text) (seed : Option Int) (preserveSpecial : Bool)
    (supply : Supply σ) : Call σ Compressed :=
  tokenizer.compressWith text
    { Options.Overrides.none with
      strategy := some Strategy.longest.name
      seed := some seed
      preserveSpecial := some preserveSpecial }
    supply

/-- Compresses a text by tokens whose length is close to an ideal one: the factor says where that lies
between the least and the greatest length. -/
def compressByFactor (tokenizer : Tokenizer) (text : Text) (factor : Number) (seed : Option Int)
    (sample : Int) (supply : Supply σ) : Call σ Compressed := do
  let share := factor.toFloat
  if !(0 ≤ share && share ≤ 1) then throw (.factorOutside factor)
  let (least, greatest) := tokenizer.lengthRange sample
  let ideal := least.toFloat + share * (greatest - least).toFloat
  Call.note (.interpolated share ideal least greatest)
  tokenizer.compressWith text
    { Options.Overrides.none with
      strategy := some Strategy.idealLength.name
      idealLength := some (.number (.real ideal))
      seed := some seed }
    supply

def choosePulled (tokenizer : Tokenizer) (pull : Float) (text : Text) (source : σ) :
    Option (Match Nat × σ) :=
  Selection.pulled pull (tokenizer.trie.matchesOf text) source

/-- Walks through a text under a pull towards long or short tokens. Special texts are walked through
like others. -/
def walkPulled (tokenizer : Tokenizer) (pull : Float) (text : Text) (source : σ) : Walk σ :=
  Walk.along (tokenizer.choosePulled pull) false 0 0 text source

def compressByGradient (tokenizer : Tokenizer) (text : Text) (gradient : Number)
    (seed : Option Int) (supply : Supply σ) : Call σ Compressed := do
  let pull := gradient.toFloat
  if !(-1 ≤ pull && pull ≤ 1) then throw (.gradientOutside gradient)
  Call.start supply seed
  let walk ← Call.take (tokenizer.walkPulled pull text)
  return tokenizer.compressed text walk.ids

end Tokenizer

/-! ## Comparison of compressions

A text is compressed by the longest tokens and by the shortest ones, to see how much there is to gain.
-/

structure Comparison where
  text : Text
  most : Compressed
  least : Compressed
deriving DecidableEq

namespace Comparison

/-- How many times fewer ids the strongest compression takes. -/
def improvement (comparison : Comparison) : Float :=
  if comparison.most.count = 0 then 1
  else ratio comparison.least.count comparison.most.count

def recordKind : String := "CompressionComparison"

open Document in
def ofDocument : Document → Checked Comparison :=
  asRecord recordKind fun fields =>
    Comparison.mk
      <$> required fields "text" asText
      <*> required fields "most_compressed" Compressed.ofDocument
      <*> required fields "least_compressed" Compressed.ofDocument

def toDocument (comparison : Comparison) : Document :=
  .object [
    ("text", .ofText comparison.text),
    ("most_compressed", comparison.most.toDocument),
    ("least_compressed", comparison.least.toDocument),
    ("improvement_factor", .real comparison.improvement)]

end Comparison

namespace Tokenizer

variable {σ : Type} [RandomSource σ]

/-- Compresses a text by the longest tokens, and then by the shortest ones. -/
def compare (tokenizer : Tokenizer) (text : Text) (seed : Option Int) (supply : Supply σ) :
    Call σ Comparison := do
  let most ← tokenizer.compress text seed true supply
  let least ← tokenizer.compressWith text
    { Options.Overrides.none with
      strategy := some Strategy.shortest.name
      seed := some seed }
    supply
  return ⟨text, most, least⟩

end Tokenizer

/-! ## Statistics of compression

The best and the worst figures for a text, and how the lengths of the longest tokens are distributed.
-/

abbrev Distribution := List (Int × Int)

namespace Distribution

/-- Sets the count of a number. A number that is already there keeps its place. -/
def set (key value : Int) : Distribution → Distribution
  | [] => [(key, value)]
  | (other, old) :: rest =>
    if other = key then (other, value) :: rest else (other, old) :: set key value rest

/-- Counts a number once more. A number that was not there comes last. -/
def add (key : Int) : Distribution → Distribution
  | [] => [(key, 1)]
  | (other, count) :: rest =>
    if other = key then (other, count + 1) :: rest else (other, count) :: add key rest

/-- How often each of some numbers occurs, in the order of their first occurrences. -/
def counted (numbers : List Nat) : Distribution :=
  numbers.foldl (fun (distribution : Distribution) (number : Nat) => add number distribution) []

/-- How often each of some numbers occurs, in increasing order. -/
def ofList (numbers : List Nat) : Distribution :=
  (counted numbers).mergeSort fun a b => decide (a.1 ≤ b.1)

end Distribution

structure Statistics where
  totalChars : Int
  minTokens : Int
  maxTokens : Int
  bestRatio : Float
  worstRatio : Float
  lengths : Distribution

namespace Statistics

def recordKind : String := "CompressionStats"

open Document in
/-- Reads one entry of a distribution; its key is a number written as a text. -/
def readEntry (key : String) (value : Document) : Checked (Int × Int) :=
  (Prod.mk <$> (asInteger (.text key)).within (.field "[key]") <*> asInteger value).within (.field key)

def readEntries (known : Distribution) : List (String × Document) → Checked Distribution
  | [] => .accepted known
  | (key, value) :: rest =>
    match readEntry key value with
    | .accepted (number, count) => readEntries (known.set number count) rest
    | .rejected faults =>
      match readEntries known rest with
      | .accepted _ => .rejected faults
      | .rejected others => .rejected (faults ++ others)

def readDistribution : Document → Checked Distribution
  | .object entries => readEntries [] entries
  | _ => .refuse .notObject

open Document in
def ofDocument : Document → Checked Statistics :=
  asRecord recordKind fun fields =>
    Statistics.mk
      <$> required fields "total_chars" asInteger
      <*> required fields "min_tokens" asInteger
      <*> required fields "max_tokens" asInteger
      <*> required fields "best_ratio" asReal
      <*> required fields "worst_ratio" asReal
      <*> withDefault fields "token_length_distribution" [] readDistribution

def toDocument (statistics : Statistics) : Document :=
  .object [
    ("total_chars", .integer statistics.totalChars),
    ("min_tokens", .integer statistics.minTokens),
    ("max_tokens", .integer statistics.maxTokens),
    ("best_ratio", .real statistics.bestRatio),
    ("worst_ratio", .real statistics.worstRatio),
    ("token_length_distribution",
      .object (statistics.lengths.map fun (key, count) =>
        (String.ofList (integerText key), .integer count)))]

end Statistics

namespace Tokenizer

def statisticsOf (tokenizer : Tokenizer) (text : Text) (longest shortest : List Nat) :
    Statistics where
  totalChars := text.length
  minTokens := longest.length
  maxTokens := shortest.length
  bestRatio := Compressed.ratioOrZero text.length longest.length
  worstRatio := Compressed.ratioOrZero text.length shortest.length
  lengths := Distribution.ofList
    (((longest.map tokenizer.piece).filter fun piece => !piece.isEmpty).map List.length)

variable {σ : Type} [RandomSource σ]

/-- Tokenizes a text by the longest tokens and by the shortest ones, and gives the figures of both. -/
def statistics (tokenizer : Tokenizer) (text : Text) (seed : Option Int) (supply : Supply σ) :
    Call σ Statistics := do
  let longest ← tokens .longest
  let shortest ← tokens .shortest
  return tokenizer.statisticsOf text longest shortest
where
  tokens (strategy : Strategy) : Call σ (List Nat) := do
    let options ← Call.ofOptions (Options.default.override
      { Options.Overrides.none with strategy := some strategy.name, seed := some seed })
    return (← tokenizer.tokenize options text supply).ids

end Tokenizer

end Tessera
