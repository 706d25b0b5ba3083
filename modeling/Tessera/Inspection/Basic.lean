import Tessera.Document.Basic
import Tessera.Tokenizer.Tokenization

/-!
# Inspections

What a tokenization shows token by token, for one result and for several.
-/

set_option autoImplicit false

/-! ## What is shown

An inspection shows a tokenization token by token: the text of each, its id, its length, and whether it
is special.
-/

namespace Tessera

structure TokenInfo where
  text : Text
  id : Int
  length : Int
  isSpecial : Bool
deriving DecidableEq

namespace TokenInfo

def summary (info : TokenInfo) : Text :=
  '[' :: (integerText info.id ++ "] '".toList ++ info.text ++ "' (".toList ++ integerText info.length
    ++ "c)".toList ++ (if info.isSpecial then " [SPECIAL]" else "").toList)

def recordKind : String := "TokenInfo"

open Document in
def ofDocument : Document → Checked TokenInfo :=
  asRecord recordKind fun fields =>
    TokenInfo.mk
      <$> required fields "token" asText
      <*> required fields "token_id" asInteger
      <*> required fields "char_length" asInteger
      <*> withDefault fields "is_special" false asBool

def toDocument (info : TokenInfo) : Document :=
  .object [
    ("token", .ofText info.text),
    ("token_id", .integer info.id),
    ("char_length", .integer info.length),
    ("is_special", .bool info.isSpecial)]

end TokenInfo

structure Inspection where
  text : Text
  tokens : List TokenInfo
  /-- The offsets of the characters that were left out. -/
  skipped : List Int
deriving DecidableEq

namespace Inspection

def count (inspection : Inspection) : Nat := inspection.tokens.length

def pieces (inspection : Inspection) : List Text := inspection.tokens.map (·.text)

/-- Whether the texts of the tokens make up the text. -/
def roundTrips (inspection : Inspection) : Bool := inspection.pieces.flatten = inspection.text

def brackets (inspection : Inspection) : Text :=
  inspection.pieces.flatMap fun piece => '[' :: (piece ++ [']'])

def separated (inspection : Inspection) (separator : Text) : Text :=
  separator.intercalate inspection.pieces

def defaultSeparator : Text := ['|']

def columnWidth : Nat := 14

/-- The quoted text of a token, cut to the width of its column. -/
def cell (text : Text) : Text :=
  let quoted := text.quoted
  if columnWidth < quoted.length then quoted.take (columnWidth - 3) ++ "...".toList else quoted

def row (place : Nat) (info : TokenInfo) : Text :=
  " | ".toList.intercalate [
    Text.padLeft 3 (naturalText place),
    Text.padLeft 7 (integerText info.id),
    Text.padRight columnWidth (cell info.text),
    integerText info.length]

def rowsFrom (place : Nat) : List TokenInfo → List Text
  | [] => []
  | info :: rest => row place info :: rowsFrom (place + 1) rest

def table (inspection : Inspection) : Text :=
  ['\n'].intercalate
    ("Pos | ID      | Token          | Chars".toList :: List.replicate 45 '-'
      :: rowsFrom 0 inspection.tokens)

def recordKind : String := "TokenInspection"

open Document in
def ofDocument : Document → Checked Inspection :=
  asRecord recordKind fun fields =>
    Inspection.mk
      <$> required fields "text" asText
      <*> withDefault fields "tokens" [] (asList TokenInfo.ofDocument)
      <*> withDefault fields "skipped_positions" [] (asList asInteger)

def toDocument (inspection : Inspection) : Document :=
  .object [
    ("text", .ofText inspection.text),
    ("tokens", .array (inspection.tokens.map (·.toDocument))),
    ("skipped_positions", .array (inspection.skipped.map .integer)),
    ("token_count", .natural inspection.count),
    ("round_trips", .bool inspection.roundTrips)]

end Inspection

end Tessera

/-! ## Inspecting and sampling

An inspector tokenizes a text once or several times and shows what came of it. Of the special ids it
knows those whose texts are kept together, and the marks of beginning and end.
-/

namespace Tessera.Tokenizer

def shownSpecialIds (tokenizer : Tokenizer) : List Nat :=
  tokenizer.special.map Prod.snd ++ tokenizer.vocabulary.bos.toList
    ++ tokenizer.vocabulary.eos.toList

def info (tokenizer : Tokenizer) (id : Nat) : TokenInfo :=
  let text := (tokenizer.vocabulary.token? id).getD []
  ⟨text, id, text.length, tokenizer.shownSpecialIds.contains id⟩

def inspectionOf (tokenizer : Tokenizer) (tokenization : Tokenization) : Inspection :=
  ⟨tokenization.text, tokenization.ids.map tokenizer.info, tokenization.skipped.map Int.ofNat⟩

variable {σ : Type} [RandomSource σ]

def inspect (tokenizer : Tokenizer) (text : Text) (options : Options) (supply : Supply σ) :
    Call σ Inspection := do
  return tokenizer.inspectionOf (← tokenizer.tokenize options text supply)

/-- The seed of a draw: each draw of a seeded series has a seed of its own, one after the other. -/
def drawSeed (seed : Option Int) (draw : Nat) : Option Int := seed.map fun start => start + draw

/-- The draws of a series from `draw` on. The seed of a draw takes the place of that of the options. -/
def samplesFrom (tokenizer : Tokenizer) (text : Text) (options : Options)
    (given : Options.Overrides) (seed : Option Int) (supply : Supply σ) (draw : Nat) :
    Nat → Call σ (List Inspection)
  | 0 => pure []
  | more + 1 => do
    let chosen ← Call.ofOptions
      (options.override { given with seed := some (drawSeed seed draw) })
    let inspection ← tokenizer.inspect text chosen supply
    return inspection :: (← samplesFrom tokenizer text options given seed supply (draw + 1) more)

def sample (tokenizer : Tokenizer) (text : Text) (draws : Int) (options : Options)
    (given : Options.Overrides) (seed : Option Int) (supply : Supply σ) :
    Call σ (List Inspection) :=
  tokenizer.samplesFrom text options given seed supply 0 draws.toNat

def countTokens (tokenizer : Tokenizer) (text : Text) (strategy : String) (supply : Supply σ) :
    Call σ Nat := do
  let options ← Call.ofOptions
    (Options.default.override { Options.Overrides.none with strategy := some strategy })
  return (← tokenizer.tokenize options text supply).count

end Tessera.Tokenizer
