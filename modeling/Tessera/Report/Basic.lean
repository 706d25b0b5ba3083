import Tessera.Compression.Basic
import Tessera.Inspection.Basic

/-!
# Reports

Results in words, figures and bars, for people to read.
-/

set_option autoImplicit false

namespace Tessera.Report

/-! ## Parts of reports -/

def label (charsPerToken : Float) : String :=
  if charsPerToken ≥ 4.0 then "STRONG" else if charsPerToken ≥ 2.0 then "MODERATE" else "WEAK"

inductive Error where
  /-- A bar was to be drawn for a value that is no number. -/
  | undefinedShare
  | emptyWhole
  | quotientOutOfRange
  /-- A share was to be taken of a width that no floating-point number comes close to. -/
  | widthOutOfRange
  | lengthOutOfRange
  | noRoom
deriving DecidableEq

def Error.message : Error → String
  | .undefinedShare => "cannot convert float NaN to integer"
  | .emptyWhole => "division by zero"
  | .quotientOutOfRange => "integer division result too large for a float"
  | .widthOutOfRange => "int too large to convert to float"
  | .lengthOutOfRange => "cannot fit 'int' into an index-sized integer"
  | .noRoom => ""

def wholePart? (x : Float) : Option Int :=
  match Binary64.ofFloat x with
  | .finite negative mantissa (.ofNat power) => some (signed negative (mantissa * Nat.pow 2 power))
  | .finite negative mantissa (.negSucc power) => some (signed negative (mantissa / Nat.pow 2 (power + 1)))
  | _ => none
where
  signed (negative : Bool) (magnitude : Nat) : Int :=
    if negative then -(magnitude : Int) else magnitude

def unitShare (share : Float) : Float :=
  let least := if 0 > share then 0 else share
  if 1 < least then 1 else least

/-- How much of a width a share of it is. All of it, or nothing, if the share is an integer in the range
from zero to one; otherwise the product of floating-point numbers, without its fraction. -/
def portion (share : Number) (width : Int) : Except Error Int :=
  match share with
  | .integer 0 => .ok 0
  | .integer 1 => .ok width
  | _ =>
    if !(Number.integer width).inRange then .error .widthOutOfRange
    else
      match wholePart? (unitShare share.toFloat * (Number.integer width).toFloat) with
      | none => .error .undefinedShare
      | some filled => .ok filled

/-- The number of characters for which there is no room. -/
def roomLimit : Int := 10000000000

/-- A character as often as a count says, or not at all if that is below zero. -/
def repeated (c : Char) (count : Int) : Except Error Text :=
  if count < -Document.wordBound ∨ Document.wordBound ≤ count then .error .lengthOutOfRange
  else if roomLimit ≤ count then .error .noRoom
  else .ok (List.replicate count.toNat c)

def bar (share : Number) (width : Int) : Except Error Text := do
  let filled ← portion share width
  let full ← repeated '#' filled
  let blank ← repeated '-' (width - filled)
  return '[' :: (full ++ blank ++ [']'])

def barWidth : Int := 20

def previewLimit : Int := 10

/-- The first tokens, quoted. A negative limit leaves off that many at the end. -/
def preview (tokens : List Text) (limit : Int) : Text :=
  let shown := ", ".toList.intercalate ((leading limit tokens).map Text.quoted)
  let more := if limit < tokens.length then ", ...".toList else []
  '[' :: (shown ++ more ++ [']'])

def quotient (numerator denominator : Int) : Except Error Float :=
  let bits := Binary64.nearestBits numerator.natAbs denominator.natAbs
  if denominator = 0 then .error .emptyWhole
  else if Binary64.infinityBits ≤ bits then .error .quotientOutOfRange
  else .ok (Binary64.signed (decide (numerator < 0) != decide (denominator < 0)) bits)

def lines (parts : List Text) : Text := ['\n'].intercalate parts

def ratioText (charsPerToken : Float) : Text :=
  fixedText 2 charsPerToken ++ " chars/token".toList

/-! ## Reports -/

def compression (result : Compressed) (limit : Int) : Text :=
  lines [
    "Text: ".toList ++ result.text.quoted,
    "Characters: ".toList ++ naturalText result.size,
    "Tokens: ".toList ++ naturalText result.count,
    "Ratio: ".toList ++ ratioText result.charsPerToken ++ " (".toList
      ++ (label result.charsPerToken).toList ++ [')'],
    "Avg token length: ".toList ++ fixedText 2 result.meanLength,
    "Tokens: ".toList ++ preview result.pieces limit]

def side (title : String) (result : Compressed) (worst : Nat) : Except Error Text :=
  (bar (.real (ratio result.count worst)) barWidth).map fun drawn =>
    title.toList ++ Text.padLeft 5 (naturalText result.count) ++ " tokens ".toList ++ drawn ++ ' '
      :: ratioText result.charsPerToken

def comparison (comparison : Comparison) : Except Error Text := do
  let worst := max comparison.least.count 1
  let most ← side "Most compressed:  " comparison.most worst
  let least ← side "Least compressed: " comparison.least worst
  return lines [
    "Text: ".toList ++ comparison.text.quoted ++ " (".toList
      ++ naturalText comparison.text.length ++ " chars)".toList,
    List.replicate 60 '=',
    most,
    least,
    List.replicate 60 '-',
    "Improvement factor: ".toList ++ fixedText 2 comparison.improvement ++ ['x']]

def histogramLine (peak : Int) (entry : Int × Int) : Except Error Text := do
  let drawn ← bar (.real (← quotient entry.2 peak)) 30
  return "  ".toList ++ Text.padLeft 3 (integerText entry.1) ++ " chars: ".toList
    ++ Text.padLeft 4 (integerText entry.2) ++ ' ' :: drawn

def histogram (distribution : Distribution) : Except Error (List Text) :=
  match distribution with
  | [] => .ok []
  | first :: rest =>
    let peak := rest.foldl (fun peak entry => max peak entry.2) first.2
    (distribution.mergeSort fun a b => decide (a.1 ≤ b.1)).mapM (histogramLine peak)

def statistics (statistics : Statistics) : Except Error Text := do
  let drawn ← histogram statistics.lengths
  let title := if drawn.isEmpty then [] else ["Token length distribution:".toList]
  return lines ([
    "Total characters: ".toList ++ integerText statistics.totalChars,
    "Token count range: ".toList ++ integerText statistics.minTokens ++ " - ".toList
      ++ integerText statistics.maxTokens,
    "Best ratio: ".toList ++ ratioText statistics.bestRatio,
    "Worst ratio: ".toList ++ ratioText statistics.worstRatio] ++ title ++ drawn)

def inspection (inspection : Inspection) (separator : Text) : Text :=
  inspection.separated separator ++ "\n  ".toList ++ naturalText inspection.count
    ++ " tokens, round-trip ".toList ++ (if inspection.roundTrips then "ok" else "LOSSY").toList

def notices (result : Compressed) (compared : Option Comparison) : Except Error (List Notice) := do
  let first := Notice.report (compression result previewLimit)
  match compared with
  | none => return [first]
  | some other => return [first, .report (← comparison other)]

end Tessera.Report
