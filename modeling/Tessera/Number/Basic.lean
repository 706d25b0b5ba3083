import Tessera.Number.Binary64
import Tessera.Text.Character

/-!
# Numbers and their readings

Numbers that are given from outside, and what texts and documents spell for numbers.
-/

set_option autoImplicit false

/-! ## Numbers

A number given from outside is an exact integer or a floating-point number; it keeps its form, because
messages echo it in that form.
-/

namespace Tessera

inductive Number where
  | integer (value : Int)
  | real (value : Float)
deriving Inhabited

namespace Number

def toFloat : Number → Float
  | .integer value => Binary64.nearest (decide (value < 0)) value.natAbs 1
  | .real value => value

/-- Whether an exact integer is small enough for a floating-point number to come close to it. -/
def inRange : Number → Bool
  | .integer value => decide (Binary64.nearestBits value.natAbs 1 < Binary64.infinityBits)
  | .real _ => true

def messageText : Number → Text
  | .integer value => integerText value
  | .real value => RealStyle.message.render value

def integerValue? : Number → Option Int
  | .integer value => some value
  | .real value =>
    match Binary64.ofFloat value with
    | .finite negative mantissa (.ofNat power) =>
      let magnitude : Int := (mantissa * Nat.pow 2 power : Nat)
      some (if negative then -magnitude else magnitude)
    | .finite negative mantissa (.negSucc power) =>
      if mantissa % Nat.pow 2 (power + 1) = 0 then
        let magnitude : Int := (mantissa / Nat.pow 2 (power + 1) : Nat)
        some (if negative then -magnitude else magnitude)
      else none
    | _ => none

/-- Whether a number is below zero; an undefined one is not. -/
def isNegative : Number → Bool
  | .integer value => decide (value < 0)
  | .real value => value < 0

end Number

/-! ## Numbers read from text

An integer is an optional sign and digits. A real number may have a point among its digits and an
exponent after them, or be spelled as a word. White space around a number does not count. Which
characters are digits, and whether a single underscore may stand between two of them, depends on where
the text comes from.
-/

structure NumeralRules where
  digit? : Char → Option Nat
  /-- Whether a single underscore may stand between two digits. -/
  separators : Bool

namespace NumeralRules

def asciiDigit? (c : Char) : Option Nat :=
  if '0' ≤ c ∧ c ≤ '9' then some (c.toNat - 48) else none

/-- On a command line the digits of every script count. -/
def commandLine : NumeralRules := ⟨decimalDigit?, true⟩

/-- In a document only ASCII digits count, and nothing may stand between them. -/
def document : NumeralRules := ⟨asciiDigit?, false⟩

def startsWithDigit (rules : NumeralRules) (text : Text) : Bool :=
  match text with
  | [] => false
  | c :: _ => (rules.digit? c).isSome

/-- The digits at the start of a text, and what follows them. An underscore is passed over only where
it may stand, behind a digit and before another. -/
def digitRunFrom (rules : NumeralRules) (behindDigit : Bool) : Text → List Nat × Text
  | [] => ([], [])
  | c :: rest =>
    match rules.digit? c with
    | some digit =>
      let (digits, remainder) := rules.digitRunFrom true rest
      (digit :: digits, remainder)
    | none =>
      if rules.separators && c = '_' && behindDigit && rules.startsWithDigit rest then
        rules.digitRunFrom false rest
      else ([], c :: rest)

def digitRun (rules : NumeralRules) (text : Text) : List Nat × Text := rules.digitRunFrom false text

def ofDigits (digits : List Nat) : Nat := digits.foldl (fun value digit => 10 * value + digit) 0

def takeSign : Text → Bool × Text
  | '-' :: rest => (true, rest)
  | '+' :: rest => (false, rest)
  | text => (false, text)

def integer? (rules : NumeralRules) (text : Text) : Option Int :=
  let (negative, unsigned) := takeSign (text.trim isWhiteSpace)
  match rules.digitRun unsigned with
  | (first :: more, []) =>
    let magnitude : Int := ofDigits (first :: more)
    some (if negative then -magnitude else magnitude)
  | _ => none

/-- Reads an exponent, or nothing at the end of the text. -/
def exponent? (rules : NumeralRules) : Text → Option Int
  | [] => some 0
  | mark :: rest =>
    if mark = 'e' || mark = 'E' then
      let (negative, unsigned) := takeSign rest
      match rules.digitRun unsigned with
      | ([], _) => none
      | (digits, []) => some (if negative then -(ofDigits digits : Int) else ofDigits digits)
      | (_, _ :: _) => none
    else none

def real? (rules : NumeralRules) (text : Text) : Option Float :=
  let (negative, unsigned) := takeSign (text.trim isWhiteSpace)
  let word := unsigned.map Char.toLower
  if word = "inf".toList || word = "infinity".toList then
    some (Binary64.signed negative Binary64.infinityBits)
  else if word = "nan".toList then some (0 / 0)
  else
    let (whole, rest) := rules.digitRun unsigned
    let (fraction, tail) := match rest with
      | '.' :: more => rules.digitRun more
      | _ => ([], rest)
    if whole.isEmpty && fraction.isEmpty then none
    else (rules.exponent? tail).map fun exponent =>
      Binary64.nearestDecimal negative (ofDigits (whole ++ fraction)) (exponent - fraction.length)

end NumeralRules

/-! ## Numerals in documents

An integer in a document is a numeral: an optional minus sign and digits without a leading zero. Where a
record expects a number it also takes one from a text, and there the spelling may be looser: white
space around it, a plus sign, zeros behind the sign, a fraction of zeros, and single underscores.
-/

inductive IntegerReading where
  | value (value : Int)
  | tooLong
  | unreadable
deriving DecidableEq

namespace Numeral

/-- The most digits of a numeral before its point. -/
def sizeLimit : Nat := 4300

def takeMinus : Text → Bool × Text
  | '-' :: rest => (true, rest)
  | text => (false, text)

/-- Whether digits are those of a numeral: at least one, and no leading zero but a lone one. -/
def areWhole : Text → Bool
  | [] => false
  | ['0'] => true
  | first :: _ => first != '0'

/-- Reads a numeral. One that starts with too many digits is too long, whatever follows them. -/
def read (text : Text) : IntegerReading :=
  let unsigned := (takeMinus text).2
  let digits := unsigned.takeWhile Char.isDigit
  if !areWhole digits then .unreadable
  else if sizeLimit < digits.length then .tooLong
  else if digits.length < unsigned.length then .unreadable
  else
    match NumeralRules.document.integer? text with
    | some value => .value value
    | none => .unreadable

/-! ### Looser spellings -/

/-- What is left behind a leading zero once the zeros and underscores after it are passed over; `last` is
the character passed over last. A zero in front of a point stays, and so does the last character if
there is nothing else. A minus sign that comes first here stays too. -/
def behindZeros? (last : Char) : Text → Option Text
  | [] => some [last]
  | c :: rest =>
    if c = '0' || c = '_' then behindZeros? c rest
    else if c = '-' || c.isDigit then some (c :: rest)
    else if c = '.' then some (last :: c :: rest)
    else none

/-- Takes leading zeros off. There is nothing to take them off if the text does not start with a digit. -/
def withoutLeadingZeros? : Text → Option Text
  | [] => none
  | c :: rest =>
    if c = '0' then behindZeros? c rest
    else if c.isDigit then some (c :: rest)
    else none

/-- Takes a point and the zeros behind it off, if there are only zeros and at least one. -/
def withoutZeroFraction (text : Text) : Text :=
  match text.dropWhile (· ≠ '.') with
  | _ :: first :: zeros =>
    if (first :: zeros).all (· = '0') then text.takeWhile (· ≠ '.') else text
  | _ => text

def hasDoubleUnderscore : Text → Bool
  | '_' :: '_' :: _ => true
  | _ :: rest => hasDoubleUnderscore rest
  | [] => false

/-- Takes the underscores out, each of which must stand alone between other characters. -/
def withoutUnderscores? (text : Text) : Option Text :=
  if text.head? = some '_' || text.getLast? = some '_' || hasDoubleUnderscore text then none
  else some (text.filter (· ≠ '_'))

/-- A looser spelling turned into a numeral, as far as that goes. A sign is put aside until the digits
behind it are tight, and only a minus sign comes back. -/
def tightened? (text : Text) : Option Text := do
  let (negative, unsigned) := NumeralRules.takeSign (text.trim isWhiteSpace)
  let whole ← (withoutLeadingZeros? unsigned).map withoutZeroFraction
  let digits := (withoutUnderscores? whole).getD whole
  return if negative then '-' :: digits else digits

/-- Reads an integer from a text: a numeral, or a looser spelling of one. Only a numeral as it stands is
too long; a looser spelling of one that is too long is just unreadable. -/
def readText (text : Text) : IntegerReading :=
  match read text with
  | .unreadable =>
    match (tightened? text).map read with
    | some (.value value) => .value value
    | _ => .unreadable
  | reading => reading

/-- Reads a real number from a text. Underscores may stand in it anywhere but at its ends, though then
no white space may. -/
def realOfText? (text : Text) : Option Float :=
  match NumeralRules.document.real? text with
  | some value => some value
  | none =>
    match withoutUnderscores? text with
    | some plain =>
      if plain.any isWhiteSpace then none else NumeralRules.document.real? plain
    | none => none

end Numeral

end Tessera
