import Tessera.Text.Basic

/-!
# Floating-point numbers and their texts

Floating-point numbers by their exact values: the number nearest to a quotient, the shortest decimal that
reads back as a number, and the ways to write one.
-/

set_option autoImplicit false

/-! ## Binary64 values

The exact value behind a floating-point number, and the floating-point number nearest to an exact
quotient. Ties go to the even neighbour, as everywhere in this format.
-/

namespace Tessera

/-- The quotient rounded to the nearest natural number, a half going to the even neighbour. -/
def roundDiv (numerator denominator : Nat) : Nat :=
  let quotient := numerator / denominator
  let remainder := numerator % denominator
  if 2 * remainder < denominator then quotient
  else if denominator < 2 * remainder then quotient + 1
  else quotient + quotient % 2

/-- What a floating-point number stands for. A finite one is `mantissa * 2 ^ exponent`, up to its
sign. -/
inductive Binary64 where
  | undefined
  | infinite (negative : Bool)
  | finite (negative : Bool) (mantissa : Nat) (exponent : Int)
deriving DecidableEq

namespace Binary64

def leastExponent : Int := -1074

/-- Reads the fields of an encoding: one bit of sign, eleven of exponent, fifty-two of mantissa. -/
def ofBits (bits : Nat) : Binary64 :=
  let negative := decide (bits / Nat.pow 2 63 % 2 = 1)
  let exponent : Nat := bits / Nat.pow 2 52 % Nat.pow 2 11
  let fraction := bits % Nat.pow 2 52
  if exponent = Nat.pow 2 11 - 1 then
    if fraction = 0 then .infinite negative else .undefined
  else if exponent = 0 then .finite negative fraction leastExponent
  else .finite negative (Nat.pow 2 52 + fraction) (leastExponent + exponent - 1)

def ofFloat (x : Float) : Binary64 := ofBits x.toBits.toNat

/-- The encoding of positive infinity, above that of every finite number. -/
def infinityBits : Nat := (Nat.pow 2 11 - 1) * Nat.pow 2 52

/-- The exponent at which a positive quotient has a mantissa of fifty-three bits, unless that is below
the least exponent. -/
def scale (numerator denominator : Nat) : Int :=
  let guess : Int := (numerator.log2 : Int) - denominator.log2 - 52
  let small := match guess with
    | .ofNat shift => decide (numerator < Nat.pow 2 52 * Nat.pow 2 shift * denominator)
    | .negSucc shift => decide (numerator * Nat.pow 2 (shift + 1) < Nat.pow 2 52 * denominator)
  max (if small then guess - 1 else guess) leastExponent

/-- The encoding of the floating-point number nearest to a quotient. A mantissa that rounds up to a
power of two carries into the exponent field by itself. -/
def nearestBits (numerator denominator : Nat) : Nat :=
  if numerator = 0 then 0
  else
    let exponent := scale numerator denominator
    let mantissa := match exponent with
      | .ofNat shift => roundDiv numerator (denominator * Nat.pow 2 shift)
      | .negSucc shift => roundDiv (numerator * Nat.pow 2 (shift + 1)) denominator
    min ((exponent - leastExponent).toNat * Nat.pow 2 52 + mantissa) infinityBits

def signed (negative : Bool) (magnitudeBits : Nat) : Float :=
  Float.ofBits (UInt64.ofNat (if negative then Nat.pow 2 63 + magnitudeBits else magnitudeBits))

def nearest (negative : Bool) (numerator denominator : Nat) : Float :=
  signed negative (nearestBits numerator denominator)

/-- The floating-point number nearest to `digits * 10 ^ exponent`, with a sign. Exponents far outside
the format's range are settled without computing the power. -/
def nearestDecimal (negative : Bool) (digits : Nat) (exponent : Int) : Float :=
  let magnitude : Int := (Nat.toDigits 10 digits).length + exponent
  if digits = 0 || magnitude < -400 then signed negative 0
  else if 400 < magnitude then signed negative infinityBits
  else match exponent with
    | .ofNat power => nearest negative (digits * Nat.pow 10 power) 1
    | .negSucc power => nearest negative digits (Nat.pow 10 (power + 1))

end Binary64

def ratio (numerator denominator : Nat) : Float := Binary64.nearest false numerator denominator

/-! ## Shortest decimals

The shortest decimal that reads back as a given floating-point number. The numbers that round to a
given one form an interval. On the grid of the multiples of a power of ten, the interval holds a point
if and only if it holds one of the two neighbours of the value, so the coarsest grid with such a
neighbour has the fewest digits.
-/

structure Decimal where
  digits : Nat
  exponent : Int
deriving DecidableEq

namespace Binary64

structure Interval where
  low : Nat
  value : Nat
  high : Nat
  denominator : Nat
  closed : Bool

/-- Below a power of two the neighbouring number is only half as far away. The ends of the interval
belong to it when the mantissa is even. -/
def roundingInterval (mantissa : Nat) (exponent : Int) : Interval :=
  let below := if mantissa = Nat.pow 2 52 ∧ leastExponent < exponent then 1 else 2
  let scaled (numerator : Nat) : Nat := match exponent with
    | .ofNat power => numerator * Nat.pow 2 power
    | .negSucc _ => numerator
  { low := scaled (4 * mantissa - below)
    value := scaled (4 * mantissa)
    high := scaled (4 * mantissa + 2)
    denominator := match exponent with
      | .ofNat _ => 4
      | .negSucc power => 4 * Nat.pow 2 (power + 1)
    closed := decide (mantissa % 2 = 0) }

def Interval.inUnitsOf (interval : Interval) (power : Int) : Interval :=
  match power with
  | .ofNat p => { interval with denominator := interval.denominator * Nat.pow 10 p }
  | .negSucc p => { interval with
      low := interval.low * Nat.pow 10 (p + 1)
      value := interval.value * Nat.pow 10 (p + 1)
      high := interval.high * Nat.pow 10 (p + 1) }

def Interval.holds (interval : Interval) (point : Nat) : Bool :=
  let scaled := point * interval.denominator
  if interval.closed then decide (interval.low ≤ scaled) && decide (scaled ≤ interval.high)
  else decide (interval.low < scaled) && decide (scaled < interval.high)

/-- The natural number in an interval that is nearest to its value; a tie goes to the even one. -/
def Interval.nearestPoint? (interval : Interval) : Option Nat :=
  let floor := interval.value / interval.denominator
  let remainder := interval.value % interval.denominator
  match interval.holds floor, interval.holds (floor + 1) with
  | false, false => none
  | true, false => some floor
  | false, true => some (floor + 1)
  | true, true =>
    if 2 * remainder < interval.denominator then some floor
    else if interval.denominator < 2 * remainder then some (floor + 1)
    else some (floor + floor % 2)

/-- Tries ever finer grids, from the multiples of `10 ^ power` on. -/
def coarsestPoint (interval : Interval) : Nat → Int → Decimal
  | 0, power => ⟨0, power⟩
  | fuel + 1, power =>
    match (interval.inUnitsOf power).nearestPoint? with
    | some point => ⟨point, power⟩
    | none => coarsestPoint interval fuel (power - 1)

/-- A power of ten that is larger than a positive number and at most some thousand times as large. -/
def powerAbove (mantissa : Nat) (exponent : Int) : Int :=
  (((mantissa.log2 : Int) + exponent) * 1233).fdiv 4096 + 2

/-- The shortest decimal that reads back as `mantissa * 2 ^ exponent`, and the nearest to it of those.
Seventeen digits always suffice. -/
def shortest (mantissa : Nat) (exponent : Int) : Decimal :=
  coarsestPoint (roundingInterval mantissa exponent) 24 (powerAbove mantissa exponent)

end Binary64

/-! ## Texts of real numbers

A real number is written with its shortest digits, with a point in them or with an exponent after
them, as a style says; or with a fixed number of decimal places.
-/

def naturalText (n : Nat) : Text := Nat.toDigits 10 n

def integerText : Int → Text
  | .ofNat n => naturalText n
  | .negSucc n => '-' :: naturalText (n + 1)

structure RealStyle where
  /-- The least place of the point, counted from before the first digit, at which the number is still
  written without exponent. -/
  leastPoint : Int
  greatestPoint : Int
  /-- Whether an exponent that is not negative gets a sign. -/
  exponentSign : Bool
  exponentWidth : Nat
  undefinedText : Text
  infiniteText : Text
  minusInfiniteText : Text

namespace RealStyle

/-- Messages write an exponent below a ten-thousandth and from ten to the sixteenth on, with a sign and
at least two digits. -/
def message : RealStyle where
  leastPoint := -3
  greatestPoint := 16
  exponentSign := true
  exponentWidth := 2
  undefinedText := "nan".toList
  infiniteText := "inf".toList
  minusInfiniteText := "-inf".toList

/-- Records write an exponent below a hundred-thousandth and from ten to the sixteenth on, with a sign
and no more digits than it takes; what is no finite number is absent there. -/
def document : RealStyle where
  leastPoint := -4
  greatestPoint := 16
  exponentSign := true
  exponentWidth := 1
  undefinedText := "null".toList
  infiniteText := "null".toList
  minusInfiniteText := "null".toList

/-- A document that is to be read back as it is names what is no finite number. -/
def exact : RealStyle :=
  { message with
    undefinedText := "NaN".toList
    infiniteText := "Infinity".toList
    minusInfiniteText := "-Infinity".toList }

def exponentText (style : RealStyle) (exponent : Int) : Text :=
  let digits := naturalText exponent.natAbs
  let sign := if exponent < 0 then ['-'] else if style.exponentSign then ['+'] else []
  'e' :: (sign ++ List.replicate (style.exponentWidth - digits.length) '0' ++ digits)

/-- The text of a positive decimal. At least one digit stands on each side of a point. -/
def decimalText (style : RealStyle) (number : Decimal) : Text :=
  let digits := naturalText number.digits
  let point : Int := digits.length + number.exponent
  if style.leastPoint ≤ point ∧ point ≤ style.greatestPoint then
    match point with
    | .ofNat 0 => '0' :: '.' :: digits
    | .negSucc n => '0' :: '.' :: (List.replicate (n + 1) '0' ++ digits)
    | .ofNat n =>
      if digits.length ≤ n then digits ++ List.replicate (n - digits.length) '0' ++ ['.', '0']
      else digits.take n ++ '.' :: digits.drop n
  else
    let head := match digits with
      | first :: second :: rest => first :: '.' :: second :: rest
      | _ => digits
    head ++ exponentText style (point - 1)

def render (style : RealStyle) (x : Float) : Text :=
  match Binary64.ofFloat x with
  | .undefined => style.undefinedText
  | .infinite negative => if negative then style.minusInfiniteText else style.infiniteText
  | .finite negative mantissa exponent =>
    let magnitude :=
      if mantissa = 0 then ['0', '.', '0']
      else decimalText style (Binary64.shortest mantissa exponent)
    if negative then '-' :: magnitude else magnitude

end RealStyle

/-- The text of `scaled / 10 ^ places` with that many decimal places, at least one. -/
def fixedDigits (places scaled : Nat) : Text :=
  let digits := naturalText scaled
  let filled := List.replicate (places + 1 - digits.length) '0' ++ digits
  filled.take (filled.length - places) ++ '.' :: filled.drop (filled.length - places)

/-- The text of a floating-point number rounded to a number of decimal places; the rounding is of the
exact value, a half going to the even neighbour. -/
def fixedText (places : Nat) (x : Float) : Text :=
  match Binary64.ofFloat x with
  | .undefined => RealStyle.message.undefinedText
  | .infinite negative =>
    if negative then RealStyle.message.minusInfiniteText else RealStyle.message.infiniteText
  | .finite negative mantissa exponent =>
    let scaled := match exponent with
      | .ofNat power => mantissa * Nat.pow 2 power * Nat.pow 10 places
      | .negSucc power => roundDiv (mantissa * Nat.pow 10 places) (Nat.pow 2 (power + 1))
    if negative then '-' :: fixedDigits places scaled else fixedDigits places scaled

end Tessera
