import Tessera.Document.Basic
import Tessera.Number.Basic
import Tessera.Text.Basic

/-!
# Documents as texts

How a document is written as a text, and how a text is read as a document.
-/

set_option autoImplicit false

/-! ## Writing documents

A document is written on one line without blanks, or with one part per line, indented by a number of
spaces for each container around it. Characters outside ASCII stand for themselves or are written as
code units.
-/

namespace Tessera.Document

structure Layout where
  /-- The indentation of a part; without one there are no line breaks. -/
  indent : Option Nat
  /-- Whether only visible ASCII characters stand for themselves. -/
  ascii : Bool
  reals : RealStyle

namespace Layout

/-- One part per line with an indentation, or everything on one line without. -/
def ofIndent (indent : Option Nat) : Layout := ⟨indent, false, .document⟩

def compact : Layout := ofIndent none

def indented (width : Nat) : Layout := ofIndent (some width)

/-- Everything on one line, with nothing lost. -/
def exact : Layout := { compact with reals := .exact }

inductive IndentFault where
  | negative
  | oversized
deriving DecidableEq

def IndentFault.message : IndentFault → String
  | .negative => "can't convert negative int to unsigned"
  | .oversized => "int too big to convert"

def checkIndent : Option Int → Except IndentFault (Option Nat)
  | none => .ok none
  | some spaces =>
    if spaces < 0 then .error .negative
    else if spaces.toNat < Nat.pow 2 64 then .ok (some spaces.toNat)
    else .error .oversized

end Layout

def unitEscape (code : Nat) : Text := '\\' :: 'u' :: Text.hexadecimal 4 code

def charEscape (c : Char) : Text :=
  if c.toNat < 0x10000 then unitEscape c.toNat
  else
    unitEscape (0xD800 + (c.toNat - 0x10000) / 0x400)
      ++ unitEscape (0xDC00 + (c.toNat - 0x10000) % 0x400)

def escapeChar (ascii : Bool) (c : Char) : Text :=
  if c = '"' then ['\\', '"']
  else if c = '\\' then ['\\', '\\']
  else if c = '\x08' then ['\\', 'b']
  else if c = '\x0c' then ['\\', 'f']
  else if c = '\n' then ['\\', 'n']
  else if c = '\r' then ['\\', 'r']
  else if c = '\t' then ['\\', 't']
  else if c.toNat < 0x20 then unitEscape c.toNat
  else if ascii && decide (0x7F ≤ c.toNat) then charEscape c
  else [c]

def stringText (ascii : Bool) (text : String) : Text :=
  '"' :: (text.toList.flatMap (escapeChar ascii) ++ ['"'])

/-- A number; an exact integer has neither point nor exponent. -/
def numberText (reals : RealStyle) : Number → Text
  | .integer value => integerText value
  | .real value => reals.render value

def lineBreak (layout : Layout) (depth : Nat) : Text :=
  match layout.indent with
  | none => []
  | some width => '\n' :: List.replicate (width * depth) ' '

def colonText (layout : Layout) : Text :=
  if layout.indent.isSome then [':', ' '] else [':']

mutual

/-- A value that stands inside `depth` containers. -/
def renderAt (layout : Layout) (depth : Nat) : Document → Text
  | .null => "null".toList
  | .bool value => if value then "true".toList else "false".toList
  | .number value => numberText layout.reals value
  | .text value => stringText layout.ascii value
  | .array [] => ['[', ']']
  | .array (first :: rest) =>
    '[' :: (lineBreak layout (depth + 1) ++ renderAt layout (depth + 1) first
      ++ renderItems layout (depth + 1) rest ++ lineBreak layout depth ++ [']'])
  | .object [] => ['\x7b', '\x7d']
  | .object ((key, value) :: rest) =>
    '\x7b' :: (lineBreak layout (depth + 1) ++ stringText layout.ascii key ++ colonText layout
      ++ renderAt layout (depth + 1) value
      ++ renderFields layout (depth + 1) rest ++ lineBreak layout depth ++ ['\x7d'])

def renderItems (layout : Layout) (depth : Nat) : List Document → Text
  | [] => []
  | item :: rest =>
    ',' :: (lineBreak layout depth ++ renderAt layout depth item ++ renderItems layout depth rest)

def renderFields (layout : Layout) (depth : Nat) : List (String × Document) → Text
  | [] => []
  | (key, value) :: rest =>
    ',' :: (lineBreak layout depth ++ stringText layout.ascii key ++ colonText layout
      ++ renderAt layout depth value ++ renderFields layout depth rest)

end

def render (layout : Layout) (document : Document) : Text := renderAt layout 0 document

def renderString (layout : Layout) (document : Document) : String :=
  String.ofList (document.render layout)

/-! ## Reading documents

A reader takes a text character by character. Its state is the stack of open containers, what the
grammar allows next, and the lexeme that is being read. Only strict JSON is accepted, except that a
number may also be spelled `NaN`, `Infinity` or `-Infinity`. A reader may be limited in what it takes
upon itself.
-/

structure Limits where
  /-- How many containers there may be around a part. -/
  depth : Option Nat
  /-- How many digits a number may have before its point or exponent. -/
  size : Option Nat

namespace Limits

def unlimited : Limits := ⟨none, none⟩

def file : Limits := ⟨some 200, some Numeral.sizeLimit⟩

def allowsInside {α : Type} (limits : Limits) (containers : List α) : Bool :=
  match limits.depth with
  | none => true
  | some depth => (containers.drop depth).isEmpty

def allowsWhole (limits : Limits) (digits : Text) : Bool :=
  match limits.size with
  | none => true
  | some size => decide (digits.length ≤ size)

end Limits

/-- A container part way through: the finished items of an array, latest first; or the finished fields
of an object, in order, with the key whose value is being read. -/
inductive Frame where
  | array (done : List Document)
  | object (done : List (String × Document)) (key : String)

inductive Expectation where
  | value
  | itemOrEnd
  | keyOrEnd
  | key
  | colon
  | separator
  | nothing
deriving DecidableEq

/-- The lexeme being read. A string remembers its characters, latest first, and the first half of a
surrogate pair whose second half must follow. -/
inductive Lexeme where
  | none
  | bare (characters : Text)
  | string (characters : Text) (high : Option Nat)
  | escape (characters : Text) (high : Option Nat)
  | unit (characters : Text) (high : Option Nat) (digits : Nat) (code : Nat)

/-- The state of a reader; `result` is set once a whole document has been read. -/
structure Reader where
  frames : List Frame
  expectation : Expectation
  lexeme : Lexeme
  result : Option Document

namespace Reader

def start : Reader := ⟨[], .value, .none, none⟩

def finishValue (reader : Reader) (value : Document) : Reader :=
  match reader.frames with
  | [] => { reader with expectation := .nothing, lexeme := .none, result := some value }
  | .array done :: outer =>
    { reader with frames := .array (value :: done) :: outer, expectation := .separator, lexeme := .none }
  | .object done key :: outer =>
    { reader with
      frames := .object (setField key value done) key :: outer
      expectation := .separator
      lexeme := .none }

def expectsValue (reader : Reader) : Bool :=
  reader.expectation = .value || reader.expectation = .itemOrEnd

/-- A finished string is a key or a value. -/
def finishString (reader : Reader) (characters : Text) : Option Reader :=
  let text := String.ofList characters.reverse
  if reader.expectsValue then some (reader.finishValue (.text text))
  else match reader.frames with
    | .object done _ :: outer =>
      some { reader with
        frames := .object done text :: outer, expectation := .colon, lexeme := .none }
    | _ => none

/-- The rules of a number: no sign but a minus, no leading zero, digits on both sides of a point. -/
def number? (limits : Limits) (characters : Text) : Option Number :=
  let rules : NumeralRules := .document
  let (negative, unsigned) := Numeral.takeMinus characters
  let (whole, rest) := (unsigned.takeWhile Char.isDigit, unsigned.dropWhile Char.isDigit)
  if !Numeral.areWhole whole || !limits.allowsWhole whole then none
  else match rest with
    | [] => (rules.integer? characters).map .integer
    | '.' :: more =>
      if more.head?.any Char.isDigit then (rules.real? characters).map .real else none
    | _ => (rules.exponent? rest).map fun exponent =>
        .real (Binary64.nearestDecimal negative
          (NumeralRules.ofDigits (rules.digitRun whole).1) exponent)

def bareValue? (limits : Limits) (characters : Text) : Option Document :=
  match String.ofList characters with
  | "null" => some .null
  | "true" => some (.bool true)
  | "false" => some (.bool false)
  | "NaN" => some (.real (0 / 0))
  | "Infinity" => some (.real (Binary64.signed false Binary64.infinityBits))
  | "-Infinity" => some (.real (Binary64.signed true Binary64.infinityBits))
  | _ => (number? limits characters).map .number

def isBareChar (c : Char) : Bool := c.isAlphanum || c = '-' || c = '+' || c = '.' || c = '_'

def openFrame (reader : Reader) (frame : Frame) (expectation : Expectation) : Option Reader :=
  if reader.expectsValue then
    some { reader with frames := frame :: reader.frames, expectation := expectation }
  else none

def closeArray (reader : Reader) : Option Reader :=
  match reader.frames with
  | .array done :: outer =>
    if reader.expectation = .itemOrEnd || reader.expectation = .separator then
      some ({ reader with frames := outer }.finishValue (.array done.reverse))
    else none
  | _ => none

def closeObject (reader : Reader) : Option Reader :=
  match reader.frames with
  | .object done _ :: outer =>
    if reader.expectation = .keyOrEnd || reader.expectation = .separator then
      some ({ reader with frames := outer }.finishValue (.object done))
    else none
  | _ => none

def nextPart (reader : Reader) : Option Reader :=
  if reader.expectation = .separator then
    match reader.frames with
    | .array _ :: _ => some { reader with expectation := .value }
    | .object _ _ :: _ => some { reader with expectation := .key }
    | [] => none
  else none

/-- A character between lexemes. Where containers are nested too deep, nothing but their ends may
come. -/
def stepOutside (limits : Limits) (reader : Reader) (c : Char) : Option Reader :=
  if isDocumentBlank c then some reader
  else if c = ']' then reader.closeArray
  else if c = '\x7d' then reader.closeObject
  else if !limits.allowsInside reader.frames then none
  else if c = '"' then
    if reader.expectsValue || reader.expectation = .key || reader.expectation = .keyOrEnd then
      some { reader with lexeme := .string [] none }
    else none
  else if c = '[' then reader.openFrame (.array []) .itemOrEnd
  else if c = '\x7b' then reader.openFrame (.object [] "") .keyOrEnd
  else if c = ',' then reader.nextPart
  else if c = ':' then
    if reader.expectation = .colon then some { reader with expectation := .value } else none
  else if isBareChar c && reader.expectsValue then some { reader with lexeme := .bare [c] }
  else none

def finishBare (limits : Limits) (reader : Reader) (characters : Text) : Option Reader :=
  (bareValue? limits characters.reverse).map reader.finishValue

def simpleEscape? (c : Char) : Option Char :=
  if c = '"' || c = '\\' || c = '/' then some c
  else if c = 'b' then some '\x08'
  else if c = 'f' then some '\x0c'
  else if c = 'n' then some '\n'
  else if c = 'r' then some '\r'
  else if c = 't' then some '\t'
  else none

/-- Adds a code unit to a string: a character of its own, or half of a surrogate pair. -/
def finishUnit (characters : Text) (high : Option Nat) (code : Nat) : Option Lexeme :=
  match high with
  | some lead =>
    if 0xDC00 ≤ code ∧ code ≤ 0xDFFF then
      some (.string
        (Char.ofNat (0x10000 + (lead - 0xD800) * 0x400 + (code - 0xDC00)) :: characters) none)
    else none
  | none =>
    if 0xD800 ≤ code ∧ code ≤ 0xDBFF then some (.string characters (some code))
    else if 0xDC00 ≤ code ∧ code ≤ 0xDFFF then none
    else some (.string (Char.ofNat code :: characters) none)

def step (limits : Limits) (reader : Reader) (c : Char) : Option Reader :=
  match reader.lexeme with
  | .none => reader.stepOutside limits c
  | .bare characters =>
    if isBareChar c then some { reader with lexeme := .bare (c :: characters) }
    else (reader.finishBare limits characters).bind fun next => next.stepOutside limits c
  | .string characters high =>
    if c = '\\' then some { reader with lexeme := .escape characters high }
    else if high.isSome then none
    else if c = '"' then reader.finishString characters
    else if c.toNat < 0x20 then none
    else some { reader with lexeme := .string (c :: characters) none }
  | .escape characters high =>
    if c = 'u' then some { reader with lexeme := .unit characters high 0 0 }
    else if high.isSome then none
    else (simpleEscape? c).map fun plain =>
      { reader with lexeme := .string (plain :: characters) none }
  | .unit characters high digits code =>
    match hexDigit? c with
    | none => none
    | some digit =>
      if digits < 3 then
        some { reader with lexeme := .unit characters high (digits + 1) (16 * code + digit) }
      else (finishUnit characters high (16 * code + digit)).map fun lexeme =>
        { reader with lexeme := lexeme }

def finish (limits : Limits) (reader : Reader) : Option Document :=
  match reader.lexeme with
  | .none => reader.result
  | .bare characters => (reader.finishBare limits characters).bind Reader.result
  | _ => none

end Reader

def parse? (limits : Limits) (text : Text) : Option Document :=
  (text.foldlM (Reader.step limits) Reader.start).bind (Reader.finish limits)

end Tessera.Document
