import Tessera.Number.Binary64
import Tessera.Text.Basic
import Tessera.Text.Character

/-!
# Patterns

What patterns are and where they fit; the errors in pattern texts; and the smallest parts that a pattern
text is made of.
-/

set_option autoImplicit false

/-! ## Where patterns fit

A pattern describes parts of texts. Searching asks only whether some part of a text fits, so matching
works on sets of offsets: from a set of offsets where parts may start, it finds the offsets where parts
that fit can end.
-/

namespace Tessera

namespace Pattern

inductive Category where
  | digit
  | blank
  | word
deriving DecidableEq

def Category.holds : Category → Char → Bool
  | .digit => isDecimalDigit
  | .blank => isBlank
  | .word => isWordChar

inductive Member where
  | range (first last : Nat)
  | category (kind : Category) (negated : Bool)
deriving DecidableEq

def Member.covers : Member → Char → Bool
  | .range first last, c => decide (first ≤ c.toNat) && decide (c.toNat ≤ last)
  | .category kind negated, c => kind.holds c != negated

def Member.single (code : Nat) : Member := .range code code

/-- A class of characters: those covered by a member, or those that are not. -/
structure CharClass where
  members : List Member
  negated : Bool
deriving DecidableEq

namespace CharClass

def accepts (characters : CharClass) (c : Char) : Bool :=
  characters.members.any (·.covers c) != characters.negated

def single (c : Char) : CharClass := ⟨[.single c.toNat], false⟩

def anyInLine : CharClass := ⟨[.single '\n'.toNat], true⟩

end CharClass

inductive Anchor where
  | beginning
  /-- The end, or before a line break that ends the text. -/
  | lastLineEnd
  | ending
  /-- A word starts or ends here, or none does; neither holds in an empty text. -/
  | wordBoundary (negated : Bool)
deriving DecidableEq

def isWordAt (text : Array Char) (place : Nat) : Bool := (text[place]?.map isWordChar).getD false

def isBoundary (text : Array Char) (place : Nat) : Bool :=
  (decide (0 < place) && isWordAt text (place - 1)) != isWordAt text place

def Anchor.holds (text : Array Char) (place : Nat) : Anchor → Bool
  | .beginning => place = 0
  | .lastLineEnd =>
    place = text.size || (decide (place + 1 = text.size) && decide (text[place]? = some '\n'))
  | .ending => place = text.size
  | .wordBoundary negated => !text.isEmpty && isBoundary text place != negated

end Pattern

inductive Pattern where
  | nothing
  | one (characters : Pattern.CharClass)
  | anchor (condition : Pattern.Anchor)
  | sequence (first second : Pattern)
  | choice (first second : Pattern)
  /-- At least some number of parts in a row, and at most another, if that is given. -/
  | repeated (least : Nat) (greatest : Option Nat) (body : Pattern)
  /-- As many characters of a class in a row as there are, within bounds like those of a repetition. -/
  | run (least : Nat) (greatest : Option Nat) (characters : Pattern.CharClass)
deriving Inhabited

namespace Pattern

def union (places others : List Nat) : List Nat :=
  (places.merge others fun place other => decide (place ≤ other)).eraseReps

/-- Marks an offset and puts it before those newly marked, unless it bears a mark or lies beyond the
marks. -/
def mark (known : List Nat × Array Bool) (place : Nat) : List Nat × Array Bool :=
  let (fresh, marks) := known
  if marks.getD place true then (fresh, marks)
  else (place :: fresh, marks.setIfInBounds place true)

def markAll (marks : Array Bool) (places : List Nat) : List Nat × Array Bool :=
  let (fresh, marks) := places.foldl mark ([], marks)
  (fresh.reverse, marks)

/-- Marks the offsets reached by at most a number of steps from `places`, which bear marks already. Only
newly marked offsets can lead to more, and a step that finds none is the last. -/
def spread (step : List Nat → List Nat) : (count : Nat) → Array Bool → List Nat → Array Bool
  | 0, marks, _ => marks
  | count + 1, marks, places =>
    match markAll marks (step places) with
    | ([], marked) => marked
    | (fresh, marked) => spread step count marked fresh

def upTo (text : Array Char) (step : List Nat → List Nat) (count : Nat) (places : List Nat) : List Nat :=
  let (fresh, marks) := markAll (Array.replicate (text.size + 1) false) places
  let marked := spread step count marks fresh
  (List.range (text.size + 1)).filter fun place => marked.getD place false

/-- Applies a step a number of times; without offsets there is nothing to do. -/
def times (step : List Nat → List Nat) : Nat → List Nat → List Nat
  | 0, places => places
  | count + 1, places => if places.isEmpty then [] else times step count (step places)

/-- Where the characters of a class that stand in a row from an offset on end, if at most `bound` of them
are looked at. -/
def runEnd (text : Array Char) (characters : CharClass) : (bound place : Nat) → Nat
  | 0, place => place
  | bound + 1, place =>
    if (text[place]?.map characters.accepts).getD false then
      runEnd text characters bound (place + 1)
    else place

/-- The offsets where parts that fit can end, if they start at one of some offsets, which are in
increasing order. A text has no more offsets than its length and one, so that many repetitions reach
all there is to reach, and of more steps in a row at least one stays where it is. -/
def reach (text : Array Char) : Pattern → List Nat → List Nat
  | .nothing, places => places
  | .one characters, places =>
    places.filterMap fun place =>
      if (text[place]?.map characters.accepts).getD false then some (place + 1) else none
  | .anchor condition, places => places.filter fun place => condition.holds text place
  | .sequence first second, places => reach text second (reach text first places)
  | .choice first second, places => union (reach text first places) (reach text second places)
  | .repeated least greatest body, places =>
    let enough := text.size + 1
    let more := (greatest.map fun bound => min (bound - least) enough).getD enough
    upTo text (reach text body) more (times (reach text body) (min least enough) places)
  | .run least greatest characters, places =>
    let bound := min (greatest.getD text.size) text.size
    (places.filterMap fun place =>
      let behind := runEnd text characters bound place
      if place + least ≤ behind then some behind else none).eraseReps

def occursIn (pattern : Pattern) (text : Text) : Bool :=
  !(reach text.toArray pattern (List.range (text.length + 1))).isEmpty

end Pattern

end Tessera

/-! ## Errors in pattern texts

Why a pattern text is refused, where, and in which words.
-/

namespace Tessera.Pattern

inductive Cause where
  | endsInEscape
  | badEscape (text : Text)
  /-- An escape that takes a number of digits has too few. -/
  | incompleteEscape (text : Text)
  | octalTooLarge (text : Text)
  | missingBrace
  | openClass
  | badRange (first last : Text)
  | reversedBounds
  | boundTooLarge
  | nothingToRepeat
  | repeatedTwice
  | openGroup
  | unopenedGroup
  | openComment
  | unexpectedEnd
  | missingGroupName
  /-- The name of a group is not closed by the character that should. -/
  | openGroupName (closing : Char)
  | badGroupName (name : Text)
  | repeatedGroupName (name : Text) (number earlier : Nat)
  | unknownGroupName (name : Text)
  | unknownGroup (number : Nat)
  /-- A group is referred to before it is closed. -/
  | openReference
  | unknownExtension (mark : Text)
  | unsupported
deriving DecidableEq

structure Error where
  cause : Cause
  place : Nat
deriving DecidableEq

namespace Error

def causeText : Cause → Text
  | .endsInEscape => "bad escape (end of pattern)".toList
  | .badEscape text => "bad escape ".toList ++ text
  | .incompleteEscape text => "incomplete escape ".toList ++ text
  | .octalTooLarge text => "octal escape value ".toList ++ text ++ " outside of range 0-0o377".toList
  | .missingBrace => "missing \x7b".toList
  | .openClass => "unterminated character set".toList
  | .badRange first last => "bad character range ".toList ++ first ++ '-' :: last
  | .reversedBounds => "min repeat greater than max repeat".toList
  | .boundTooLarge => "the repetition number is too large".toList
  | .nothingToRepeat => "nothing to repeat".toList
  | .repeatedTwice => "multiple repeat".toList
  | .openGroup => "missing ), unterminated subpattern".toList
  | .unopenedGroup => "unbalanced parenthesis".toList
  | .openComment => "missing ), unterminated comment".toList
  | .unexpectedEnd => "unexpected end of pattern".toList
  | .missingGroupName => "missing group name".toList
  | .openGroupName closing => "missing ".toList ++ closing :: ", unterminated name".toList
  | .badGroupName name => "bad character in group name ".toList ++ name.quoted
  | .repeatedGroupName name number earlier =>
    "redefinition of group name ".toList ++ name.quoted ++ " as group ".toList ++ naturalText number
      ++ "; was group ".toList ++ naturalText earlier
  | .unknownGroupName name => "unknown group name ".toList ++ name.quoted
  | .unknownGroup number => "invalid group reference ".toList ++ naturalText number
  | .openReference => "cannot refer to an open group".toList
  | .unknownExtension mark => "unknown extension ?".toList ++ mark
  | .unsupported => "unsupported construct".toList

def lineColumn (pattern : Text) (place : Nat) : Nat × Nat :=
  let before := pattern.take place
  (before.count '\n' + 1, (before.reverse.takeWhile (· ≠ '\n')).length + 1)

/-- The wording of an error. In a pattern of several lines the line and the column are told too. -/
def message (pattern : Text) (error : Error) : Text :=
  if error.cause = .boundTooLarge then causeText error.cause
  else
    let (line, column) := lineColumn pattern error.place
    causeText error.cause ++ " at position ".toList ++ naturalText error.place
      ++ if pattern.contains '\n' then
        " (line ".toList ++ naturalText line ++ ", column ".toList ++ naturalText column ++ [')']
      else []

end Error

/-! ## Units and escapes of pattern texts

A unit is a character, or a backslash with the character behind it. An escape is a unit of the second
kind and the digits behind it that belong to it.
-/

/-! ### Units -/

inductive Unit where
  | plain (c : Char)
  | escaped (c : Char)
  | dangling
deriving DecidableEq

namespace Unit

def width : Unit → Nat
  | plain _ => 1
  | escaped _ => 2
  | dangling => 1

def text : Unit → Text
  | plain c => [c]
  | escaped c => ['\\', c]
  | dangling => ['\\']

end Unit

def units : Text → List Unit
  | [] => []
  | ['\\'] => [.dangling]
  | '\\' :: c :: rest => .escaped c :: units rest
  | c :: rest => .plain c :: units rest

def totalWidth (parts : List Unit) : Nat := parts.foldl (fun width part => width + part.width) 0

/-- The digits of a base that some units start with, at most so many of them. -/
def leadingDigits (base : Nat) : (most : Nat) → List Unit → Text
  | most + 1, .plain c :: rest =>
    if (digitIn? base c).isSome then c :: leadingDigits base most rest else []
  | _, _ => []

def valueOf (base : Nat) (digits : Text) : Nat :=
  digits.foldl (fun value c => base * value + (digitIn? base c).getD 0) 0

/-! ### Escapes -/

def controlEscape? : Char → Option Char
  | 'a' => some '\x07'
  | 'f' => some '\x0c'
  | 'n' => some '\n'
  | 'r' => some '\r'
  | 't' => some '\t'
  | 'v' => some '\x0b'
  | _ => none

def categoryEscape? : Char → Option Member
  | 'd' => some (.category .digit false)
  | 'D' => some (.category .digit true)
  | 's' => some (.category .blank false)
  | 'S' => some (.category .blank true)
  | 'w' => some (.category .word false)
  | 'W' => some (.category .word true)
  | _ => none

def anchorEscape? : Char → Option Anchor
  | 'A' => some .beginning
  | 'Z' => some .ending
  | 'b' => some (.wordBoundary false)
  | 'B' => some (.wordBoundary true)
  | _ => none

/-- The code point that exactly so many hexadecimal digits behind a letter stand for, with the number of
digits there are. -/
def hexEscape (place : Nat) (letter : Char) (count : Nat) (rest : List Unit) :
    Except Error Nat × Nat :=
  let digits := leadingDigits 16 count rest
  let text := '\\' :: letter :: digits
  let code := valueOf 16 digits
  let outcome : Except Error Nat :=
    if digits.length < count then .error ⟨.incompleteEscape text, place⟩
    else if 0x10FFFF < code then .error ⟨.badEscape text, place⟩
    else .ok code
  (outcome, digits.length)

def octalEscape (place : Nat) (digits : Text) : Except Error Nat :=
  if 0xFF < valueOf 8 digits then .error ⟨.octalTooLarge ('\\' :: digits), place⟩
  else .ok (valueOf 8 digits)

/-- The code point that a character stands for behind a backslash if it is no digit and has no meaning of
its own, with the number of digits that belong to it. Letters are kept for meanings to come. -/
def plainEscape (place : Nat) (c : Char) (rest : List Unit) : Except Error Nat × Nat :=
  if c = 'x' then hexEscape place c 2 rest
  else if c = 'u' then hexEscape place c 4 rest
  else if c = 'U' then hexEscape place c 8 rest
  else if c = 'N' then
    (.error (if rest.head? = some (.plain '\x7b') then ⟨.unsupported, place⟩
      else ⟨.missingBrace, place + 2⟩), 0)
  else if c.isAlpha then (.error ⟨.badEscape ['\\', c], place⟩, 0)
  else (.ok c.toNat, 0)

def classEscape (place : Nat) (c : Char) (rest : List Unit) : Except Error Member × Nat :=
  match categoryEscape? c, if c = 'b' then some '\x08' else controlEscape? c with
  | some member, _ => (.ok member, 0)
  | none, some control => (.ok (.single control.toNat), 0)
  | none, none =>
    let (code, taken) :=
      if (digitIn? 8 c).isSome then
        let more := leadingDigits 8 2 rest
        (octalEscape place (c :: more), more.length)
      else if c.isDigit then (.error ⟨.badEscape ['\\', c], place⟩, 0)
      else plainEscape place c rest
    (code.map Member.single, taken)

inductive Escape where
  | anchor (condition : Anchor)
  | member (member : Member)
  | reference (number : Nat)

/-- What a digit stands for behind a backslash, with the number of digits that belong to it: three octal
digits, or two behind a zero, for a character, and otherwise one or two digits for a group. -/
def digitEscape (place : Nat) (c : Char) (rest : List Unit) : Except Error Escape × Nat :=
  let octal := c :: leadingDigits 8 2 rest
  let decimal := c :: leadingDigits 10 1 rest
  if c = '0' || ((digitIn? 8 c).isSome && octal.length = 3) then
    ((octalEscape place octal).map fun code => .member (.single code), octal.length - 1)
  else (.ok (.reference (valueOf 10 decimal)), decimal.length - 1)

def escape (place : Nat) (c : Char) (rest : List Unit) : Except Error Escape × Nat :=
  match anchorEscape? c, categoryEscape? c, controlEscape? c with
  | some condition, _, _ => (.ok (.anchor condition), 0)
  | none, some member, _ => (.ok (.member member), 0)
  | none, none, some control => (.ok (.member (.single control.toNat)), 0)
  | none, none, none =>
    if c.isDigit then digitEscape place c rest
    else
      let (code, taken) := plainEscape place c rest
      (code.map fun code => .member (.single code), taken)

end Tessera.Pattern
