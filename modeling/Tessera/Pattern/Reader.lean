import Tessera.Pattern.Basic
import Tessera.Text.Basic

/-!
# Pattern texts

A pattern text is taken apart into lexemes, and a pattern is put together from these.
-/

set_option autoImplicit false

/-! ## Lexemes of pattern texts

A pattern text is read in two steps. The first takes it apart into lexemes, each with its offset. What
cannot be read becomes a lexeme too, so that the second step meets the faults of a pattern from left to
right.
-/

namespace Tessera.Pattern

/-! ### Character classes -/

inductive ClassState where
  | ready
  /-- A member has come, which may turn out to start a range. -/
  | pending (source : Unit) (member : Member)
  | ranging (source : Unit) (member : Member)

/-- What a unit at an offset stands for in a class, with the number of units behind it that belong to
it. -/
def classMember (place : Nat) (unit : Unit) (rest : List Unit) : Except Error Member × Nat :=
  match unit with
  | .plain c => (.ok (.single c.toNat), 0)
  | .escaped c => classEscape place c rest
  | .dangling => (.error ⟨.endsInEscape, place⟩, 0)

def rangeOf (first last : Unit) (lower upper : Member) : Except Cause Member :=
  match lower, upper with
  | .range a _, .range b _ =>
    if b < a then .error (.badRange first.text last.text) else .ok (.range a b)
  | _, _ => .error (.badRange first.text last.text)

/-- Reads the members of a class up to its end. `opened` is the offset of the class, `place` that of the
next unit, and `taken` the number of units read so far. The next `covered` units belong to the member
before. -/
def classFrom (negated : Bool) (opened : Nat) (state : ClassState) (members : List Member)
    (covered place taken : Nat) : List Unit → Except Error (CharClass × Nat)
  | [] => .error ⟨.openClass, opened⟩
  | unit :: rest =>
    let behind := place + unit.width
    match covered with
    | more + 1 => classFrom negated opened state members more behind (taken + 1) rest
    | 0 =>
      let (found, digits) := classMember place unit rest
      if unit = .dangling || rest.drop digits = [.dangling] then
        .error ⟨.endsInEscape, if unit = .dangling then place else behind + digits⟩
      else
        let continueWith (state : ClassState) (members : List Member) (covered : Nat) :=
          classFrom negated opened state members covered behind (taken + 1) rest
        let finished (members : List Member) : Except Error (CharClass × Nat) :=
          .ok (⟨members.reverse, negated⟩, taken + 1)
        match state with
        | .ready =>
          if unit = .plain ']' && !members.isEmpty then finished members
          else found.bind fun member => continueWith (.pending unit member) members digits
        | .pending source member =>
          if unit = .plain '-' then continueWith (.ranging source member) members 0
          else if unit = .plain ']' then finished (member :: members)
          else found.bind fun other => continueWith (.pending unit other) (member :: members) digits
        | .ranging source member =>
          if unit = .plain ']' then finished (.single '-'.toNat :: member :: members)
          else found.bind fun other =>
            match rangeOf source unit member other with
            | .ok range => continueWith .ready (range :: members) digits
            | .error cause => .error ⟨cause, place + digits - 1 - source.width⟩

def charClass (opened : Nat) : List Unit → Except Error (CharClass × Nat)
  | .plain '^' :: rest =>
    if rest = [.dangling] then .error ⟨.endsInEscape, opened + 2⟩
    else classFrom true opened .ready [] 0 (opened + 2) 1 rest
  | parts => classFrom false opened .ready [] 0 (opened + 1) 0 parts

/-! ### Lexemes -/

inductive GroupLabel where
  | silent
  | numbered
  | named (name : Text) (place : Nat)
deriving DecidableEq

inductive Lexeme where
  | one (characters : CharClass)
  | anchor (condition : Anchor)
  | star
  | plus
  | question
  | bounds (least : Nat) (greatest : Option Nat)
  | bar
  | opening (label : GroupLabel)
  | closing
  | reference (number : Nat)
  | namedReference (name : Text) (place : Nat)
  | comment
  | fault (error : Error)
deriving DecidableEq

def boundOf? (digits : Text) : Option Nat :=
  if digits.isEmpty then none else some (valueOf 10 digits)

/-- No bound of a repetition may reach this number. -/
def boundLimit : Nat := Nat.pow 2 32 - 1

/-- Reads bounds behind their opening brace, with the number of units; braces without bounds stand for
themselves. `place` is the offset behind the brace. -/
def bounds? (place : Nat) (parts : List Unit) : Option (Lexeme × Nat) :=
  let lower := leadingDigits 10 parts.length parts
  let rest := parts.drop lower.length
  let (upper, close, taken) := match rest with
    | .plain ',' :: more =>
      let upper := leadingDigits 10 more.length more
      (upper, more.drop upper.length, lower.length + 1 + upper.length)
    | _ => (lower, rest, lower.length)
  match close with
  | .plain '\x7d' :: _ =>
    if parts.head? = some (.plain '\x7d') then none
    else
      let least := (boundOf? lower).getD 0
      let greatest := boundOf? upper
      let lexeme :=
        if decide (boundLimit ≤ least) || greatest.any (fun bound => decide (boundLimit ≤ bound)) then
          .fault ⟨.boundTooLarge, place⟩
        else if greatest.any (fun bound => decide (bound < least)) then
          .fault ⟨.reversedBounds, place⟩
        else .bounds least greatest
      some (lexeme, taken + 1)
  | _ => none

def unitsBefore (closing : Char) (parts : List Unit) : List Unit × List Unit :=
  parts.span (· ≠ .plain closing)

/-- Reads the name of a group, which starts at an offset, and what closes it. A backslash that ends the
text is noticed before a fault of the name if the name runs up to it. -/
def named (closing : Char) (place : Nat) (parts : List Unit) (lexeme : Text → Lexeme) :
    Lexeme × Nat :=
  let (name, behind) := unitsBefore closing parts
  let text := name.flatMap Unit.text
  if parts.contains .dangling && behind.length ≤ 2 then
    (.fault ⟨.endsInEscape, place + totalWidth parts - 1⟩, 0)
  else if name.isEmpty then (.fault ⟨.missingGroupName, place⟩, 0)
  else if behind.isEmpty then (.fault ⟨.openGroupName closing, place⟩, 0)
  else if isIdentifier text then (lexeme text, name.length + 1)
  else (.fault ⟨.badGroupName text, place⟩, 0)

def comment (place : Nat) (parts : List Unit) : Lexeme × Nat :=
  let (inside, behind) := unitsBefore ')' parts
  if !behind.isEmpty then (.comment, inside.length + 1)
  else if parts.contains .dangling then
    (.fault ⟨.endsInEscape, place + totalWidth parts - 1⟩, 0)
  else (.fault ⟨.openComment, place - 3⟩, 0)

/-- The constructs that start with one of these marks are known but not supported. -/
def unsupportedMarks : List Char := "=!(>-iLmsxatu".toList

/-- Reads what follows a mark for an extension, which is at an offset. It is no extension by itself, but it
may be one together with another character. -/
def markPair (place : Nat) (mark : Char) (known : List Char) : List Unit → Lexeme × Nat
  | [] => (.fault ⟨.unexpectedEnd, place + 1⟩, 1)
  | .dangling :: _ => (.fault ⟨.endsInEscape, place + 1⟩, 1)
  | unit :: _ =>
    if known.any fun c => unit = .plain c then (.fault ⟨.unsupported, place - 1⟩, 2)
    else (.fault ⟨.unknownExtension (mark :: unit.text), place - 1⟩, 2)

def extension (place : Nat) : List Unit → Lexeme × Nat
  | [] => (.fault ⟨.unexpectedEnd, place⟩, 0)
  | .dangling :: _ => (.fault ⟨.endsInEscape, place⟩, 0)
  | .plain ':' :: _ => (.opening .silent, 1)
  | .plain 'P' :: .plain '<' :: rest =>
    let (lexeme, taken) := named '>' (place + 2) rest fun name => .opening (.named name (place + 2))
    (lexeme, taken + 2)
  | .plain 'P' :: .plain '=' :: rest =>
    let (lexeme, taken) := named ')' (place + 2) rest fun name => .namedReference name (place + 2)
    (lexeme, taken + 2)
  | .plain 'P' :: rest => markPair place 'P' [] rest
  | .plain '<' :: rest => markPair place '<' ['=', '!'] rest
  | .plain '#' :: rest =>
    let (lexeme, taken) := comment (place + 1) rest
    (lexeme, taken + 1)
  | unit :: _ =>
    if unsupportedMarks.any fun c => unit = .plain c then (.fault ⟨.unsupported, place - 1⟩, 1)
    else (.fault ⟨.unknownExtension unit.text, place - 1⟩, 1)

def escapeLexeme (place : Nat) (c : Char) (rest : List Unit) : Lexeme × Nat :=
  let (found, taken) := escape place c rest
  let lexeme : Lexeme := match found with
    | .ok (.anchor condition) => .anchor condition
    | .ok (.member member) => .one ⟨[member], false⟩
    | .ok (.reference number) => .reference number
    | .error error => .fault error
  (lexeme, taken)

/-- The lexeme that starts with a unit at an offset, and how many of the units behind it belong to it
too. -/
def lexemeAt (place : Nat) (unit : Unit) (rest : List Unit) : Lexeme × Nat :=
  match unit with
  | .dangling => (.fault ⟨.endsInEscape, place⟩, 0)
  | .escaped c => escapeLexeme place c rest
  | .plain '.' => (.one .anyInLine, 0)
  | .plain '^' => (.anchor .beginning, 0)
  | .plain '$' => (.anchor .lastLineEnd, 0)
  | .plain '|' => (.bar, 0)
  | .plain '*' => (.star, 0)
  | .plain '+' => (.plus, 0)
  | .plain '?' => (.question, 0)
  | .plain ')' => (.closing, 0)
  | .plain '\x7b' => (bounds? (place + 1) rest).getD (.one (.single '\x7b'), 0)
  | .plain '[' =>
    match charClass place rest with
    | .ok (characters, taken) => (.one characters, taken)
    | .error error => (.fault error, 0)
  | .plain '(' =>
    match rest with
    | .plain '?' :: more =>
      let (lexeme, taken) := extension (place + 2) more
      (lexeme, taken + 1)
    | _ => (.opening .numbered, 0)
  | .plain c => (.one (.single c), 0)

/-- The lexemes of some units, each with its offset. The next `covered` units belong to the lexeme
before. A backslash that ends the text is noticed before a lexeme in front of it is used, unless that
is a closing parenthesis. -/
def lexemesFrom (covered place : Nat) : List Unit → List (Lexeme × Nat)
  | [] => []
  | unit :: rest =>
    match covered with
    | more + 1 => lexemesFrom more (place + unit.width) rest
    | 0 =>
      let (lexeme, taken) := lexemeAt place unit rest
      let behind := place + unit.width + totalWidth (rest.take taken)
      let noticed :=
        if rest.drop taken = [.dangling] && decide (lexeme ≠ .closing) then
          .fault ⟨.endsInEscape, behind⟩
        else lexeme
      (noticed, place) :: lexemesFrom taken (place + unit.width) rest

def lexemes (text : Text) : List (Lexeme × Nat) := lexemesFrom 0 0 (units text)

/-! ## Reading patterns

The lexemes of a pattern text are put together from left to right. Groups that are still open wait on a
stack, innermost first. Groups are numbered in the order in which they open, and no two have one name.
-/

inductive PartKind where
  | plain
  | condition
  /-- Repeated already; a mark may follow that says how to go about it. -/
  | repetition (marked : Bool)
deriving DecidableEq

structure Part where
  pattern : Pattern
  kind : PartKind

/-- A group that is still open: its offset, its number, its complete branches and the parts of the current
one, both latest first. -/
structure OpenGroup where
  place : Nat
  number : Option Nat
  branches : List Pattern
  parts : List Part

namespace OpenGroup

def fresh (place : Nat) (number : Option Nat) : OpenGroup := ⟨place, number, [], []⟩

def branch (group : OpenGroup) : Pattern :=
  group.parts.foldl (fun rest part => .sequence part.pattern rest) .nothing

def pattern (group : OpenGroup) : Pattern :=
  group.branches.foldl (fun rest branch => .choice branch rest) group.branch

def add (group : OpenGroup) (pattern : Pattern) (kind : PartKind) : OpenGroup :=
  { group with parts := ⟨pattern, kind⟩ :: group.parts }

def alternate (group : OpenGroup) : OpenGroup :=
  { group with branches := group.branch :: group.branches, parts := [] }

/-- Repeats the last part. A condition cannot be repeated, and a repetition not once more. -/
def repeatLast (group : OpenGroup) (least : Nat) (greatest : Option Nat) :
    Except Cause OpenGroup :=
  match group.parts with
  | [] => .error .nothingToRepeat
  | part :: rest =>
    match part.kind with
    | .condition => .error .nothingToRepeat
    | .repetition _ => .error .repeatedTwice
    | .plain =>
      .ok { group with parts := ⟨.repeated least greatest part.pattern, .repetition false⟩ :: rest }

/-- Makes the last part lazy, if it is a repetition without a mark. Whether a repetition takes few or
many parts first makes no difference to whether a text fits. -/
def markLazy? (group : OpenGroup) : Option OpenGroup :=
  match group.parts with
  | ⟨pattern, .repetition false⟩ :: rest =>
    some { group with parts := ⟨pattern, .repetition true⟩ :: rest }
  | _ => none

def settle (group : OpenGroup) : OpenGroup := group.markLazy?.getD group

/-- Lets the last part keep all that it can get, if it is a repetition without a mark. Only single
characters can be repeated that way. -/
def markGreedy? (group : OpenGroup) : Option (Except Cause OpenGroup) :=
  match group.parts with
  | ⟨.repeated least greatest (.one characters), .repetition false⟩ :: rest =>
    some (.ok { group with parts := ⟨.run least greatest characters, .repetition true⟩ :: rest })
  | ⟨_, .repetition false⟩ :: _ => some (.error .unsupported)
  | _ => none

end OpenGroup

/-- The groups with a number that have been opened so far: how many there are, and the numbers of those
with a name. -/
structure Numbering where
  count : Nat
  names : List (Text × Nat)

namespace Numbering

def start : Numbering := ⟨0, []⟩

def addName (numbering : Numbering) (name : Text) (place number : Nat) : Except Error Numbering :=
  match numbering.names.lookup name with
  | some earlier => .error ⟨.repeatedGroupName name number earlier, place⟩
  | none => .ok { numbering with names := (name, number) :: numbering.names }

def openGroup (numbering : Numbering) (label : GroupLabel) : Except Error (Option Nat × Numbering) :=
  let number := numbering.count + 1
  match label with
  | .silent => .ok (none, numbering)
  | .numbered => .ok (some number, { numbering with count := number })
  | .named name place =>
    (({ numbering with count := number } : Numbering).addName name place number).map (some number, ·)

end Numbering

/-- How far a pattern has been read: the innermost open group, the groups around it, innermost first,
and the numbers given so far. -/
structure Progress where
  group : OpenGroup
  outer : List OpenGroup
  numbering : Numbering

namespace Progress

def start : Progress := ⟨.fresh 0 none, [], .start⟩

def add (progress : Progress) (pattern : Pattern) (kind : PartKind) : Progress :=
  { progress with group := progress.group.add pattern kind }

def descend (progress : Progress) (label : GroupLabel) (place : Nat) : Except Error Progress :=
  (progress.numbering.openGroup label).map fun (number, numbering) =>
    ⟨.fresh place number, progress.group :: progress.outer, numbering⟩

def ascend (progress : Progress) (place : Nat) : Except Error Progress :=
  match progress.outer with
  | [] => .error ⟨.unopenedGroup, place⟩
  | next :: others =>
    .ok { progress with group := next.add progress.group.pattern .plain, outer := others }

def change (progress : Progress) (place : Nat) : Except Cause OpenGroup → Except Error Progress
  | .ok group => .ok { progress with group := group }
  | .error cause => .error ⟨cause, place⟩

def isOpen (progress : Progress) (number : Nat) : Bool :=
  (progress.group :: progress.outer).any fun group => group.number = some number

/-- Refers to the group with a number. There is no way to match the same text again. -/
def refer (progress : Progress) (number place : Nat) : Except Error Progress :=
  .error ⟨if progress.isOpen number then .openReference else .unsupported, place⟩

def referTo (progress : Progress) (number place : Nat) : Except Error Progress :=
  if progress.numbering.count < number then .error ⟨.unknownGroup number, place + 1⟩
  else progress.refer number place

def referToName (progress : Progress) (name : Text) (place : Nat) : Except Error Progress :=
  match progress.numbering.names.lookup name with
  | some number => progress.refer number place
  | none => .error ⟨.unknownGroupName name, place⟩

def takeUp (progress : Progress) (lexeme : Lexeme) (place : Nat) : Except Error Progress :=
  let group := progress.group
  match lexeme with
  | .fault error => .error error
  | .one characters => .ok (progress.add (.one characters) .plain)
  | .anchor condition => .ok (progress.add (.anchor condition) .condition)
  | .bar => .ok { progress with group := group.alternate }
  | .opening label => progress.descend label place
  | .closing => progress.ascend place
  | .reference number => progress.referTo number place
  | .namedReference name namePlace => progress.referToName name namePlace
  | .comment => .ok { progress with group := group.settle }
  | .question =>
    progress.change place ((group.markLazy?.map .ok).getD (group.repeatLast 0 (some 1)))
  | .star => progress.change place (group.repeatLast 0 none)
  | .plus => progress.change place (group.markGreedy?.getD (group.repeatLast 1 none))
  | .bounds least greatest => progress.change place (group.repeatLast least greatest)

/-- What has been read once the text ends. No group may be open but the outermost one. -/
def finish (progress : Progress) : Except Error Pattern :=
  if progress.outer.isEmpty then .ok progress.group.pattern
  else .error ⟨.openGroup, progress.group.place⟩

end Progress

def ofText (text : Text) : Except Error Pattern := do
  let progress ← (lexemes text).foldlM (fun progress (lexeme, place) => progress.takeUp lexeme place)
    Progress.start
  progress.finish

end Tessera.Pattern
