import Tessera.Text.Basic
import Tessera.Text.Character

/-!
# Command lines

What a program takes on its command line, and how the arguments that it is given are read.
-/

set_option autoImplicit false

/-! ## Forms

A form says what a program takes on its command line: switches, which start with hyphens and may stand
anywhere, and operands, which are told by their places. Reading a command line turns settings into
other settings, argument by argument.
-/

namespace Tessera.CommandLine

/-! ### Refusals -/

inductive Cause where
  | noValue
  | unusedValue (value : Text)
  | notInteger (value : Text)
  | notReal (value : Text)
  | notAmong (value : Text) (choices : List Text)
  | excluded (other : Text)
deriving DecidableEq

def Cause.message : Cause → Text
  | .noValue => "expected one argument".toList
  | .unusedValue value => "ignored explicit argument ".toList ++ value.quoted
  | .notInteger value => "invalid int value: ".toList ++ value.quoted
  | .notReal value => "invalid float value: ".toList ++ value.quoted
  | .notAmong value choices =>
    "invalid choice: ".toList ++ value.quoted ++ " (choose from ".toList
      ++ ", ".toList.intercalate (choices.map Text.quoted) ++ [')']
  | .excluded other => "not allowed with argument ".toList ++ other

inductive Refusal where
  /-- An abbreviation that stands for several switches. -/
  | ambiguous (argument : Text) (candidates : List Text)
  | unfit (name : Text) (cause : Cause)
  | missing (names : List Text)
  | unrecognized (arguments : List Text)
deriving DecidableEq

def Refusal.message : Refusal → Text
  | .ambiguous argument candidates =>
    "ambiguous option: ".toList ++ argument ++ " could match ".toList
      ++ ", ".toList.intercalate candidates
  | .unfit name cause => "argument ".toList ++ name ++ ": ".toList ++ cause.message
  | .missing names =>
    "the following arguments are required: ".toList ++ ", ".toList.intercalate names
  | .unrecognized arguments =>
    "unrecognized arguments: ".toList ++ [' '].intercalate arguments

inductive Stop where
  | refused (program : Text) (refusal : Refusal)
  | help (usage : Text)
deriving DecidableEq

/-! ### Forms -/

structure Reading (α : Type) where
  settings : α
  surplus : List Text

inductive Effect (α : Type) where
  | help
  | flag (set : α → α)
  | value (set : Option Text → α → Except Cause α)

/-- A switch is spelled with two hyphens and a word, or with one hyphen and a letter. -/
structure Switch (α : Type) where
  letter : Option Char
  word : Text
  effect : Effect α
  purpose : String

namespace Switch

variable {α : Type}

def longName (switch : Switch α) : Text := '-' :: '-' :: switch.word

/-- All spellings, as messages show them. -/
def name (switch : Switch α) : Text :=
  match switch.letter with
  | none => switch.longName
  | some letter => '-' :: letter :: '/' :: switch.longName

end Switch

inductive Operand (α : Type) where
  | word (name : Text) (purpose : String) (set : Text → α → α)
  /-- The name of a command. The command reads all arguments behind its name. -/
  | command (name : Text) (commands : List (Text × (List Text → α → Except Stop (Reading α))))

def Operand.name {α : Type} : Operand α → Text
  | .word name _ _ => name
  | .command name _ => name

structure Form (α : Type) where
  program : Text
  purpose : String
  switches : List (Switch α)
  operands : List (Operand α)

namespace Form

variable {α : Type}

def ofLetter? (form : Form α) (letter : Char) : Option (Switch α) :=
  form.switches.find? fun switch => switch.letter = some letter

def ofWord? (form : Form α) (word : Text) : Option (Switch α) :=
  form.switches.find? fun switch => switch.word = word

def abbreviatedBy (form : Form α) (start : Text) : List (Switch α) :=
  form.switches.filter fun switch => start.isPrefixOf switch.word

/-! ### How a program is used -/

def usageLine (name : Text) (purpose : String) : Text :=
  "  ".toList ++ Text.padRight 22 name ++ purpose.toList ++ ['\n']

def operandLine : Operand α → Text
  | .word name purpose _ => usageLine name purpose
  | .command name commands =>
    usageLine name ("One of " ++ String.ofList (", ".toList.intercalate (commands.map Prod.fst)))

def switchLine (switch : Switch α) : Text :=
  let short := match switch.letter with
    | none => []
    | some letter => ['-', letter, ',', ' ']
  usageLine (short ++ switch.longName) switch.purpose

def usage (form : Form α) : Text :=
  "usage: ".toList ++ [' '].intercalate
      (form.program :: "[options]".toList :: form.operands.map Operand.name)
    ++ "\n\n".toList ++ form.purpose.toList ++ "\n\n".toList
    ++ form.operands.flatMap operandLine ++ form.switches.flatMap switchLine

end Form

/-! ## Reading command lines

First every argument gets a role, by its spelling alone. Then the arguments are read from left to
right: words become operands, or the values of the switches before them.
-/

/-! ### Roles -/

inductive Role (α : Type) where
  /-- The first lone pair of hyphens, behind which all arguments are words. -/
  | separator
  | word
  /-- The spelling of a switch, by its letter or by its word, and what is joined to it. -/
  | switch (switch : Switch α) (byLetter : Bool) (joined : Option Text)
  | unknown

/-- Whether a text is a hyphen and digits, which may have a point among them or before them. One line
feed may follow. -/
def isNegativeNumber (argument : Text) : Bool :=
  match argument with
  | '-' :: rest =>
    let figures := if rest.getLast? = some '\n' then rest.dropLast else rest
    match figures.dropWhile isDecimalDigit with
    | [] => !figures.isEmpty
    | '.' :: fraction => !fraction.isEmpty && fraction.all isDecimalDigit
    | _ => false
  | _ => false

def strangerRole {α : Type} (argument : Text) : Role α :=
  if isNegativeNumber argument || argument.contains ' ' then .word else .unknown

namespace Form

variable {α : Type}

def joinedBy : Text → Option Text
  | '=' :: value => some value
  | _ => none

/-- What is joined to the letter of a switch: all that follows it, but for an equals sign at its start. -/
def joinedToLetter : Text → Option Text
  | [] => none
  | '=' :: value => some value
  | value => some value

/-- The role of an argument in front of the separator. A word may be abbreviated as long as only one
switch starts that way. -/
def roleOf (form : Form α) (argument : Text) : Except Refusal (Role α) :=
  match argument with
  | '-' :: '-' :: spelled =>
    let start := spelled.takeWhile (· ≠ '=')
    let joined := joinedBy (spelled.dropWhile (· ≠ '='))
    match form.ofWord? start, form.abbreviatedBy start with
    | some switch, _ => .ok (.switch switch false joined)
    | none, [] => .ok (strangerRole argument)
    | none, [switch] => .ok (.switch switch false joined)
    | none, several => .error (.ambiguous argument (several.map Switch.longName))
  | '-' :: letter :: tail =>
    match form.ofLetter? letter with
    | some switch => .ok (.switch switch true (joinedToLetter tail))
    | none => .ok (strangerRole argument)
  | _ => .ok .word

def roles (form : Form α) : List Text → Except Refusal (List (Text × Role α))
  | [] => .ok []
  | argument :: rest =>
    if argument = ['-', '-'] then
      .ok ((argument, .separator) :: rest.map fun word => (word, .word))
    else do
      let role ← form.roleOf argument
      return (argument, role) :: (← form.roles rest)

end Form

/-! ### Switches -/

abbrev Setter (α : Type) := Text × (Option Text → α → Except Cause α)

inductive Step (α : Type) where
  | help
  | change (set : α → α)
  | assign (setter : Setter α) (value : Option Text)
  | surplus (argument : Text)

structure Demand (α : Type) where
  steps : List (Step α)
  pending : Option (Setter α)

namespace Switch

variable {α : Type}

def plainDemand (switch : Switch α) : Demand α :=
  match switch.effect with
  | .help => ⟨[.help], none⟩
  | .flag set => ⟨[.change set], none⟩
  | .value set => ⟨[], some (switch.name, set)⟩

/-- A value that is joined to a switch. A pair of hyphens leaves it blank. -/
def joinedValue (value : Text) : Option Text := if value = ['-', '-'] then none else some value

def demandWith (switch : Switch α) (value : Text) : Except Refusal (Demand α) :=
  match switch.effect with
  | .value set => .ok ⟨[.assign (switch.name, set) (joinedValue value)], none⟩
  | _ => .error (.unfit switch.name (.unusedValue value))

end Switch

namespace Form

variable {α : Type}

/-- What the letter of a switch asks for with a text behind it. The text is a value if the switch takes
one. Otherwise it holds the letters of further switches, all of which must be known. -/
def demandOfLetters (form : Form α) (switch : Switch α) : Text → Except Refusal (Demand α)
  | [] => .ok switch.plainDemand
  | c :: rest =>
    match switch.effect, form.ofLetter? c with
    | .value _, _ | _, none => switch.demandWith (c :: rest)
    | _, some next => do
      let others ← form.demandOfLetters next rest
      return ⟨switch.plainDemand.steps ++ others.steps, others.pending⟩

def demand (form : Form α) (switch : Switch α) (byLetter : Bool) :
    Option Text → Except Refusal (Demand α)
  | none => .ok switch.plainDemand
  | some value =>
    if byLetter && !value.isEmpty then form.demandOfLetters switch value
    else switch.demandWith value

/-! ### Reading -/

def refuse {β : Type} (form : Form α) (refusal : Refusal) : Except Stop β :=
  .error (.refused form.program refusal)

def perform (form : Form α) (reading : Reading α) : Step α → Except Stop (Reading α)
  | .help => .error (.help form.usage)
  | .change set => .ok { reading with settings := set reading.settings }
  | .assign (name, set) value =>
    match set value reading.settings with
    | .ok settings => .ok { reading with settings := settings }
    | .error cause => form.refuse (.unfit name cause)
  | .surplus argument => .ok { reading with surplus := reading.surplus ++ [argument] }

def performAll (form : Form α) (reading : Reading α) (steps : List (Step α)) :
    Except Stop (Reading α) := steps.foldlM form.perform reading

def finish (form : Form α) (missing : List (Operand α)) (reading : Reading α) :
    Except Stop (Reading α) :=
  if missing.isEmpty then .ok reading else form.refuse (.missing (missing.map Operand.name))

def enter (form : Form α) (operand : Text)
    (commands : List (Text × (List Text → α → Except Stop (Reading α)))) (reading : Reading α)
    (command : Text) (arguments : List Text) : Except Stop (Reading α) :=
  match commands.lookup command with
  | none => form.refuse (.unfit operand (.notAmong command (commands.map Prod.fst)))
  | some read => do
    let inner ← read arguments reading.settings
    return ⟨inner.settings, reading.surplus ++ inner.surplus⟩

/-- Reads arguments that have their roles. `operands` are those that are still to come. A separator
next to an operand is passed over. -/
def readRoles (form : Form α) (operands : List (Operand α)) (reading : Reading α) :
    List (Text × Role α) → Except Stop (Reading α)
  | [] => form.finish operands reading
  | (argument, .unknown) :: rest => do
    form.readRoles operands (← form.perform reading (.surplus argument)) rest
  | (_, .switch switch byLetter joined) :: rest =>
    match form.demand switch byLetter joined with
    | .error refusal => form.refuse refusal
    | .ok ⟨steps, none⟩ => do form.readRoles operands (← form.performAll reading steps) rest
    | .ok ⟨steps, some setter⟩ =>
      match rest with
      | (value, .word) :: rest => do
        form.readRoles operands
          (← form.performAll reading (steps ++ [.assign setter (some value)])) rest
      | _ => form.refuse (.unfit setter.1 .noValue)
  | (argument, .word) :: rest =>
    match operands with
    | [] => do form.readRoles [] (← form.perform reading (.surplus argument)) rest
    | .word _ _ set :: operands =>
      let reading := { reading with settings := set argument reading.settings }
      match rest with
      | (_, .separator) :: rest => form.readRoles operands reading rest
      | _ => form.readRoles operands reading rest
    | .command name commands :: operands => do
      form.finish operands (← form.enter name commands reading argument (rest.map Prod.fst))
  | (argument, .separator) :: rest =>
    match operands, rest with
    | .word _ _ set :: operands, (word, .word) :: rest =>
      form.readRoles operands { reading with settings := set word reading.settings } rest
    | .command name commands :: operands, _ :: _ => do
      form.finish operands (← form.enter name commands reading argument (rest.map Prod.fst))
    | operands, rest => do
      form.readRoles operands (← form.perform reading (.surplus argument)) rest

/-- Reads a command line; what nothing is found for is kept aside. -/
def readKnown (form : Form α) (arguments : List Text) (settings : α) : Except Stop (Reading α) :=
  match form.roles arguments with
  | .error refusal => form.refuse refusal
  | .ok roles => form.readRoles form.operands ⟨settings, []⟩ roles

def read (form : Form α) (arguments : List Text) (settings : α) : Except Stop α := do
  let reading ← form.readKnown arguments settings
  if reading.surplus.isEmpty then return reading.settings
  else form.refuse (.unrecognized reading.surplus)

end Form

end Tessera.CommandLine
