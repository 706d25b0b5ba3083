import Tessera.CommandLine.Reader
import Tessera.Grammar.Compiler
import Tessera.Number.Basic
import Tessera.Tokenizer.Options

/-!
# Commands

What the program can be asked to do, and the forms that its commands are read by.
-/

set_option autoImplicit false

namespace Tessera.CommandLine

/-! ## Commands -/

structure Subject where
  path : Text
  text : Text
  /-- The seed, which may be given and left blank. -/
  seed : Option (Option Int)
  json : Bool

/-- How strongly a text is compressed. The figure that says so may be left blank. -/
inductive Pressure where
  | full
  | factor (share : Option Float)
  | gradient (pull : Option Float)

/-- How tokenizations are drawn. What takes a value may be left blank. -/
structure Drawing where
  strategy : Option Strategy
  idealLength : Option Number
  draws : Option Int
  addBos : Bool
  addEos : Bool
  preserveSpecial : Bool
  strict : Bool

inductive Deed where
  | tokenize (drawing : Drawing)
  | compress (pressure : Pressure)
  | compare
  | statistics

inductive Command where
  | process (subject : Subject) (deed : Deed)
  | grammar (options : Grammar.Options)

structure Invocation where
  verbose : Bool
  command : Option Command

/-! ## Values -/

/-- How many digits an integer may have. -/
def digitLimit : Nat := 4300

def integerOf (value : Text) : Except Cause Int :=
  let tooLong := decide (digitLimit < value.countP isDecimalDigit)
  match if tooLong then none else NumeralRules.commandLine.integer? value with
  | some number => .ok number
  | none => .error (.notInteger value)

def realOf (value : Text) : Except Cause Float :=
  match NumeralRules.commandLine.real? value with
  | some number => .ok number
  | none => .error (.notReal value)

def strategyOf (value : Text) : Except Cause Strategy :=
  match Strategy.ofName? (String.ofList value) with
  | some strategy => .ok strategy
  | none => .error (.notAmong value (Strategy.all.map fun strategy => strategy.name.toList))

/-! ## Forms -/

section

variable {α β : Type}

def valueSwitch (word purpose : String) (read : Text → Except Cause β)
    (set : Option β → α → α) : Switch α :=
  ⟨none, word.toList, .value fun value settings => do return set (← value.mapM read) settings,
    purpose⟩

def flagSwitch (word purpose : String) (set : α → α) : Switch α :=
  ⟨none, word.toList, .flag set, purpose⟩

def helpSwitch : Switch α := ⟨some 'h', "help".toList, .help, "Show how the program is used"⟩

end

def programName : String := "llaman"

def blankSubject : Subject := ⟨[], [], none, false⟩

/-- The form of a command about a subject. The switches of its own change the rest of the settings. -/
def subjectForm {α : Type} (command purpose : String) (switches : List (Switch (Subject × α))) :
    Form (Subject × α) where
  program := (programName ++ " " ++ command).toList
  purpose := purpose
  operands := [
    .word "vocab".toList "The file of the vocabulary" fun path (subject, rest) =>
      ({ subject with path := path }, rest),
    .word "text".toList "The text to process" fun text (subject, rest) =>
      ({ subject with text := text }, rest)]
  switches := [
    helpSwitch,
    valueSwitch "seed" "Seed of the random numbers" integerOf fun seed (subject, rest) =>
      ({ subject with seed := some seed }, rest),
    flagSwitch "json" "Write the answer as a document" fun (subject, rest) =>
      ({ subject with json := true }, rest)] ++ switches

def plainDrawing : Drawing :=
  ⟨some .random, some Tokenizer.Options.defaultIdealLength, some 1, false, false, true, false⟩

def tokenizeForm : Form (Subject × Drawing) :=
  subjectForm "tokenize" "Tokenize a text" [
    valueSwitch "strategy" "How tokens are selected" strategyOf fun strategy (subject, drawing) =>
      (subject, { drawing with strategy := strategy }),
    valueSwitch "ideal-length" "The length that tokens should have" realOf
      fun length (subject, drawing) => (subject, { drawing with idealLength := length.map .real }),
    valueSwitch "samples" "The number of tokenizations" integerOf fun draws (subject, drawing) =>
      (subject, { drawing with draws := draws }),
    flagSwitch "bos" "Put the mark of the beginning in front" fun (subject, drawing) =>
      (subject, { drawing with addBos := true }),
    flagSwitch "eos" "Put the mark of the end behind" fun (subject, drawing) =>
      (subject, { drawing with addEos := true }),
    flagSwitch "no-special" "Split special texts like others" fun (subject, drawing) =>
      (subject, { drawing with preserveSpecial := false }),
    flagSwitch "strict" "Fail on characters that no token covers" fun (subject, drawing) =>
      (subject, { drawing with strict := true })]

/-- Asks for a factor, unless a gradient is asked for. -/
def askFactor (value : Option Text) : Subject × Pressure → Except Cause (Subject × Pressure)
  | (subject, pressure) => do
    let share ← value.mapM realOf
    match pressure with
    | .gradient _ => .error (.excluded "--gradient".toList)
    | _ => return (subject, .factor share)

/-- Asks for a gradient, unless a factor is asked for. -/
def askGradient (value : Option Text) : Subject × Pressure → Except Cause (Subject × Pressure)
  | (subject, pressure) => do
    let pull ← value.mapM realOf
    match pressure with
    | .factor _ => .error (.excluded "--factor".toList)
    | _ => return (subject, .gradient pull)

def compressForm : Form (Subject × Pressure) :=
  subjectForm "compress" "Compress a text into few tokens" [
    ⟨none, "factor".toList, .value askFactor, "Strength of compression, from 0 to 1"⟩,
    ⟨none, "gradient".toList, .value askGradient, "Pull towards long tokens, from -1 to 1"⟩]

def compareForm : Form (Subject × Unit) :=
  subjectForm "compare" "Compare the longest tokens with the shortest" []

def statisticsForm : Form (Subject × Unit) := subjectForm "stats" "Figures of compression" []

def grammarForm : Form Grammar.Options where
  program := (programName ++ " grammar").toList
  purpose := "Print the example grammar of arithmetic"
  operands := []
  switches := [
    helpSwitch,
    valueSwitch "prefix" "Put before the names of the productions" .ok fun qualifier options =>
      { options with qualifier := String.ofList (qualifier.getD []) },
    flagSwitch "inline" "Write rules out instead of naming them" fun options =>
      { options with inline := true }]

def commandEntry {α : Type} (name : String) (form : Form α) (start : α) (command : α → Command) :
    Text × (List Text → Invocation → Except Stop (Reading Invocation)) :=
  (name.toList, fun arguments invocation => do
    let inner ← form.readKnown arguments start
    return ⟨{ invocation with command := some (command inner.settings) }, inner.surplus⟩)

def commandEntries : List (Text × (List Text → Invocation → Except Stop (Reading Invocation))) := [
  commandEntry "tokenize" tokenizeForm (blankSubject, plainDrawing) fun (subject, drawing) =>
    .process subject (.tokenize drawing),
  commandEntry "compress" compressForm (blankSubject, .full) fun (subject, pressure) =>
    .process subject (.compress pressure),
  commandEntry "compare" compareForm (blankSubject, ()) fun (subject, _) =>
    .process subject .compare,
  commandEntry "stats" statisticsForm (blankSubject, ()) fun (subject, _) =>
    .process subject .statistics,
  commandEntry "grammar" grammarForm Grammar.Options.default .grammar]

def programForm : Form Invocation where
  program := programName.toList
  purpose := "Tokenize with random selection, and compile grammars"
  operands := [.command "command".toList commandEntries]
  switches := [
    helpSwitch,
    ⟨some 'v', "verbose".toList, .flag fun invocation => { invocation with verbose := true },
      "Tell more about the run"⟩]

def Invocation.ofArguments (arguments : List Text) : Except Stop Invocation :=
  programForm.read arguments ⟨false, none⟩

end Tessera.CommandLine
