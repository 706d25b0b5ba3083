import Tessera.CommandLine.Command
import Tessera.Compression.Basic
import Tessera.Grammar.Compiler
import Tessera.Inspection.Basic
import Tessera.Random.Source
import Tessera.Report.Basic
import Tessera.Text.Basic
import Tessera.Vocabulary.Basic

/-!
# The program and its files

What there may be at a path, and what one run of the program makes of its arguments.
-/

set_option autoImplicit false

/-! ## Files

What there may be at a path, and which paths are not followed at all. Where a set of files is given by
their paths, the directories are the proper beginnings of those paths. A path is followed component by
component, and the first component that cannot be followed decides.
-/

namespace Tessera.CommandLine

inductive Entry where
  | absent
  | directory
  /-- The path goes on behind a file. -/
  | beneathFile
  /-- The path, or a component of it, has more bytes than any name may have. -/
  | nameTooLong
  | nullCharacter
  | file (content : ByteArray)

/-- The components of a path. Empty ones count no more than those that mean the directory itself. -/
def components (path : Text) : List Text :=
  (path.splitOn '/').filter fun component => component ≠ [] && component ≠ ['.']

def byteSize (text : Text) : Nat := (String.ofList text).utf8ByteSize

def componentLimit : Nat := 255

def pathLimit : Nat := 4095

def pathSize (path : Text) : Nat :=
  let parts := components path
  let slashes := if path.head? = some '/' then parts.length else parts.length - 1
  parts.foldl (fun size part => size + byteSize part) slashes

/-- What a path comes to that no machine follows. -/
def unfollowed? (path : Text) : Option Entry :=
  if path.contains '\x00' then some .nullCharacter
  else if pathLimit < pathSize path then some .nameTooLong
  else none

abbrev FileSet := List (Text × ByteArray)

namespace FileSet

inductive Spot where
  | inside (directory : List Text)
  | root
  /-- A directory of which nothing is known. -/
  | unknown

namespace Spot

def above : Spot → Spot
  | inside [] => unknown
  | inside (first :: rest) => inside (first :: rest).dropLast
  | root => root
  | unknown => unknown

end Spot

/-- The directories right below the root, as far as every machine has them. -/
def commonDirectories : List String :=
  ["bin", "dev", "etc", "home", "lib", "opt", "proc", "root", "sbin", "sys", "tmp", "usr", "var"]

def follow (files : List (List Text × ByteArray)) : Spot → List Text → Entry
  | _, [] => .directory
  | spot, component :: rest =>
    if component = "..".toList then follow files spot.above rest
    else if componentLimit < byteSize component then .nameTooLong
    else
      match spot with
      | .inside directory =>
        let here := directory ++ [component]
        match files.lookup here with
        | some content => if rest.isEmpty then .file content else .beneathFile
        | none =>
          if files.any fun (path, _) => here.isPrefixOf path then follow files (.inside here) rest
          else .absent
      | .root =>
        if commonDirectories.contains (String.ofList component) then follow files .unknown rest
        else .absent
      | .unknown => .absent

/-- What there is at a path. Above the files there are directories of which nothing is known. -/
def entry (files : FileSet) (path : Text) : Entry :=
  match unfollowed? path with
  | some known => known
  | none =>
    follow (files.map fun (path, content) => (components path, content))
      (if path.head? = some '/' then .root else .inside []) (components path)

end FileSet

/-! ## The program

One run of the program, from its arguments to what it prints. The files are given by a function, and
the random numbers of a run without a seed come from a number that is handed in.
-/

/-! ### Outcomes -/

structure Response where
  exitCode : Nat
  output : Text
  messages : Text
  /-- What is wrong with the vocabulary, if that is why the program gave up. They are to be told behind
  the messages, whose last line is left open for them. -/
  faults : List Fault
deriving DecidableEq

inductive Unreadable where
  | directory
  | beneathFile
  | nameTooLong
  | nullCharacter
  | notText
deriving DecidableEq

inductive Blank where
  | sign
  | bounds
  | count
  | succession
deriving DecidableEq

def Blank.message : Blank → String
  | .sign => "'<' not supported between instances of 'list' and 'int'"
  | .bounds => "'<=' not supported between instances of 'float' and 'list'"
  | .count => "'list' object cannot be interpreted as an integer"
  | .succession => "can only concatenate list (not \"int\") to list"

inductive Outcome where
  | ended (response : Response)
  /-- The program breaks off: it is not prepared for such a path. -/
  | broken (cause : Unreadable)
  /-- The program breaks off: it is not prepared for a blank. -/
  | baffled (blank : Blank)
deriving DecidableEq

/-! ### Commands on texts -/

def line (text : Text) : Text := text ++ ['\n']

def documentAnswer (document : Document) : Text := line (document.render (.indented 2))

/-- Documents as an answer, with no characters outside ASCII. -/
def asciiAnswer (documents : List Document) : Text :=
  line ((Document.array documents).render { Document.Layout.indented 2 with ascii := true })

def inspectionAnswer (inspection : Inspection) : Text :=
  let ids := inspection.tokens.map fun info => integerText info.id
  line (Report.inspection inspection Inspection.defaultSeparator)
    ++ line ("  ids: [".toList ++ ", ".toList.intercalate ids ++ [']'])

def reportAnswer : Except Report.Error Text → Text
  | .ok text => line text
  | .error error => line error.message.toList

/-- The name of a strategy; one that is left blank has a name that no strategy has. -/
def strategyName (strategy : Option Strategy) : String := (strategy.map Strategy.name).getD "[]"

def Drawing.overrides (drawing : Drawing) : Tokenizer.Options.Overrides where
  strategy := some (strategyName drawing.strategy)
  idealLength := drawing.idealLength.map .number
  seed := none
  addBos := some drawing.addBos
  addEos := some drawing.addEos
  preserveSpecial := some drawing.preserveSpecial
  strict := some drawing.strict

/-- What a drawing cannot do because of a blank. A strategy that is left blank, or an ideal length below
zero, is refused before anything else is looked at. -/
def Drawing.blank? (drawing : Drawing) (seed : Option (Option Int)) : Option Blank :=
  match drawing.strategy, drawing.idealLength, drawing.draws with
  | none, _, _ => none
  | some _, none, _ => some .sign
  | some _, some length, draws =>
    if length.isNegative then none
    else
      match draws with
      | none => some .count
      | some draws => if seed = some none ∧ 0 < draws then some .succession else none

/-- What a pressure cannot do because of a blank. A gradient takes a seed that is left blank for zero, and
a factor out of bounds is refused before the seed is looked at. -/
def Pressure.blank? (pressure : Pressure) (seed : Option (Option Int)) : Option Blank :=
  match pressure with
  | .factor none | .gradient none => some .bounds
  | .gradient (some _) => none
  | .factor (some share) => if seed = some none ∧ 0 ≤ share ∧ share ≤ 1 then some .sign else none
  | .full => if seed = some none then some .sign else none

def Deed.blank? (deed : Deed) (seed : Option (Option Int)) : Option Blank :=
  match deed with
  | .tokenize drawing => drawing.blank? seed
  | .compress pressure => pressure.blank? seed
  | .compare | .statistics => if seed = some none then some .sign else none

section

variable {σ : Type} [RandomSource σ]

def Pressure.compress (pressure : Pressure) (tokenizer : Tokenizer) (text : Text)
    (seed : Option (Option Int)) (supply : Supply σ) : Call σ Compressed :=
  match pressure with
  | .full => tokenizer.compress text seed.join true supply
  | .factor share =>
    tokenizer.compressByFactor text (.real (share.getD 0)) seed.join Tokenizer.defaultSample supply
  | .gradient pull =>
    tokenizer.compressByGradient text (.real (pull.getD 0)) (seed.map (·.getD 0)) supply

def Deed.answer (deed : Deed) (tokenizer : Tokenizer) (subject : Subject) (supply : Supply σ) :
    Call σ Text :=
  match deed with
  | .tokenize drawing => do
    let options ← Call.ofOptions (Tokenizer.Options.default.override drawing.overrides)
    let inspections ← tokenizer.sample subject.text (drawing.draws.getD 0) options .none
      subject.seed.join supply
    return if subject.json then asciiAnswer (inspections.map Inspection.toDocument)
      else inspections.flatMap inspectionAnswer
  | .compress pressure => do
    let result ← pressure.compress tokenizer subject.text subject.seed supply
    return if subject.json then documentAnswer result.toDocument
      else line (Report.compression result Report.previewLimit)
  | .compare => do
    let comparison ← tokenizer.compare subject.text subject.seed.join supply
    return if subject.json then documentAnswer comparison.toDocument
      else reportAnswer (Report.comparison comparison)
  | .statistics => do
    let statistics ← tokenizer.statistics subject.text subject.seed.join supply
    return if subject.json then documentAnswer statistics.toDocument
      else reportAnswer (Report.statistics statistics)

end

/-! ### Runs -/

/-- Where a run takes its random numbers from: a seed starts a generator of its own, and without one the
generator at hand goes on. -/
def seededSupply : Supply Generator :=
  .starting fun seed generator =>
    match seed with
    | some seed => Generator.ofSeed? seed
    | none => some generator

def messagesOf (verbose : Bool) (notices : List Notice) : Text :=
  (Notice.textsFrom (if verbose then .debug else .info) notices).flatMap line

def conclude (verbose : Bool) (notices : List Notice) : Except Text Text → Response
  | .ok answer => ⟨0, answer, messagesOf verbose notices, []⟩
  | .error reason => ⟨1, [], messagesOf verbose (notices ++ [.gaveUp reason]), []⟩

def builtNotice (tokenizer : Tokenizer) : Notice :=
  .built tokenizer.vocabulary.size tokenizer.special.length tokenizer.trie.maxDepth

def process (verbose : Bool) (subject : Subject) (deed : Deed) (vocabulary : Vocabulary)
    (entropy : Nat) : Response :=
  let tokenizer := Tokenizer.ofVocabulary vocabulary
  let desk : Desk Generator := ⟨.ofSeed entropy,
    #[.loaded vocabulary.size subject.path, builtNotice tokenizer]⟩
  let (result, desk) := (deed.answer tokenizer subject seededSupply).runOn desk
  conclude verbose desk.notices.toList (result.mapError fun failure => failure.message.toList)

/-- Goes on with what has been read from the file of a vocabulary. -/
def processFile (verbose : Bool) (subject : Subject) (deed : Deed) (found : Checked Vocabulary)
    (entropy : Nat) : Outcome :=
  match found, deed.blank? subject.seed with
  | .accepted _, some blank => .baffled blank
  | .accepted vocabulary, none => .ended (process verbose subject deed vocabulary entropy)
  | .rejected faults, _ =>
    .ended
      ⟨1, [], (Notice.gaveUp ("invalid vocabulary file ".toList ++ subject.path)).text, faults⟩

def printGrammar (verbose : Bool) (options : Grammar.Options) : Response :=
  let compiler : Grammar.Compiler := ⟨Grammar.arithmetic, options⟩
  let notice := Notice.compiled compiler.definitions.length options.inline options.qualifier.toList
  match (compiler.compile.run.run .start).1 with
  | .ok text => conclude verbose [notice] (.ok (line text))
  | .error cause => conclude verbose [] (.error cause.message.toList)

def obey (verbose : Bool) (entry : Text → Entry) (entropy : Nat) : Command → Outcome
  | .grammar options => .ended (printGrammar verbose options)
  | .process subject deed =>
    match entry subject.path with
    | .absent =>
      .ended (conclude verbose [] (.error ("vocabulary file not found: ".toList ++ subject.path)))
    | .directory => .broken .directory
    | .beneathFile => .broken .beneathFile
    | .nameTooLong => .broken .nameTooLong
    | .nullCharacter => .broken .nullCharacter
    | .file content =>
      match Vocabulary.ofFile? content with
      | none => .broken .notText
      | some found => processFile verbose subject deed found entropy

/-- The last line of a text, the line breaks at its end left out. -/
def lastLine (text : Text) : Text :=
  ((text.reverse.dropWhile (· = '\n')).takeWhile (· ≠ '\n')).reverse

def Stop.response : Stop → Response
  | .help usage => ⟨0, usage, [], []⟩
  | .refused program refusal =>
    ⟨2, [], lastLine (program ++ ": error: ".toList ++ refusal.message), []⟩

def respond (arguments : List Text) (entry : Text → Entry) (entropy : Nat) : Outcome :=
  match Invocation.ofArguments arguments with
  | .error stop => .ended stop.response
  | .ok ⟨verbose, some command⟩ => obey verbose entry entropy command
  | .ok ⟨_, none⟩ =>
    .ended (Stop.refused programName.toList (.missing ["command".toList])).response

end Tessera.CommandLine
