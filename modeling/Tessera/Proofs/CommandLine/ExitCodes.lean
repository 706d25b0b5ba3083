import Tessera.Proofs.CommandLine.SoundCommands
import Tessera.Proofs.Report.DrawnBars
import Tessera.Proofs.Tokenizer.TakenUpFailures
import Tessera.Proofs.Vocabulary.SavedVocabulary

/-!
# Exit codes

A run about a vocabulary ends, unless the program is not prepared for what it finds at the path or for a
blank. It then tells by its exit code whether there is an answer.
-/

set_option autoImplicit false

namespace Tessera.CommandLine

open Tessera.Computation

/-! ## Files in a set -/

namespace FileSet

variable {listed : List (List Text × ByteArray)} {content : ByteArray}

/-- Whether a component of a path leads to what has its name. -/
def IsPlain (component : Text) : Prop :=
  component ≠ "..".toList ∧ byteSize component ≤ componentLimit

theorem follow_inside {directory rest : List Text} {component : Text} (plain : IsPlain component) :
    follow listed (.inside directory) (component :: rest) =
      match listed.lookup (directory ++ [component]) with
      | some content => if rest.isEmpty then .file content else .beneathFile
      | none =>
        if listed.any fun (path, _) => (directory ++ [component]).isPrefixOf path then
          follow listed (.inside (directory ++ [component])) rest
        else .absent := by
  rw [follow]
  exact (if_neg plain.1).trans (if_neg (Nat.not_lt.mpr plain.2))

/-- A file is found by the components of its path, unless another file is in the way. -/
theorem follow_of_listed {directory rest : List Text} (nonempty : rest ≠ [])
    (plain : ∀ component ∈ rest, IsPlain component)
    (found : listed.lookup (directory ++ rest) = some content)
    (free : ∀ front back, rest = front ++ back → front ≠ [] → back ≠ [] →
      listed.lookup (directory ++ front) = none) :
    follow listed (.inside directory) rest = .file content := by
  induction rest generalizing directory with
  | nil => exact absurd rfl nonempty
  | cons component rest ih =>
      obtain ⟨componentPlain, restPlain⟩ := List.forall_mem_cons.mp plain
      rw [follow_inside componentPlain]
      by_cases last : rest = []
      · subst last
        rw [found]
        rfl
      · have ahead : (listed.any fun (path, _) => (directory ++ [component]).isPrefixOf path) =
            true := by
          obtain ⟨front, back, rfl, -⟩ := List.lookup_eq_some_iff.mp found
          simp
        rw [free [component] rest rfl (List.cons_ne_nil _ _) last]
        simp only [ahead, if_true]
        apply ih last restPlain
        · simpa using found
        · intro front back split frontNonempty backNonempty
          have inTheWay := free (component :: front) back (by rw [split, List.cons_append])
            (List.cons_ne_nil _ _) backNonempty
          simpa using inTheWay

/-- A file that is alone in its set is found at its path. -/
theorem entry_singleton {path : Text} (followed : unfollowed? path = none)
    (relative : path.head? ≠ some '/') (nonempty : components path ≠ [])
    (plain : ∀ component ∈ components path, IsPlain component) (content : ByteArray) :
    entry [(path, content)] path = .file content := by
  rw [entry, followed]
  simp only [if_neg relative]
  apply follow_of_listed nonempty plain
  · simp
  · intro front back split _ backNonempty
    have shorter : (front == components path) = false := by
      rw [split]
      simpa using backNonempty
    simp [List.lookup_cons, shorter]

end FileSet

/-! ## Vocabularies at paths -/

/-- What is loaded from a path: a vocabulary, or none, if there is no file or no good one. The program
is not prepared for the rest. -/
def Entry.load : Entry → Except Unreadable (Option Vocabulary)
  | .absent => .ok none
  | .directory => .error .directory
  | .beneathFile => .error .beneathFile
  | .nameTooLong => .error .nameTooLong
  | .nullCharacter => .error .nullCharacter
  | .file content =>
    match Vocabulary.ofFile? content with
    | none => .error .notText
    | some (.rejected _) => .ok none
    | some (.accepted vocabulary) => .ok (some vocabulary)

/-- A vocabulary that was saved at a path is loaded from there. -/
theorem load_savedFile {path : Text} (followed : unfollowed? path = none)
    (relative : path.head? ≠ some '/') (nonempty : components path ≠ [])
    (plain : ∀ component ∈ components path, FileSet.IsPlain component) {vocabulary : Vocabulary}
    (size : vocabulary.size ≤ 10 ^ Numeral.sizeLimit) (indent : Option Nat) :
    (FileSet.entry [(path, vocabulary.savedFile indent)] path).load = .ok (some vocabulary) := by
  rw [FileSet.entry_singleton followed relative nonempty plain, Entry.load, Vocabulary.savedFile,
    Vocabulary.ofFile?_toUTF8, String.toList_ofList, Vocabulary.ofFileText_fileText size]

/-! ## Answers -/

section

variable {σ : Type} [RandomSource σ]

/-- What a deed comes to, before it is printed. Drawing a report of it may fail. -/
def Deed.attempt (deed : Deed) (tokenizer : Tokenizer) (subject : Subject) (supply : Supply σ) :
    Call σ (Except Report.Error Text) :=
  match deed with
  | .compare => do
    let comparison ← tokenizer.compare subject.text subject.seed.join supply
    return if subject.json then .ok (documentAnswer comparison.toDocument)
      else (Report.comparison comparison).map line
  | .statistics => do
    let statistics ← tokenizer.statistics subject.text subject.seed.join supply
    return if subject.json then .ok (documentAnswer statistics.toDocument)
      else (Report.statistics statistics).map line
  | _ => do return .ok (← deed.answer tokenizer subject supply)

/-- What is printed of a report. -/
def printed : Except Report.Error Text → Text
  | .ok text => text
  | .error error => line error.message.toList

theorem printed_map_line (drawn : Except Report.Error Text) :
    printed (drawn.map line) = reportAnswer drawn := by
  cases drawn <;> rfl

variable {tokenizer : Tokenizer} {subject : Subject} {supply : Supply σ}

theorem answer_eq_printed_attempt (deed : Deed) :
    deed.answer tokenizer subject supply =
      (do return printed (← deed.attempt tokenizer subject supply)) := by
  cases deed with
  | tokenize drawing => simp only [Deed.attempt, bind_assoc, pure_bind, printed, bind_pure]
  | compress pressure => simp only [Deed.attempt, bind_assoc, pure_bind, printed, bind_pure]
  | compare =>
      simp only [Deed.attempt, Deed.answer, bind_assoc, pure_bind]
      refine congrArg _ (funext fun comparison => congrArg pure ?_)
      rw [apply_ite printed, printed_map_line]
      rfl
  | statistics =>
      simp only [Deed.attempt, Deed.answer, bind_assoc, pure_bind]
      refine congrArg _ (funext fun statistics => congrArg pure ?_)
      rw [apply_ite printed, printed_map_line]
      rfl

theorem fst_runOn_answer (deed : Deed) (desk : Desk σ) :
    ((deed.answer tokenizer subject supply).runOn desk).1 =
      ((deed.attempt tokenizer subject supply).runOn desk).1.map printed := by
  rw [answer_eq_printed_attempt]
  change (outcome (deed.attempt tokenizer subject supply >>= _) desk).1 =
    (outcome (deed.attempt tokenizer subject supply) desk).1.map printed
  rw [outcome_bind]
  cases outcome (deed.attempt tokenizer subject supply) desk with
  | mk result after => cases result <;> rfl

theorem isInRange_overrides {mayBlank : Prop} {drawing : Drawing} (sound : drawing.IsSound mayBlank) :
    drawing.overrides.IsInRange := by
  intro length given
  obtain ⟨number, present, rfl⟩ := Option.map_eq_some_iff.mp given
  exact ⟨number, rfl, sound.inRange number present⟩

theorem settles_tokenizeAnswer {mayBlank : Prop} {drawing : Drawing}
    (sound : drawing.IsSound mayBlank) :
    ((Deed.tokenize drawing).answer tokenizer subject supply).Settles fun _ => True := by
  refine (Call.settles_ofOptions (Tokenizer.Options.settles_override
    Tokenizer.Options.inRange_default (isInRange_overrides sound))).bind fun options inRange => ?_
  refine (Tokenizer.settles_samplesFrom inRange (Tokenizer.Options.isInRange_of_none rfl)
    subject.seed.join 0 _).bind fun _ _ => ?_
  exact Call.settles_pure trivial

theorem settles_compressAnswer (pressure : Pressure) :
    ((Deed.compress pressure).answer tokenizer subject supply).Settles fun _ => True := by
  have settles : (pressure.compress tokenizer subject.text subject.seed supply).Settles
      fun _ => True := by
    cases pressure with
    | full => exact Tokenizer.settles_compress subject.seed.join true
    | factor share => exact Tokenizer.settles_compressByFactor _ subject.seed.join _
    | gradient pull => exact Tokenizer.settles_compressByGradient _ _
  exact settles.bind fun _ _ => Call.settles_pure trivial

/-- A failure of a sound deed is taken up, and a report of what was computed never fails. -/
theorem settles_attempt {mayBlank : Prop} {deed : Deed} (sound : deed.IsSound mayBlank)
    (tokenizer : Tokenizer) (subject : Subject) (supply : Supply σ) :
    (deed.attempt tokenizer subject supply).Settles fun drawn => ∃ text, drawn = .ok text := by
  cases deed with
  | tokenize drawing =>
      exact (settles_tokenizeAnswer sound).bind fun text _ => Call.settles_pure ⟨text, rfl⟩
  | compress pressure =>
      exact (settles_compressAnswer pressure).bind fun text _ => Call.settles_pure ⟨text, rfl⟩
  | compare =>
      refine (Tokenizer.settles_compare subject.seed.join).bind fun comparison _ =>
        Call.settles_pure ?_
      obtain ⟨text, drawn⟩ := Report.exists_comparison comparison
      split
      · exact ⟨_, rfl⟩
      · exact ⟨line text, by rw [drawn]; rfl⟩
  | statistics =>
      refine (Tokenizer.settles_statistics subject.seed.join).bind fun figures made =>
        Call.settles_pure ?_
      obtain ⟨longest, shortest, rfl⟩ := made
      obtain ⟨text, drawn⟩ := Report.exists_statistics tokenizer subject.text longest shortest
      split
      · exact ⟨_, rfl⟩
      · exact ⟨line text, by rw [drawn]; rfl⟩

end

/-! ## Runs -/

/-- What a deed comes to with a vocabulary, in a run of its own. -/
def Deed.result (deed : Deed) (subject : Subject) (vocabulary : Vocabulary) (entropy : Nat) :
    Except Failure (Except Report.Error Text) :=
  let tokenizer := Tokenizer.ofVocabulary vocabulary
  let desk : Desk Generator := ⟨.ofSeed entropy,
    #[.loaded vocabulary.size subject.path, builtNotice tokenizer]⟩
  ((deed.attempt tokenizer subject seededSupply).runOn desk).1

/-- Whether a response tells what a deed has come to: its answer, or else a failure that is taken up. -/
def Response.Tells (response : Response) : Except Failure (Except Report.Error Text) → Prop
  | .ok (.ok answer) => response.exitCode = 0 ∧ response.output = answer
  | .ok (.error _) => False
  | .error failure => failure.isTakenUp = true ∧ response.exitCode = 1 ∧ response.output = []

theorem Response.Tells.exitCode {response : Response}
    {result : Except Failure (Except Report.Error Text)} (tells : response.Tells result) :
    response.exitCode = 0 ∨ response.exitCode = 1 := by
  match result, tells with
  | .ok (.ok _), tells => exact .inl tells.1
  | .error _, tells => exact .inr tells.2.1

theorem process_tells {mayBlank : Prop} {deed : Deed} (sound : deed.IsSound mayBlank)
    (verbose : Bool) (subject : Subject) (vocabulary : Vocabulary) (entropy : Nat) :
    (process verbose subject deed vocabulary entropy).Tells
      (deed.result subject vocabulary entropy) := by
  have settles := settles_attempt sound (.ofVocabulary vocabulary) subject seededSupply
    ⟨.ofSeed entropy, #[.loaded vocabulary.size subject.path,
      builtNotice (.ofVocabulary vocabulary)]⟩
  change Settles _ _ (deed.result subject vocabulary entropy) at settles
  -- What is printed is told by the result alone, whatever is noted.
  obtain ⟨notices, told⟩ : ∃ notices, process verbose subject deed vocabulary entropy =
      conclude verbose notices (((deed.result subject vocabulary entropy).map printed).mapError
        fun failure => failure.message.toList) := by
    rw [Deed.result, ← fst_runOn_answer]
    exact ⟨_, rfl⟩
  rw [told]
  match deed.result subject vocabulary entropy, settles with
  | .error failure, takenUp => exact ⟨takenUp, rfl, rfl⟩
  | .ok _, ⟨answer, rfl⟩ => exact ⟨rfl, rfl⟩

/-- All that can come of a run about a vocabulary. -/
theorem respond_cases {arguments : List Text} {verbose : Bool} {subject : Subject} {deed : Deed}
    (accepted : Invocation.ofArguments arguments = .ok ⟨verbose, some (.process subject deed)⟩)
    (entry : Text → Entry) (entropy : Nat) :
    (∃ cause, (entry subject.path).load = .error cause ∧
      respond arguments entry entropy = .broken cause) ∨
    ((entry subject.path).load = .ok none ∧
      ∃ messages faults, respond arguments entry entropy = .ended ⟨1, [], messages, faults⟩) ∨
    ∃ vocabulary, (entry subject.path).load = .ok (some vocabulary) ∧
      respond arguments entry entropy =
        match deed.blank? subject.seed with
        | some blank => .baffled blank
        | none => .ended (process verbose subject deed vocabulary entropy) := by
  have obeyed : respond arguments entry entropy =
      obey verbose entry entropy (.process subject deed) := by
    rw [respond, accepted]
  rw [obeyed, obey]
  cases found : entry subject.path with
  | absent => exact .inr (.inl ⟨rfl, _, _, rfl⟩)
  | directory => exact .inl ⟨_, rfl, rfl⟩
  | beneathFile => exact .inl ⟨_, rfl, rfl⟩
  | nameTooLong => exact .inl ⟨_, rfl, rfl⟩
  | nullCharacter => exact .inl ⟨_, rfl, rfl⟩
  | file content =>
      simp only [Entry.load]
      cases Vocabulary.ofFile? content with
      | none => exact .inl ⟨_, rfl, rfl⟩
      | some read =>
          cases read with
          | rejected faults => exact .inr (.inl ⟨rfl, _, _, rfl⟩)
          | accepted vocabulary =>
              refine .inr (.inr ⟨vocabulary, rfl, ?_⟩)
              simp only [processFile]
              cases deed.blank? subject.seed <;> rfl

section

variable {arguments : List Text} {verbose : Bool} {subject : Subject} {deed : Deed}

theorem exists_ended_iff
    (accepted : Invocation.ofArguments arguments = .ok ⟨verbose, some (.process subject deed)⟩)
    (entry : Text → Entry) (entropy : Nat) :
    (∃ response, respond arguments entry entropy = .ended response) ↔
      ∃ loaded, (entry subject.path).load = .ok loaded ∧
        (loaded.isSome = true → deed.blank? subject.seed = none) := by
  rcases respond_cases accepted entry entropy with ⟨cause, loaded, broken⟩ |
    ⟨loaded, messages, faults, ended⟩ | ⟨vocabulary, loaded, ran⟩
  · rw [loaded, broken]
    exact ⟨nofun, nofun⟩
  · rw [loaded, ended]
    exact ⟨fun _ => ⟨none, rfl, nofun⟩, fun _ => ⟨_, rfl⟩⟩
  · rw [loaded, ran]
    cases deed.blank? subject.seed with
    | none => exact ⟨fun _ => ⟨_, rfl, fun _ => rfl⟩, fun _ => ⟨_, rfl⟩⟩
    | some blank =>
        refine ⟨nofun, ?_⟩
        rintro ⟨_, ⟨⟩, prepared⟩
        cases prepared rfl

theorem tells_of_ended
    (accepted : Invocation.ofArguments arguments = .ok ⟨verbose, some (.process subject deed)⟩)
    {mayBlank : Prop} (sound : deed.IsSound mayBlank) {entry : Text → Entry} {entropy : Nat}
    {response : Response} (endedAs : respond arguments entry entropy = .ended response) :
    (response.exitCode = 0 ∨ response.exitCode = 1) ∧
      ((entry subject.path).load = .ok none → response.exitCode = 1) ∧
      ∀ vocabulary, (entry subject.path).load = .ok (some vocabulary) →
        response.Tells (deed.result subject vocabulary entropy) := by
  rcases respond_cases accepted entry entropy with ⟨cause, loaded, broken⟩ |
    ⟨loaded, messages, faults, ended⟩ | ⟨vocabulary, loaded, ran⟩
  · rw [broken] at endedAs
    cases endedAs
  · rw [ended] at endedAs
    cases endedAs
    rw [loaded]
    exact ⟨.inr rfl, fun _ => rfl, nofun⟩
  · rw [ran] at endedAs
    split at endedAs
    · cases endedAs
    · cases endedAs
      have tells := process_tells sound verbose subject vocabulary entropy
      rw [loaded]
      refine ⟨tells.exitCode, nofun, ?_⟩
      rintro _ ⟨⟩
      exact tells

end

/-- A run about a vocabulary ends exactly if the program is prepared for what it finds at the path and, if
that is a vocabulary, for the blanks; blanks come of arguments only that can leave a value blank. A run
that ends has one of two exit codes: the first tells that there is an answer, and the second that
there is no vocabulary, or why there is no answer. -/
theorem respond_ends_iff {arguments : List Text} {verbose : Bool} {subject : Subject} {deed : Deed}
    (accepted : Invocation.ofArguments arguments = .ok ⟨verbose, some (.process subject deed)⟩)
    (entry : Text → Entry) (entropy : Nat) :
    ((∃ response, respond arguments entry entropy = .ended response) ↔
      ∃ loaded, (entry subject.path).load = .ok loaded ∧
        (loaded.isSome = true → deed.blank? subject.seed = none)) ∧
    (∀ response, respond arguments entry entropy = .ended response →
      (response.exitCode = 0 ∨ response.exitCode = 1) ∧
      ((entry subject.path).load = .ok none → response.exitCode = 1) ∧
      ∀ vocabulary, (entry subject.path).load = .ok (some vocabulary) →
        response.Tells (deed.result subject vocabulary entropy)) ∧
    (∀ blank, deed.blank? subject.seed = some blank →
      ∃ argument ∈ arguments, LeavesBlank argument) := by
  obtain ⟨subjectSound, deedSound⟩ := isSound_of_accepted accepted
  exact ⟨exists_ended_iff accepted entry entropy,
    fun _ endedAs => tells_of_ended accepted deedSound endedAs,
    fun _ left => mayBlank_of_blank subjectSound deedSound left⟩

/-- There is a directory of files, but not the file that is asked for. -/
theorem respond_ends_of_missing_file :
    let arguments := ["stats".toList, "--json".toList, "other.json".toList, "a".toList]
    let entry := FileSet.entry [("v.json".toList, ⟨#[]⟩)]
    Invocation.ofArguments arguments =
        .ok ⟨false, some (.process ⟨"other.json".toList, "a".toList, none, true⟩ .statistics)⟩ ∧
      ∃ response, respond arguments entry 0 = .ended response ∧ response.exitCode = 1 := by
  have accepted : Invocation.ofArguments
      ["stats".toList, "--json".toList, "other.json".toList, "a".toList] =
        .ok ⟨false, some (.process ⟨"other.json".toList, "a".toList, none, true⟩ .statistics)⟩ := by
    cbv
  intro arguments entry
  have missing : (entry "other.json".toList).load = .ok none := rfl
  obtain ⟨ends, tells, -⟩ := respond_ends_iff accepted entry 0
  obtain ⟨response, ended⟩ := ends.mpr ⟨none, missing, fun loaded => by cases loaded⟩
  exact ⟨accepted, response, ended, (tells response ended).2.1 missing⟩

/-- The program breaks off at a directory, at a file whose bytes are no text, and where the seed is left
blank. -/
theorem respond_breaks_off :
    respond ["stats".toList, ".".toList, "a".toList]
        (FileSet.entry [("v.json".toList, ⟨#[0xff]⟩)]) 0 = .broken .directory ∧
      respond ["stats".toList, "v.json".toList, "a".toList]
        (FileSet.entry [("v.json".toList, ⟨#[0xff]⟩)]) 0 = .broken .notText ∧
      respond ["stats".toList, "v.json".toList, "a".toList, "--seed=--".toList]
        (FileSet.entry [("v.json".toList, "\x7b\"tokens\": [\"a\"]\x7d".toUTF8)]) 0 =
          .baffled .sign := by
  refine ⟨by cbv, by cbv, ?_⟩
  have accepted : Invocation.ofArguments
      ["stats".toList, "v.json".toList, "a".toList, "--seed=--".toList] =
        .ok ⟨false, some (.process ⟨"v.json".toList, "a".toList, some none, false⟩ .statistics)⟩ := by
    cbv
  rw [respond, accepted]
  decide +kernel

end Tessera.CommandLine
