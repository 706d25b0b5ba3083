import Tessera.CommandLine.Program
import Tessera.Proofs.CommandLine.Readings

/-!
# Commands that are read

Of what the program reads, nothing is blank unless an argument can leave a value blank. An ideal length is
always one that tokens can be compared with.
-/

set_option autoImplicit false

namespace Tessera.CommandLine

open Tessera.Computation

/-! ## Sound settings -/

section

variable (mayBlank : Prop)

structure Drawing.IsSound (drawing : Drawing) : Prop where
  strategy : drawing.strategy = none → mayBlank
  idealLength : drawing.idealLength = none → mayBlank
  draws : drawing.draws = none → mayBlank
  inRange : ∀ length, drawing.idealLength = some length → length.inRange = true

def Pressure.IsSound : Pressure → Prop
  | .full => True
  | .factor share => share = none → mayBlank
  | .gradient pull => pull = none → mayBlank

def Deed.IsSound : Deed → Prop
  | .tokenize drawing => drawing.IsSound mayBlank
  | .compress pressure => pressure.IsSound mayBlank
  | .compare | .statistics => True

def Subject.IsSound (subject : Subject) : Prop := subject.seed = some none → mayBlank

/-- Whether a subject is sound, and what is to be done with it. -/
def AreSound {α : Type} (IsSound : α → Prop) (settings : Subject × α) : Prop :=
  settings.1.IsSound mayBlank ∧ IsSound settings.2

def Command.IsSound : Command → Prop
  | .process subject deed => subject.IsSound mayBlank ∧ deed.IsSound mayBlank
  | .grammar _ => True

def Invocation.IsSound (invocation : Invocation) : Prop :=
  ∀ command, invocation.command = some command → command.IsSound mayBlank

end

variable {mayBlank : Prop}

/-! ## Forms -/

section

variable {α β : Type} {Fits : α → Prop}

/-- Reading leaves a value blank only if there is none to read. -/
theorem settles_mapM (read : Text → Except Cause β) (value : Option Text) :
    Settles (fun given => given = none → value = none) (fun _ => True) (value.mapM read) := by
  cases value with
  | none => exact fun _ => rfl
  | some word =>
      rw [Option.mapM_some]
      cases read word with
      | error cause => trivial
      | ok given => exact nofun

theorem keeps_valueSwitch {set : Option β → α → α}
    (keeps : ∀ value settings, (value = none → mayBlank) → Fits settings →
      Fits (set value settings)) (word purpose : String) (read : Text → Except Cause β) :
    (valueSwitch word purpose read set).effect.Keeps mayBlank Fits := by
  intro value settings blank fits
  exact (settles_mapM read value).bind fun given told =>
    keeps given settings (fun absent => blank (told absent)) fits

/-- The form of a command about a subject keeps it sound if the switches of its own do. -/
theorem keeps_subjectForm {IsSound : α → Prop} {switches : List (Switch (Subject × α))}
    (keeps : ∀ switch ∈ switches, switch.effect.Keeps mayBlank (AreSound mayBlank IsSound))
    (command purpose : String) :
    (subjectForm command purpose switches).Keeps mayBlank (AreSound mayBlank IsSound) where
  switches := by
    refine List.forall_mem_append.mpr ⟨?_, keeps⟩
    simp only [List.forall_mem_cons]
    refine ⟨trivial, keeps_valueSwitch ?_ _ _ _, ?_, nofun⟩
    · rintro seed ⟨subject, rest⟩ blank ⟨_, restSound⟩
      exact ⟨fun same => blank (Option.some.inj same), restSound⟩
    · rintro ⟨subject, rest⟩ sound
      exact sound
  operands := by
    simp only [subjectForm, List.forall_mem_cons]
    refine ⟨?_, ?_, nofun⟩
    · rintro path ⟨subject, rest⟩ sound
      exact sound
    · rintro text ⟨subject, rest⟩ sound
      exact sound

end

theorem keeps_tokenizeForm :
    tokenizeForm.Keeps mayBlank (AreSound mayBlank (Drawing.IsSound mayBlank)) := by
  refine keeps_subjectForm ?_ _ _
  simp only [List.forall_mem_cons]
  refine ⟨keeps_valueSwitch ?_ _ _ _, keeps_valueSwitch ?_ _ _ _, keeps_valueSwitch ?_ _ _ _,
    ?_, ?_, ?_, ?_, nofun⟩
  · rintro strategy ⟨subject, drawing⟩ blank ⟨subjectSound, sound⟩
    exact ⟨subjectSound, { sound with strategy := blank }⟩
  · rintro length ⟨subject, drawing⟩ blank ⟨subjectSound, sound⟩
    refine ⟨subjectSound, { sound with idealLength := ?_, inRange := ?_ }⟩
    · exact fun absent => blank (Option.map_eq_none_iff.mp absent)
    · intro number given
      obtain ⟨real, -, rfl⟩ := Option.map_eq_some_iff.mp given
      rfl
  · rintro draws ⟨subject, drawing⟩ blank ⟨subjectSound, sound⟩
    exact ⟨subjectSound, { sound with draws := blank }⟩
  all_goals
    rintro ⟨subject, drawing⟩ ⟨subjectSound, sound⟩
    exact ⟨subjectSound, ⟨sound.strategy, sound.idealLength, sound.draws, sound.inRange⟩⟩

theorem keeps_compressForm :
    compressForm.Keeps mayBlank (AreSound mayBlank (Pressure.IsSound mayBlank)) := by
  refine keeps_subjectForm ?_ _ _
  simp only [List.forall_mem_cons]
  refine ⟨?_, ?_, nofun⟩
  · rintro value ⟨subject, pressure⟩ blank ⟨subjectSound, -⟩
    refine (settles_mapM realOf value).bind fun share told => ?_
    cases pressure with
    | gradient pull => trivial
    | full => exact ⟨subjectSound, fun absent => blank (told absent)⟩
    | factor other => exact ⟨subjectSound, fun absent => blank (told absent)⟩
  · rintro value ⟨subject, pressure⟩ blank ⟨subjectSound, -⟩
    refine (settles_mapM realOf value).bind fun pull told => ?_
    cases pressure with
    | factor share => trivial
    | full => exact ⟨subjectSound, fun absent => blank (told absent)⟩
    | gradient other => exact ⟨subjectSound, fun absent => blank (told absent)⟩

/-- Nothing is known of what is to be done if there is nothing to say about it. -/
abbrev Unsaid : Unit → Prop := fun _ => True

theorem keeps_compareForm : compareForm.Keeps mayBlank (AreSound mayBlank Unsaid) :=
  keeps_subjectForm (List.forall_mem_nil _) _ _

theorem keeps_statisticsForm : statisticsForm.Keeps mayBlank (AreSound mayBlank Unsaid) :=
  keeps_subjectForm (List.forall_mem_nil _) _ _

theorem keeps_grammarForm : grammarForm.Keeps mayBlank fun _ => True := by
  refine ⟨?_, nofun⟩
  simp only [grammarForm, List.forall_mem_cons]
  exact ⟨trivial, keeps_valueSwitch (fun _ _ _ _ => trivial) _ _ _, fun _ _ => trivial, nofun⟩

/-! ## Commands -/

/-- A command is read as its form is read. -/
theorem reads_commandEntry {α : Type} {Fits : α → Prop} {form : Form α} {start : α}
    {command : α → Command} (keeps : form.Keeps mayBlank Fits) (startFits : Fits start)
    (sound : ∀ settings, Fits settings → (command settings).IsSound mayBlank) (name : String)
    {arguments : List Text} (blanks : ∀ argument ∈ arguments, LeavesBlank argument → mayBlank)
    (invocation : Invocation) :
    Reads (Invocation.IsSound mayBlank)
      ((commandEntry name form start command).2 arguments invocation) := by
  refine (reads_readKnown keeps blanks startFits).bind fun inner fits => ?_
  rintro _ ⟨⟩
  exact sound inner.settings fits

theorem isSound_blankSubject : blankSubject.IsSound mayBlank := nofun

theorem isSound_full : Pressure.full.IsSound mayBlank := trivial

theorem isSound_plainDrawing : plainDrawing.IsSound mayBlank where
  strategy := nofun
  idealLength := nofun
  draws := nofun
  inRange := by
    rintro _ ⟨⟩
    decide

theorem keeps_programForm : programForm.Keeps mayBlank (Invocation.IsSound mayBlank) where
  switches := by
    simp only [programForm, List.forall_mem_cons]
    exact ⟨trivial, fun invocation sound => sound, nofun⟩
  operands := by
    simp only [programForm, List.forall_mem_singleton, Operand.Keeps, commandEntries,
      List.forall_mem_cons]
    refine ⟨?_, ?_, ?_, ?_, ?_⟩ <;> intro arguments invocation blanks _
    · refine reads_commandEntry keeps_tokenizeForm ⟨isSound_blankSubject, isSound_plainDrawing⟩
        ?_ _ blanks invocation
      exact fun _ sound => sound
    · refine reads_commandEntry keeps_compressForm ⟨isSound_blankSubject, isSound_full⟩
        ?_ _ blanks invocation
      exact fun _ sound => sound
    · refine reads_commandEntry keeps_compareForm ⟨isSound_blankSubject, trivial⟩
        ?_ _ blanks invocation
      exact fun _ sound => sound
    · refine reads_commandEntry keeps_statisticsForm ⟨isSound_blankSubject, trivial⟩
        ?_ _ blanks invocation
      exact fun _ sound => sound
    · refine reads_commandEntry keeps_grammarForm trivial ?_ _ blanks invocation
      exact fun _ sound => sound

/-- What the program reads is sound; it may be blank if an argument can leave a value blank. -/
theorem isSound_of_accepted {arguments : List Text} {verbose : Bool} {subject : Subject}
    {deed : Deed}
    (accepted : Invocation.ofArguments arguments = .ok ⟨verbose, some (.process subject deed)⟩) :
    subject.IsSound (∃ argument ∈ arguments, LeavesBlank argument) ∧
      deed.IsSound (∃ argument ∈ arguments, LeavesBlank argument) := by
  have blanks (argument : Text) (listed : argument ∈ arguments) (leaves : LeavesBlank argument) :
      ∃ argument ∈ arguments, LeavesBlank argument := ⟨argument, listed, leaves⟩
  have startSound : Invocation.IsSound (∃ argument ∈ arguments, LeavesBlank argument)
      ⟨false, none⟩ := by
    rintro _ ⟨⟩
  have told := settles_read keeps_programForm blanks startSound
  change Settles _ _ (Invocation.ofArguments arguments) at told
  rw [accepted] at told
  exact told (.process subject deed) rfl

/-! ## Blanks -/

/-- A sound command that cannot be carried out because of a blank has been given one. -/
theorem mayBlank_of_blank {subject : Subject} {deed : Deed} (subjectSound : subject.IsSound mayBlank)
    (deedSound : deed.IsSound mayBlank) {blank : Blank}
    (left : deed.blank? subject.seed = some blank) : mayBlank := by
  cases deed with
  | tokenize drawing =>
      simp only [Deed.blank?, Drawing.blank?] at left
      split at left
      · cases left
      · next absent => exact deedSound.idealLength absent
      · split at left
        · cases left
        · split at left
          · next absent => exact deedSound.draws absent
          · split at left
            · next both => exact subjectSound both.1
            · cases left
  | compress pressure =>
      simp only [Deed.blank?, Pressure.blank?] at left
      split at left
      · exact deedSound rfl
      · exact deedSound rfl
      · cases left
      · split at left
        · next all => exact subjectSound all.1
        · cases left
      · split at left
        · next seed => exact subjectSound seed
        · cases left
  | compare | statistics =>
      simp only [Deed.blank?] at left
      split at left
      · next seed => exact subjectSound seed
      · cases left

end Tessera.CommandLine
