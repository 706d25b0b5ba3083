import Mathlib.Data.List.Infix
import Tessera.CommandLine.Reader
import Tessera.Proofs.Computation

/-!
# What reading a command line keeps

A property of settings that every switch and every operand of a form keeps holds of what the form
reads. Switches may rely on a value, unless some argument can leave one blank.
-/

set_option autoImplicit false

namespace Tessera.CommandLine

open Tessera.Computation

variable {α : Type}

/-- An argument can leave a value blank if it has a pair of hyphens at its end, and something before. -/
def LeavesBlank (argument : Text) : Prop := ['-', '-'] <:+ argument ∧ argument ≠ ['-', '-']

instance (argument : Text) : Decidable (LeavesBlank argument) :=
  inferInstanceAs (Decidable (_ ∧ _))

/-! ## What is kept -/

section

variable (mayBlank : Prop) (Fits : α → Prop)

/-- Whether a reading has a property, if it succeeds. -/
def Reads (result : Except Stop (Reading α)) : Prop :=
  Settles (fun reading => Fits reading.settings) (fun _ => True) result

/-- Whether an effect keeps a property of settings. No value stands for one that is left blank. -/
def Effect.Keeps : Effect α → Prop
  | .help => True
  | .flag set => ∀ settings, Fits settings → Fits (set settings)
  | .value set => ∀ value settings, (value = none → mayBlank) → Fits settings →
      Settles Fits (fun _ => True) (set value settings)

/-- Whether an operand keeps a property of settings. What a command reads depends on its arguments. -/
def Operand.Keeps : Operand α → Prop
  | .word _ _ set => ∀ word settings, Fits settings → Fits (set word settings)
  | .command _ commands => ∀ entry ∈ commands, ∀ arguments settings,
      (∀ argument ∈ arguments, LeavesBlank argument → mayBlank) → Fits settings →
        Reads Fits (entry.2 arguments settings)

structure Form.Keeps (form : Form α) : Prop where
  switches : ∀ switch ∈ form.switches, switch.effect.Keeps mayBlank Fits
  operands : ∀ operand ∈ form.operands, operand.Keeps mayBlank Fits

def Step.Keeps (step : Step α) : Prop :=
  ∀ (form : Form α) (reading : Reading α), Fits reading.settings →
    Reads Fits (form.perform reading step)

structure Demand.Keeps (demand : Demand α) : Prop where
  steps : ∀ step ∈ demand.steps, step.Keeps Fits
  pending : ∀ setter, demand.pending = some setter →
    ∀ word, (Step.assign setter (some word)).Keeps Fits

end

variable {mayBlank : Prop} {Fits : α → Prop} {form : Form α}

/-! ## Steps -/

theorem keeps_change {set : α → α} (keeps : ∀ settings, Fits settings → Fits (set settings)) :
    (Step.change set).Keeps Fits :=
  fun _ reading fits => keeps reading.settings fits

theorem keeps_assign {set : Option Text → α → Except Cause α} {value : Option Text}
    (keeps : ∀ settings, Fits settings → Settles Fits (fun _ => True) (set value settings))
    (name : Text) : (Step.assign (name, set) value).Keeps Fits := by
  intro form reading fits
  have kept := keeps reading.settings fits
  simp only [Form.perform]
  cases changed : set value reading.settings with
  | error cause => trivial
  | ok settings =>
      rw [changed] at kept
      exact kept

theorem keeps_surplus (argument : Text) : (Step.surplus argument : Step α).Keeps Fits :=
  fun _ _ fits => fits

theorem reads_performAll {steps : List (Step α)} (keeps : ∀ step ∈ steps, step.Keeps Fits)
    {reading : Reading α} (fits : Fits reading.settings) :
    Reads Fits (form.performAll reading steps) :=
  Settles.foldlM (fun step listed between fits => keeps step listed form between fits) fits

/-! ## Demands -/

theorem keeps_plainDemand {switch : Switch α} (keeps : switch.effect.Keeps mayBlank Fits) :
    switch.plainDemand.Keeps Fits := by
  obtain ⟨letter, word, effect, purpose⟩ := switch
  cases effect with
  | help => exact ⟨by simp [Switch.plainDemand, Step.Keeps, Form.perform, Reads, Settles], nofun⟩
  | flag set =>
      refine ⟨fun step listed => ?_, nofun⟩
      cases List.mem_singleton.mp listed
      exact keeps_change keeps
  | value set =>
      refine ⟨nofun, fun setter pending word => ?_⟩
      cases pending
      exact keeps_assign (fun settings fits => keeps (some word) settings nofun fits) _

theorem settles_demandWith {switch : Switch α} (keeps : switch.effect.Keeps mayBlank Fits)
    {value : Text} (given : ['-', '-'] <:+ value → mayBlank) :
    Settles (Demand.Keeps Fits) (fun _ => True) (switch.demandWith value) := by
  obtain ⟨letter, word, effect, purpose⟩ := switch
  cases effect with
  | help => trivial
  | flag set => trivial
  | value set =>
      have blank : Switch.joinedValue value = none → mayBlank := by
        unfold Switch.joinedValue
        split
        · next hyphens => exact fun _ => given (hyphens ▸ List.suffix_rfl)
        · exact nofun
      refine ⟨fun step listed => ?_, nofun⟩
      cases List.mem_singleton.mp listed
      exact keeps_assign (fun settings fits => keeps _ settings blank fits) _

theorem settles_demandOfLetters (keeps : form.Keeps mayBlank Fits) {switch : Switch α}
    (listed : switch ∈ form.switches) {value : Text} (given : ['-', '-'] <:+ value → mayBlank) :
    Settles (Demand.Keeps Fits) (fun _ => True) (form.demandOfLetters switch value) := by
  induction value generalizing switch with
  | nil => exact keeps_plainDemand (keeps.switches switch listed)
  | cons c rest ih =>
      have joined := settles_demandWith (keeps.switches switch listed) given
      rw [Form.demandOfLetters]
      split
      · exact joined
      · exact joined
      · next next found _ =>
        have nextListed : next ∈ form.switches := List.mem_of_find?_eq_some found
        refine (ih nextListed fun ends => given (ends.trans (List.suffix_cons c rest))).bind
          fun others kept => ?_
        have plain := keeps_plainDemand (keeps.switches switch listed)
        refine ⟨fun step either => ?_, kept.pending⟩
        rcases List.mem_append.mp either with first | later
        · exact plain.steps step first
        · exact kept.steps step later

theorem settles_demand (keeps : form.Keeps mayBlank Fits) {switch : Switch α}
    (listed : switch ∈ form.switches) (byLetter : Bool) {joined : Option Text}
    (given : ∀ value, joined = some value → ['-', '-'] <:+ value → mayBlank) :
    Settles (Demand.Keeps Fits) (fun _ => True) (form.demand switch byLetter joined) := by
  cases joined with
  | none => exact keeps_plainDemand (keeps.switches switch listed)
  | some value =>
      rw [Form.demand]
      split
      · exact settles_demandOfLetters keeps listed (given value rfl)
      · exact settles_demandWith (keeps.switches switch listed) (given value rfl)

/-! ## Roles -/

/-- What is known of the role of an argument: a switch is one of the form, and what is joined to it ends
as the argument does. -/
def Role.IsOf (form : Form α) (argument : Text) : Role α → Prop
  | .switch spelled _ joined => spelled ∈ form.switches ∧
      ∀ value, joined = some value → ['-', '-'] <:+ value → LeavesBlank argument
  | _ => True

theorem leavesBlank_of_joined {value tail : Text} (inside : value <:+ tail) (c : Char)
    (ends : ['-', '-'] <:+ value) : LeavesBlank ('-' :: c :: tail) := by
  refine ⟨(ends.trans inside).trans ((List.suffix_cons c tail).trans (List.suffix_cons '-' _)), ?_⟩
  rintro same
  cases same
  exact absurd (ends.trans inside).length_le (by decide)

theorem suffix_of_joinedBy {rest value : Text} (joined : Form.joinedBy rest = some value) :
    value <:+ rest := by
  unfold Form.joinedBy at joined
  split at joined
  · cases joined
    exact List.suffix_cons _ _
  · cases joined

theorem suffix_of_joinedToLetter {tail value : Text}
    (joined : Form.joinedToLetter tail = some value) : value <:+ tail := by
  unfold Form.joinedToLetter at joined
  split at joined
  · cases joined
  · cases joined
    exact List.suffix_cons _ _
  · cases joined
    exact List.suffix_rfl

theorem isOf_strangerRole (argument : Text) :
    (strangerRole argument : Role α).IsOf form argument := by
  unfold strangerRole
  split <;> trivial

theorem settles_roleOf (form : Form α) (argument : Text) :
    Settles (Role.IsOf form argument) (fun _ => True) (form.roleOf argument) := by
  unfold Form.roleOf
  split
  · next spelled =>
    have blank (value : Text)
        (joined : Form.joinedBy (spelled.dropWhile (· ≠ '=')) = some value) :
        ['-', '-'] <:+ value → LeavesBlank ('-' :: '-' :: spelled) :=
      leavesBlank_of_joined ((suffix_of_joinedBy joined).trans (List.dropWhile_suffix _)) '-'
    dsimp only
    split
    · next switch _ found => exact ⟨List.mem_of_find?_eq_some found, blank⟩
    · exact isOf_strangerRole _
    · next switch _ only =>
      have listed : switch ∈ form.abbreviatedBy (spelled.takeWhile (· ≠ '=')) :=
        only ▸ List.mem_singleton_self switch
      exact ⟨(List.mem_filter.mp listed).1, blank⟩
    · trivial
  · next letter tail _ =>
    split
    · next switch found =>
      exact ⟨List.mem_of_find?_eq_some found,
        fun value joined => leavesBlank_of_joined (suffix_of_joinedToLetter joined) letter⟩
    · exact isOf_strangerRole _
  · trivial

/-- Roles are given to all arguments in turn. -/
theorem settles_roles (form : Form α) (arguments : List Text) :
    Settles (fun roles => roles.map Prod.fst = arguments ∧
      ∀ entry ∈ roles, entry.2.IsOf form entry.1) (fun _ => True) (form.roles arguments) := by
  induction arguments with
  | nil => exact ⟨rfl, nofun⟩
  | cons argument rest ih =>
      rw [Form.roles]
      split
      · refine ⟨by simp [Function.comp_def], fun entry listed => ?_⟩
        rcases List.mem_cons.mp listed with rfl | listed
        · trivial
        · obtain ⟨word, -, rfl⟩ := List.mem_map.mp listed
          trivial
      · refine (settles_roleOf form argument).bind fun role ofForm => ?_
        refine ih.bind fun roles ⟨same, allOfForm⟩ => ⟨by simp [same], fun entry listed => ?_⟩
        rcases List.mem_cons.mp listed with rfl | listed
        · exact ofForm
        · exact allOfForm entry listed

/-! ## Readings -/

theorem reads_finish {missing : List (Operand α)} {reading : Reading α}
    (fits : Fits reading.settings) : Reads Fits (form.finish missing reading) := by
  unfold Form.finish
  split
  · exact fits
  · trivial

theorem reads_enter {name : Text}
    {commands : List (Text × (List Text → α → Except Stop (Reading α)))}
    (keeps : (Operand.command name commands).Keeps mayBlank Fits) {arguments : List Text}
    (blanks : ∀ argument ∈ arguments, LeavesBlank argument → mayBlank) {reading : Reading α}
    (fits : Fits reading.settings) (command : Text) :
    Reads Fits (form.enter name commands reading command arguments) := by
  unfold Form.enter
  split
  · trivial
  · next read found =>
    have listed : (command, read) ∈ commands := by
      obtain ⟨before, after, rfl, -⟩ := List.lookup_eq_some_iff.mp found
      exact List.mem_append_right _ List.mem_cons_self
    exact (keeps _ listed arguments reading.settings blanks fits).bind fun inner kept => kept

/-- What the arguments that are still to be read have to be like. -/
def Fitting (mayBlank : Prop) (form : Form α) (entry : Text × Role α) : Prop :=
  entry.2.IsOf form entry.1 ∧ (LeavesBlank entry.1 → mayBlank)

theorem blanks_of_fitting {roles : List (Text × Role α)}
    (fitting : ∀ entry ∈ roles, Fitting mayBlank form entry) :
    ∀ argument ∈ roles.map Prod.fst, LeavesBlank argument → mayBlank := by
  intro argument listed
  obtain ⟨entry, entryListed, rfl⟩ := List.mem_map.mp listed
  exact (fitting entry entryListed).2

theorem settles_demand_of_fitting (keeps : form.Keeps mayBlank Fits) {argument : Text}
    {switch : Switch α} {byLetter : Bool} {joined : Option Text}
    (fitting : Fitting mayBlank form (argument, .switch switch byLetter joined)) :
    Settles (Demand.Keeps Fits) (fun _ => True) (form.demand switch byLetter joined) :=
  settles_demand keeps fitting.1.1 byLetter fun value given ends =>
    fitting.2 (fitting.1.2 value given ends)

theorem reads_readRoles (keeps : form.Keeps mayBlank Fits) (operands : List (Operand α))
    (reading : Reading α) (roles : List (Text × Role α))
    (operandsKeep : ∀ operand ∈ operands, operand.Keeps mayBlank Fits)
    (fitting : ∀ entry ∈ roles, Fitting mayBlank form entry) (fits : Fits reading.settings) :
    Reads Fits (form.readRoles operands reading roles) := by
  fun_induction form.readRoles operands reading roles with
  -- No argument is left.
  | case1 operands reading => exact reads_finish fits
  -- Arguments that nothing is found for.
  | case2 operands reading argument rest ih =>
      exact (keeps_surplus argument form reading fits).bind fun between kept =>
        ih between operandsKeep (List.forall_mem_cons.mp fitting).2 kept
  | case7 reading argument rest ih =>
      exact (keeps_surplus argument form reading fits).bind fun between kept =>
        ih between operandsKeep (List.forall_mem_cons.mp fitting).2 kept
  | case13 reading argument operands rest _ _ ih =>
      exact (keeps_surplus argument form reading fits).bind fun between kept =>
        ih between operandsKeep (List.forall_mem_cons.mp fitting).2 kept
  -- Switches: refused, complete, and with a value to come.
  | case3 => trivial
  | case4 operands reading argument switch byLetter joined rest steps demanded ih =>
      obtain ⟨first, others⟩ := List.forall_mem_cons.mp fitting
      have demandKeeps := settles_demand_of_fitting keeps first
      rw [demanded] at demandKeeps
      exact (reads_performAll demandKeeps.steps fits).bind fun between kept =>
        ih between operandsKeep others kept
  | case5 operands reading argument switch byLetter joined steps setter demanded value rest ih =>
      obtain ⟨first, others⟩ := List.forall_mem_cons.mp fitting
      have demandKeeps := settles_demand_of_fitting keeps first
      rw [demanded] at demandKeeps
      have stepsKeep : ∀ step ∈ steps ++ [.assign setter (some value)], step.Keeps Fits :=
        List.forall_mem_append.mpr ⟨demandKeeps.steps,
          List.forall_mem_singleton.mpr (demandKeeps.pending setter rfl value)⟩
      exact (reads_performAll stepsKeep fits).bind fun between kept =>
        ih between operandsKeep (List.forall_mem_cons.mp others).2 kept
  | case6 => trivial
  -- Words, of which some have a separator next to them.
  | case8 reading argument name purpose set operands changed separator rest ih =>
      obtain ⟨keepsWord, othersKeep⟩ := List.forall_mem_cons.mp operandsKeep
      obtain ⟨-, others⟩ := List.forall_mem_cons.mp fitting
      exact ih othersKeep (List.forall_mem_cons.mp others).2 (keepsWord argument _ fits)
  | case9 reading argument rest name purpose set operands changed _ ih =>
      obtain ⟨keepsWord, othersKeep⟩ := List.forall_mem_cons.mp operandsKeep
      exact ih othersKeep (List.forall_mem_cons.mp fitting).2 (keepsWord argument _ fits)
  | case11 reading argument name purpose set operands word rest ih =>
      obtain ⟨keepsWord, othersKeep⟩ := List.forall_mem_cons.mp operandsKeep
      obtain ⟨-, others⟩ := List.forall_mem_cons.mp fitting
      exact ih othersKeep (List.forall_mem_cons.mp others).2 (keepsWord word _ fits)
  -- Commands, which read all that follows.
  | case10 reading argument rest name commands operands =>
      obtain ⟨keepsCommand, -⟩ := List.forall_mem_cons.mp operandsKeep
      have blanks := blanks_of_fitting (List.forall_mem_cons.mp fitting).2
      exact (reads_enter keepsCommand blanks fits argument).bind fun _ kept => reads_finish kept
  | case12 reading argument name commands operands head tail =>
      obtain ⟨keepsCommand, -⟩ := List.forall_mem_cons.mp operandsKeep
      have blanks := blanks_of_fitting (List.forall_mem_cons.mp fitting).2
      exact (reads_enter keepsCommand blanks fits argument).bind fun _ kept => reads_finish kept

/-- What all switches and operands of a form keep holds of what the form reads. -/
theorem reads_readKnown (keeps : form.Keeps mayBlank Fits) {arguments : List Text}
    (blanks : ∀ argument ∈ arguments, LeavesBlank argument → mayBlank) {settings : α}
    (fits : Fits settings) : Reads Fits (form.readKnown arguments settings) := by
  have told := settles_roles form arguments
  unfold Form.readKnown
  split
  · trivial
  · next roles given =>
    rw [given] at told
    obtain ⟨rfl, ofForm⟩ := told
    have fitting : ∀ entry ∈ roles, Fitting mayBlank form entry := fun entry listed =>
      ⟨ofForm entry listed, blanks _ (List.mem_map_of_mem listed)⟩
    exact reads_readRoles keeps form.operands ⟨settings, []⟩ roles keeps.operands fitting fits

theorem settles_read (keeps : form.Keeps mayBlank Fits) {arguments : List Text}
    (blanks : ∀ argument ∈ arguments, LeavesBlank argument → mayBlank) {settings : α}
    (fits : Fits settings) : Settles Fits (fun _ => True) (form.read arguments settings) := by
  refine (reads_readKnown keeps blanks fits).bind fun reading kept => ?_
  split
  · exact kept
  · trivial

end Tessera.CommandLine
