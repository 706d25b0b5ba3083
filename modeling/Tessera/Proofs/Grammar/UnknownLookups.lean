import Mathlib
import Tessera.Proofs.Grammar.History
import Tessera.Proofs.Grammar.LookupFailures
import Tessera.Proofs.Grammar.ReferringBodies

/-!
# Lookups of unknown names

One builder looks up a name that the grammar lacks, and nothing else is wrong. With references the
compilation fails as this lookup does. Inline it fails on the way there from the first rule that leads to
the builder, and every lookup by member name on that way makes the failure one of its own.
-/

set_option autoImplicit false

namespace Tessera.Grammar

open Tessera.Computation

/-! ## Reports -/

namespace Access

theorem message_report (access : Access) (cause : Error) :
    (access.report cause).message = cause.message := by
  cases access <;> cases cause with
  | unknownRule made missing defined => cases made <;> rfl
  | _ => rfl

/-- How an error is reported after it has come back through some lookups, the outermost first. -/
def reportAll (route : List Access) (cause : Error) : Error := route.foldr report cause

theorem message_reportAll (route : List Access) (cause : Error) :
    (reportAll route cause).message = cause.message := by
  induction route with
  | nil => rfl
  | cons access rest ih => exact (message_report access _).trans ih

theorem reportAll_of_report_eq {cause : Error} (kept : Access.attribute.report cause = cause)
    (route : List Access) : reportAll route cause = cause := by
  induction route with
  | nil => rfl
  | cons access rest ih =>
      change access.report (reportAll rest cause) = cause
      rw [ih]
      cases access with
      | subscript => rfl
      | «attribute» => exact kept

theorem reportAll_unknownRule (route : List Access) (missing : Name) (defined : List Name) :
    reportAll route (.unknownRule .subscript missing defined) =
      .unknownRule (if .attribute ∈ route then .attribute else .subscript) missing defined := by
  induction route with
  | nil => rfl
  | cons access rest ih =>
      change access.report (reportAll rest _) = _
      rw [ih]
      cases access with
      | subscript => simp [report]
      | «attribute» => by_cases earlier : Access.attribute ∈ rest <;> simp [report, earlier]

end Access

/-! ## Lists and tables -/

/-- Whether an entry is the first one of a list with a property. -/
def IsFirst {α : Type} (holds : α → Prop) (values : List α) (first : α) : Prop :=
  ∃ front back, values = front ++ first :: back ∧ holds first ∧ ∀ earlier ∈ front, ¬ holds earlier

theorem IsFirst.unique {α : Type} {holds : α → Prop} {values : List α} {first other : α}
    (one : IsFirst holds values first) (another : IsFirst holds values other) : first = other := by
  classical
  have found (value : α) (isFirst : IsFirst holds values value) :
      values.find? (fun candidate => decide (holds candidate)) = some value := by
    obtain ⟨front, back, split, here, noneBefore⟩ := isFirst
    apply List.find?_eq_some_iff_append.mpr
    exact ⟨decide_eq_true here, front, back, split, by simpa using noneBefore⟩
  exact Option.some.inj ((found first one).symm.trans (found other another))

theorem exists_isFirst {α : Type} (holds : α → Prop) {values : List α} {value : α}
    (listed : value ∈ values) (held : holds value) : ∃ first, IsFirst holds values first := by
  classical
  obtain ⟨first, found⟩ := Option.isSome_iff_exists.mp
    (List.find?_isSome (p := fun candidate => decide (holds candidate)) |>.mpr
      ⟨value, listed, decide_eq_true held⟩)
  obtain ⟨here, front, back, split, noneBefore⟩ := List.find?_eq_some_iff_append.mp found
  exact ⟨first, front, back, split, of_decide_eq_true here, by simpa using noneBefore⟩

theorem flatMap_eq_singleton {α β : Type} {values : List α} {f : α → List β} {only : β}
    (lone : values.flatMap f = [only]) :
    ∃ front value back, values = front ++ value :: back ∧ f value = [only] ∧
      ∀ other ∈ front ++ back, f other = [] := by
  induction values with
  | nil => cases lone
  | cons first rest ih =>
      rw [List.flatMap_cons] at lone
      rcases List.append_eq_singleton_iff.mp lone with ⟨noneHere, later⟩ | ⟨here, noneLater⟩
      · obtain ⟨front, value, back, rfl, made, others⟩ := ih later
        exact ⟨first :: front, value, back, rfl, made, List.forall_mem_cons.mpr ⟨noneHere, others⟩⟩
      · exact ⟨[], first, rest, rfl, here, List.flatMap_eq_nil_iff.mp noneLater⟩

theorem lookup_of_mem {α : Type} {entries : List (Name × α)} {name : Name} {value : α}
    (distinct : (entries.map Prod.fst).Nodup) (listed : (name, value) ∈ entries) :
    entries.lookup name = some value := by
  obtain ⟨other, found, otherListed⟩ := lookup_of_mem_names (List.mem_map_of_mem listed)
  cases List.inj_on_of_nodup_map distinct listed otherListed rfl
  exact found

namespace Compiler

variable {compiler : Compiler} {access : Access} {missing owner name : Name}
  {definition : Definition} {expansion : Name → Except Error Rule}

/-! ## Ways through the graph -/

def LeadsTo (compiler : Compiler) : Name → Name → Prop := Relation.ReflTransGen compiler.LooksUp

/-- The way from a rule to another one when the lookups of each builder are tried from left to right, and
those of a rule before the next one is tried. -/
inductive FirstWay (compiler : Compiler) (owner : Name) : Name → List Access → Prop
  | here : FirstWay compiler owner owner []
  | through {name other : Name} {definition : Definition} {access : Access} {route : List Access}
      (elsewhere : name ≠ owner) (defined : compiler.definitions.lookup name = some definition)
      (first : IsFirst (fun lookup => compiler.LeadsTo lookup.2 owner) definition.accesses
        (access, other))
      (further : FirstWay compiler owner other route) :
      FirstWay compiler owner name (access :: route)

/-- Whether these lookups lead to a rule from the first defined rule from which any do. -/
def IsFirstRoute (compiler : Compiler) (owner : Name) (route : List Access) : Prop :=
  ∃ name, IsFirst (fun first => compiler.LeadsTo first owner) compiler.names name ∧
    compiler.FirstWay owner name route

theorem FirstWay.unique {route other : List Access} (way : compiler.FirstWay owner name route)
    (another : compiler.FirstWay owner name other) : route = other := by
  induction way generalizing other with
  | here =>
      cases another with
      | here => rfl
      | through elsewhere => exact absurd rfl elsewhere
  | through elsewhere defined first _ ih =>
      cases another with
      | here => exact absurd rfl elsewhere
      | through _ sameDefined sameFirst sameFurther =>
          rw [defined] at sameDefined
          cases sameDefined
          cases first.unique sameFirst
          rw [ih sameFurther]

theorem FirstWay.leadsTo {route : List Access} (way : compiler.FirstWay owner name route) :
    compiler.LeadsTo name owner := by
  induction way with
  | here => exact .refl
  | through _ defined first _ ih =>
      obtain ⟨front, back, split, -, -⟩ := first
      have listed : _ ∈ _ := split ▸ List.mem_append_right front List.mem_cons_self
      exact .head ⟨_, defined, Definition.mem_lookups_of_mem_accesses listed⟩ ih

theorem IsFirstRoute.unique {route other : List Access}
    (isFirst : compiler.IsFirstRoute owner route) (another : compiler.IsFirstRoute owner other) :
    route = other := by
  obtain ⟨name, first, way⟩ := isFirst
  obtain ⟨_, sameFirst, sameWay⟩ := another
  cases first.unique sameFirst
  exact way.unique sameWay

/-- A graph in which each rule looks up only rules of a lower rank has no cycle. -/
theorem not_hasCycle_of_rank (rank : Name → Nat)
    (descends : ∀ entry ∈ compiler.definitions, ∀ other ∈ entry.2.lookups,
      rank other < rank entry.1) : ¬ compiler.HasCycle := by
  intro ⟨name, cycle⟩
  have lower (first last : Name) (leads : Relation.TransGen compiler.LooksUp first last) :
      rank last < rank first := by
    induction leads with
    | single looksUp =>
        obtain ⟨definition, defined, listed⟩ := looksUp
        exact descends _ (mem_of_lookup_eq_some defined) _ listed
    | tail _ looksUp ih =>
        obtain ⟨definition, defined, listed⟩ := looksUp
        exact (descends _ (mem_of_lookup_eq_some defined) _ listed).trans ih
  exact Nat.lt_irrefl _ (lower name name cycle)

/-! ## The lookup at fault -/

def unknownIn (compiler : Compiler) (definition : Definition) : List (Access × Name) :=
  definition.accesses.filter fun lookup => !compiler.names.contains lookup.2

/-- The lookups of names that the grammar lacks, in all its builders. -/
def unknownLookups (compiler : Compiler) : List (Access × Name) :=
  compiler.definitions.flatMap fun entry => compiler.unknownIn entry.2

/-- Whether a grammar is in order but for one lookup of a name that it lacks. -/
structure FailsOnlyAt (compiler : Compiler) (access : Access) (missing : Name) : Prop where
  unknown : compiler.unknownLookups = [(access, missing)]
  permitted : ∀ entry ∈ compiler.definitions, ∀ lookup ∈ entry.2.accesses,
    lookup.2 ∈ compiler.names → lookup.1.permits lookup.2 = true
  sound : ∀ entry ∈ compiler.definitions, entry.2.IsSound

/-- How a lookup of a name that the grammar lacks fails on its own. -/
def lookupError (compiler : Compiler) (access : Access) (missing : Name) : Error :=
  if access.permits missing = true then .unknownRule access missing compiler.names
  else .privateName missing

/-- It is reported as it is by all lookups on a route exactly if it was made by member name already, or no
other one was. -/
theorem reportAll_lookupError_eq_iff {route : List Access} :
    Access.reportAll route (compiler.lookupError access missing) =
        compiler.lookupError access missing ↔ access = .attribute ∨ .attribute ∉ route := by
  cases access with
  | subscript =>
      have errorEq : compiler.lookupError .subscript missing =
          .unknownRule .subscript missing compiler.names := rfl
      rw [errorEq, Access.reportAll_unknownRule]
      by_cases met : Access.attribute ∈ route <;> simp [met]
  | «attribute» =>
      have kept : Access.attribute.report (compiler.lookupError .attribute missing) =
          compiler.lookupError .attribute missing := by
        unfold lookupError
        split <;> rfl
      exact iff_of_true (Access.reportAll_of_report_eq kept route) (.inl rfl)

/-- The rule whose builder makes the lookup; what is looked up before it and in all other rules is
defined. -/
structure IsOwner (compiler : Compiler) (access : Access) (missing owner : Name) : Prop where
  undefined : missing ∉ compiler.names
  looksUp : ∃ definition before after, compiler.definitions.lookup owner = some definition ∧
    definition.accesses = before ++ (access, missing) :: after ∧
    ∀ lookup ∈ before, lookup.2 ∈ compiler.names
  elsewhere : ∀ name definition, name ≠ owner →
    compiler.definitions.lookup name = some definition →
    ∀ lookup ∈ definition.accesses, lookup.2 ∈ compiler.names

theorem exists_owner (distinct : compiler.names.Nodup)
    (unknown : compiler.unknownLookups = [(access, missing)]) :
    ∃ owner, compiler.IsOwner access missing owner := by
  obtain ⟨front, ⟨owner, definition⟩, back, split, here, others⟩ := flatMap_eq_singleton unknown
  obtain ⟨before, after, accessesEq, known, undefined, -⟩ := List.filter_eq_cons_iff.mp here
  have listed : (owner, definition) ∈ compiler.definitions :=
    split ▸ List.mem_append_right front List.mem_cons_self
  refine ⟨owner, by simpa using undefined,
    ⟨definition, before, after, lookup_of_mem distinct listed, accessesEq, ?_⟩, ?_⟩
  · simpa using known
  · intro name otherDefinition elsewhere defined lookup made
    have entryListed := mem_of_lookup_eq_some defined
    rw [split, List.mem_append, List.mem_cons] at entryListed
    have apart : (name, otherDefinition) ∈ front ++ back := by
      rcases entryListed with earlier | same | later
      · exact List.mem_append_left _ earlier
      · cases same
        exact absurd rfl elsewhere
      · exact List.mem_append_right _ later
    have allKnown := List.filter_eq_nil_iff.mp (others _ apart) lookup made
    simpa using allKnown

/-! ## Answers -/

theorem fault?_of_undefined (undefined : missing ∉ compiler.names) :
    (compiler.answer expansion).fault? (access, missing) =
      some (compiler.lookupError access missing) := by
  rw [Answer.fault?, answer, lookupError]
  by_cases permitted : access.permits missing = true
  · rw [if_pos permitted, if_pos permitted, if_neg (by simpa using undefined)]
  · rw [if_neg permitted, if_neg permitted]

theorem answer_of_defined (permitted : access.permits name = true)
    (defined : name ∈ compiler.names) :
    compiler.answer expansion access name = (expansion name).mapError access.report := by
  rw [answer, if_pos permitted, if_pos (List.contains_iff_mem.mpr defined)]

theorem fault?_of_ok (permitted : access.permits name = true) (defined : name ∈ compiler.names)
    {body : Rule} (expanded : expansion name = .ok body) :
    (compiler.answer expansion).fault? (access, name) = none := by
  rw [Answer.fault?, answer_of_defined permitted defined, expanded]
  rfl

theorem fault?_of_error (permitted : access.permits name = true) (defined : name ∈ compiler.names)
    {cause : Error} (expanded : expansion name = .error cause) :
    (compiler.answer expansion).fault? (access, name) = some (access.report cause) := by
  rw [Answer.fault?, answer_of_defined permitted defined, expanded]
  rfl

theorem isRule_of_expand {depth : Nat} {path : List Name} {body : Rule}
    (expanded : compiler.expand depth path name = .ok body) : body.isRule = true := by
  unfold expand at expanded
  split at expanded
  · cases expanded
  · split at expanded
    · exact (make_eq_ok_iff.mp expanded).1
    · cases expanded
    · cases expanded

theorem givesRules_expansions (compiler : Compiler) (depth : Nat) (path : List Name) :
    (compiler.answer (compiler.expansions depth path)).GivesRules := by
  intro access name body answered
  have expanded := expansion_of_answer answered
  unfold expansions at expanded
  split at expanded
  · exact isRule_of_expand expanded
  · cases expanded
    rfl

/-! ## Rules that fail -/

/-- The rule at fault fails as its lookup does, if the other rules that it looks up come to something. -/
theorem make_owner (lone : compiler.FailsOnlyAt access missing)
    (isOwner : compiler.IsOwner access missing owner)
    (gives : (compiler.answer expansion).GivesRules)
    (expanded : ∀ other ∈ compiler.names, compiler.LooksUp owner other →
      ∃ body, expansion other = .ok body)
    (defined : compiler.definitions.lookup owner = some definition) :
    compiler.make expansion owner definition = .error (compiler.lookupError access missing) := by
  obtain ⟨_, before, after, sameDefined, accessesEq, known⟩ := isOwner.looksUp
  rw [defined] at sameDefined
  cases sameDefined
  have entryListed := mem_of_lookup_eq_some defined
  apply make_of_fault (lone.sound _ entryListed) gives
  apply List.findSome?_eq_some_iff.mpr
  refine ⟨before, _, after, accessesEq, fault?_of_undefined isOwner.undefined, ?_⟩
  intro ⟨otherAccess, other⟩ listed
  have made : (otherAccess, other) ∈ definition.accesses :=
    accessesEq ▸ List.mem_append_left _ listed
  have otherDefined : other ∈ compiler.names := known _ listed
  obtain ⟨body, otherExpanded⟩ := expanded other otherDefined
    ⟨definition, defined, Definition.mem_lookups_of_mem_accesses made⟩
  exact fault?_of_ok (lone.permitted _ entryListed _ made otherDefined) otherDefined otherExpanded

/-- Whether a rule fails as the lookup at fault does, reported on the first way there, or else comes to
something and does not lead there. -/
def FailsOnWay (compiler : Compiler) (owner : Name) (cause : Error) (name : Name)
    (result : Except Error Rule) : Prop :=
  (∃ route, compiler.FirstWay owner name route ∧ result = .error (Access.reportAll route cause)) ∨
    ¬ compiler.LeadsTo name owner ∧ ∃ body, result = .ok body

theorem FailsOnWay.exists_ok {cause : Error} {result : Except Error Rule}
    (fails : compiler.FailsOnWay owner cause name result) (apart : ¬ compiler.LeadsTo name owner) :
    ∃ body, result = .ok body := by
  rcases fails with ⟨route, way, -⟩ | ⟨-, expanded⟩
  · exact absurd way.leadsTo apart
  · exact expanded

/-- A lookup of such a rule goes wrong exactly if it leads to the rule at fault. -/
theorem FailsOnWay.fault? {cause : Error} (fails : compiler.FailsOnWay owner cause name
      (expansion name)) (permitted : access.permits name = true) (defined : name ∈ compiler.names) :
    (∃ route, compiler.FirstWay owner name route ∧
      (compiler.answer expansion).fault? (access, name) =
        some (Access.reportAll (access :: route) cause)) ∨
      ¬ compiler.LeadsTo name owner ∧
        (compiler.answer expansion).fault? (access, name) = none := by
  rcases fails with ⟨route, way, failed⟩ | ⟨apart, body, expanded⟩
  · exact .inl ⟨route, way, fault?_of_error permitted defined failed⟩
  · exact .inr ⟨apart, fault?_of_ok permitted defined expanded⟩

/-- A rule that is not at fault itself fails through the first of its lookups that leads to the fault. -/
theorem failsOnWay_make (lone : compiler.FailsOnlyAt access missing)
    (isOwner : compiler.IsOwner access missing owner)
    (gives : (compiler.answer expansion).GivesRules) {cause : Error}
    (each : ∀ other ∈ compiler.names, compiler.LooksUp name other →
      compiler.FailsOnWay owner cause other (expansion other))
    (defined : compiler.definitions.lookup name = some definition) (elsewhere : name ≠ owner) :
    compiler.FailsOnWay owner cause name (compiler.make expansion name definition) := by
  have entryListed := mem_of_lookup_eq_some defined
  have sound := lone.sound _ entryListed
  have faults (otherAccess : Access) (other : Name)
      (made : (otherAccess, other) ∈ definition.accesses) :=
    have otherDefined := isOwner.elsewhere name definition elsewhere defined _ made
    have looksUp : compiler.LooksUp name other :=
      ⟨definition, defined, Definition.mem_lookups_of_mem_accesses made⟩
    (each other otherDefined looksUp).fault?
      (lone.permitted _ entryListed _ made otherDefined) otherDefined
  cases fault : definition.accesses.findSome? (compiler.answer expansion).fault? with
  | none =>
      refine .inr ⟨?_, exists_make_of_no_fault sound gives name fault⟩
      intro leads
      rcases leads.cases_head with same | ⟨other, ⟨_, sameDefined, listed⟩, further⟩
      · exact elsewhere same
      · rw [defined] at sameDefined
        cases sameDefined
        obtain ⟨otherAccess, made⟩ := Definition.exists_access_of_mem_lookups listed
        rcases faults otherAccess other made with ⟨route, -, failed⟩ | ⟨apart, -⟩
        · rw [List.findSome?_eq_none_iff.mp fault _ made] at failed
          cases failed
        · exact apart further
  | some failure =>
      obtain ⟨front, ⟨otherAccess, other⟩, back, split, failed, noneBefore⟩ :=
        List.findSome?_eq_some_iff.mp fault
      have made : (otherAccess, other) ∈ definition.accesses :=
        split ▸ List.mem_append_right front List.mem_cons_self
      rcases faults otherAccess other made with ⟨route, way, failedSo⟩ | ⟨-, answered⟩
      · cases failed.symm.trans failedSo
        refine .inl ⟨otherAccess :: route, ?_, make_of_fault sound gives name fault⟩
        refine .through elsewhere defined ⟨front, back, split, way.leadsTo, ?_⟩ way
        intro ⟨earlierAccess, earlier⟩ listed leads
        have earlierMade := split ▸ List.mem_append_left _ listed
        rcases faults earlierAccess earlier earlierMade with ⟨_, -, earlierFailed⟩ | ⟨apart, -⟩
        · rw [noneBefore _ listed] at earlierFailed
          cases earlierFailed
        · exact apart leads
      · rw [answered] at failed
        cases failed

/-- Inline, in a grammar without cycles. -/
theorem failsOnWay_expand (inline : compiler.options.inline = true)
    (acyclic : ¬ compiler.HasCycle) (lone : compiler.FailsOnlyAt access missing)
    (isOwner : compiler.IsOwner access missing owner) {depth : Nat} {path : List Name}
    (room : compiler.HasRoom depth path) (chain : (path ++ [name]).IsChain compiler.LooksUp)
    (listed : name ∈ compiler.names) :
    compiler.FailsOnWay owner (compiler.lookupError access missing) name
      (compiler.expand depth path name) := by
  induction depth using Nat.strongRecOn generalizing path name with
  | ind depth ih =>
      have outside : name ∉ path := by
        intro underWay
        exact acyclic (IsReturning.hasCycle ⟨chain, room.nodup, underWay⟩)
      obtain ⟨further, rfl, deeper⟩ := room.exists_deeper listed outside
      obtain ⟨definition, defined, -⟩ := lookup_of_mem_names listed
      have gives := compiler.givesRules_expansions further (path ++ [name])
      have each : ∀ other ∈ compiler.names, compiler.LooksUp name other →
          compiler.FailsOnWay owner (compiler.lookupError access missing) other
            (compiler.expansions further (path ++ [name]) other) := by
        intro other otherListed looksUp
        rw [expansions, if_pos inline]
        exact ih further (Nat.lt_succ_self _) deeper (chain_append chain looksUp) otherListed
      rw [expand_of_notMem outside defined]
      by_cases same : name = owner
      · subst same
        refine .inl ⟨[], .here, make_owner lone isOwner gives ?_ defined⟩
        intro other otherListed looksUp
        apply (each other otherListed looksUp).exists_ok
        intro back
        exact acyclic ⟨name, .head' looksUp back⟩
      · exact failsOnWay_make lone isOwner gives each defined same

/-- With references, all rules come to something but the one at fault. -/
theorem expand_referring (lone : compiler.FailsOnlyAt access missing)
    (isOwner : compiler.IsOwner access missing owner) (listed : name ∈ compiler.names) :
    let result := compiler.referring.expand compiler.definitions.length [] name
    if name = owner then result = .error (compiler.lookupError access missing)
    else ∃ body, result = .ok body := by
  obtain ⟨further, depthEq, -⟩ :=
    compiler.hasRoom_length.exists_deeper listed List.not_mem_nil
  obtain ⟨definition, defined, entryListed⟩ := lookup_of_mem_names listed
  have gives := compiler.referring.givesRules_expansions further ([] ++ [name])
  have given (other : Name) : compiler.referring.expansions further ([] ++ [name]) other =
      .ok (.reference (compiler.options.productionName other)) := rfl
  have expandEq : compiler.referring.expand (further + 1) [] name =
      compiler.referring.make (compiler.referring.expansions further ([] ++ [name])) name
        definition := expand_of_notMem List.not_mem_nil defined
  have sameLone : compiler.referring.FailsOnlyAt access missing :=
    ⟨lone.unknown, lone.permitted, lone.sound⟩
  have sameOwner : compiler.referring.IsOwner access missing owner :=
    ⟨isOwner.undefined, isOwner.looksUp, isOwner.elsewhere⟩
  rw [depthEq, expandEq]
  split
  · next same =>
      subst same
      exact make_owner sameLone sameOwner gives (fun other _ _ => ⟨_, given other⟩) defined
  · next elsewhere =>
      apply exists_make_of_no_fault (lone.sound _ entryListed) gives
      apply List.findSome?_eq_none_iff.mpr
      intro lookup made
      have otherDefined : lookup.2 ∈ compiler.referring.names :=
        isOwner.elsewhere name definition elsewhere defined lookup made
      exact fault?_of_ok (lone.permitted _ entryListed _ made otherDefined) otherDefined
        (given lookup.2)

/-! ## Compilation -/

theorem expandAll_of_first {front back : List Name} {cause : Error}
    (expanded : ∀ other ∈ front, ∃ body,
      compiler.expand compiler.definitions.length [] other = .ok body)
    (failed : compiler.expand compiler.definitions.length [] name = .error cause) :
    compiler.expandAll (front ++ name :: back) = .error cause := by
  induction front with
  | nil =>
      rw [List.nil_append, expandAll, failed]
      rfl
  | cons first rest ih =>
      obtain ⟨⟨body, firstExpanded⟩, others⟩ := List.forall_mem_cons.mp expanded
      rw [List.cons_append, expandAll, firstExpanded, ih others]
      rfl

/-- A compilation fails as the first rule does that fails. -/
theorem compile_of_first {front back : List Name} {cause : Error}
    (namesEq : compiler.names = front ++ name :: back)
    (expanded : ∀ other ∈ front, ∃ body,
      compiler.expand compiler.definitions.length [] other = .ok body)
    (failed : compiler.expand compiler.definitions.length [] name = .error cause) :
    (outcome compiler.compile .start).1 = .error cause := by
  obtain ⟨compiled, -⟩ := compiler.preserving_perform .compile .start compiler.faithful_nil
  rw [perform, stepResult, namesEq, expandAll_of_first expanded failed] at compiled
  exact compiled

theorem IsOwner.mem_names (isOwner : compiler.IsOwner access missing owner) :
    owner ∈ compiler.names := by
  obtain ⟨definition, -, -, defined, -⟩ := isOwner.looksUp
  exact List.mem_map_of_mem (mem_of_lookup_eq_some defined)

theorem compile_referring_of_lone (lone : compiler.FailsOnlyAt access missing)
    (isOwner : compiler.IsOwner access missing owner) :
    (outcome compiler.referring.compile .start).1 =
      .error (compiler.lookupError access missing) := by
  obtain ⟨_, front, back, namesEq, rfl, others⟩ :=
    exists_isFirst (· = owner) isOwner.mem_names rfl
  have each (other : Name) (listed : other ∈ compiler.names) :=
    expand_referring lone isOwner listed
  have sameNames : compiler.referring.names = front ++ _ :: back := namesEq
  apply compile_of_first sameNames
  · intro other listed
    have expanded := each other (namesEq ▸ List.mem_append_left _ listed)
    rwa [if_neg (others other listed)] at expanded
  · have failed := each _ isOwner.mem_names
    rwa [if_pos rfl] at failed

theorem compile_inline_of_lone (inline : compiler.options.inline = true)
    (acyclic : ¬ compiler.HasCycle) (lone : compiler.FailsOnlyAt access missing)
    (isOwner : compiler.IsOwner access missing owner) :
    ∃ route, compiler.IsFirstRoute owner route ∧
      (outcome compiler.compile .start).1 =
        .error (Access.reportAll route (compiler.lookupError access missing)) := by
  obtain ⟨first, isFirst⟩ := exists_isFirst (fun name => compiler.LeadsTo name owner)
    isOwner.mem_names .refl
  obtain ⟨front, back, namesEq, leads, apart⟩ := id isFirst
  have each (name : Name) (listed : name ∈ front ++ first :: back) :=
    failsOnWay_expand inline acyclic lone isOwner compiler.hasRoom_length (.singleton name)
      (namesEq ▸ listed)
  rcases each first (List.mem_append_right _ List.mem_cons_self) with
    ⟨route, way, failed⟩ | ⟨apartFirst, -⟩
  · refine ⟨route, ⟨first, isFirst, way⟩, compile_of_first namesEq ?_ failed⟩
    intro other listed
    exact (each other (List.mem_append_left _ listed)).exists_ok (apart other listed)
  · exact absurd leads apartFirst

/-- If nothing is wrong with a grammar without cycles but that one builder looks up a name that is not
defined, the compilation with references fails as this lookup does by itself. The inline compilation fails
with the same message, on the only first route to that builder, and as an error of the same kind exactly if
the lookup is by member name or no lookup on this route is. -/
theorem compile_unknown_lookup (inline : compiler.options.inline = true)
    (distinct : compiler.names.Nodup) (acyclic : ¬ compiler.HasCycle)
    (lone : compiler.FailsOnlyAt access missing) :
    ∃ owner definition route, compiler.definitions.lookup owner = some definition ∧
      (access, missing) ∈ definition.accesses ∧
      (∀ other, compiler.IsFirstRoute owner other ↔ other = route) ∧
      (outcome compiler.referring.compile .start).1 =
        .error (compiler.lookupError access missing) ∧
      (∃ cause, (outcome compiler.compile .start).1 = .error cause ∧
        cause = Access.reportAll route (compiler.lookupError access missing) ∧
        cause.message = (compiler.lookupError access missing).message) ∧
      ((outcome compiler.compile .start).1 = (outcome compiler.referring.compile .start).1 ↔
        access = .attribute ∨ .attribute ∉ route) := by
  obtain ⟨owner, isOwner⟩ := exists_owner distinct lone.unknown
  obtain ⟨route, isFirst, failed⟩ := compile_inline_of_lone inline acyclic lone isOwner
  obtain ⟨definition, before, after, defined, accessesEq, -⟩ := isOwner.looksUp
  have made : (access, missing) ∈ definition.accesses :=
    accessesEq ▸ List.mem_append_right before List.mem_cons_self
  have referred := compile_referring_of_lone lone isOwner
  refine ⟨owner, definition, route, defined, made, ?_, referred,
    ⟨_, failed, rfl, Access.message_reportAll route _⟩, ?_⟩
  · intro other
    constructor
    · intro another
      exact another.unique isFirst
    · intro same
      rw [same]
      exact isFirst
  · rw [failed, referred, Except.error.injEq]
    exact reportAll_lookupError_eq_iff

/-- The way to the builder at fault is by subscripts, although members are looked up before. -/
theorem compile_unknown_lookup_by_subscripts :
    let definitions : Definitions := [
      ("leaf", .term (.literal ['x'])),
      ("root", .builder "root" (.sequence true [.lookup .attribute "leaf",
        .lookup .subscript "middle", .lookup .attribute "bad"])),
      ("bad", .builder "bad" (.choice true [.lookup .attribute "leaf",
        .lookup .subscript "missing"])),
      ("middle", .builder "middle" (.optional true (.lookup .subscript "bad")))]
    let compiler : Compiler := ⟨definitions, { Options.default with inline := true }⟩
    compiler.options.inline = true ∧ compiler.names.Nodup ∧ ¬ compiler.HasCycle ∧
      compiler.FailsOnlyAt .subscript "missing" ∧
      ∃ owner route, (∀ other, compiler.IsFirstRoute owner other ↔ other = route) ∧
        .attribute ∉ route ∧
        (outcome compiler.compile .start).1 =
          .error (.unknownRule .subscript "missing" ["leaf", "root", "bad", "middle"]) := by
  intro definitions compiler
  have distinct : compiler.names.Nodup := by decide
  have acyclic : ¬ compiler.HasCycle :=
    not_hasCycle_of_rank (["missing", "leaf", "bad", "middle", "root"].idxOf ·) (by decide)
  have lone : compiler.FailsOnlyAt .subscript "missing" := by
    refine ⟨by decide, by decide +kernel, ?_⟩
    simp only [compiler, definitions, List.forall_mem_cons]
    exact ⟨⟨_, rfl, rfl⟩, ⟨_, rfl, rfl⟩, ⟨_, rfl, rfl⟩, ⟨_, rfl, rfl⟩, by simp⟩
  have failed : (outcome compiler.compile .start).1 =
      .error (.unknownRule .subscript "missing" ["leaf", "root", "bad", "middle"]) := by cbv
  have referred : (outcome compiler.referring.compile .start).1 =
      .error (.unknownRule .subscript "missing" ["leaf", "root", "bad", "middle"]) := by cbv
  obtain ⟨owner, _, route, -, -, only, -, -, sameIff⟩ :=
    compile_unknown_lookup rfl distinct acyclic lone
  refine ⟨rfl, distinct, acyclic, lone, owner, route, only, ?_, failed⟩
  rcases sameIff.mp (failed.trans referred.symm) with byMember | bySubscripts
  · cases byMember
  · exact bySubscripts

/-- A member is looked up whose builder looks up a name that is not defined, by subscript. -/
theorem compile_changes_kind :
    let definitions : Definitions := [
      ("root", .builder "root" (.lookup .attribute "bad")),
      ("bad", .builder "bad" (.lookup .subscript "missing"))]
    let compiler : Compiler := ⟨definitions, { Options.default with inline := true }⟩
    compiler.names.Nodup ∧ ¬ compiler.HasCycle ∧ compiler.FailsOnlyAt .subscript "missing" ∧
      (outcome compiler.referring.compile .start).1 =
        .error (.unknownRule .subscript "missing" ["root", "bad"]) ∧
      (outcome compiler.compile .start).1 =
        .error (.unknownRule .attribute "missing" ["root", "bad"]) := by
  intro definitions compiler
  have acyclic : ¬ compiler.HasCycle :=
    not_hasCycle_of_rank (["missing", "bad", "root"].idxOf ·) (by decide)
  have lone : compiler.FailsOnlyAt .subscript "missing" := by
    refine ⟨by decide, by decide +kernel, ?_⟩
    simp only [compiler, definitions, List.forall_mem_cons]
    exact ⟨⟨_, rfl, rfl⟩, ⟨_, rfl, rfl⟩, by simp⟩
  exact ⟨by decide, acyclic, lone, by cbv, by cbv⟩

end Compiler

end Tessera.Grammar
