import Mathlib.Data.List.Forall2
import Tessera.Grammar.Compiler
import Tessera.Proofs.Computation
import Tessera.Proofs.Grammar.LookupGraph

/-!
# Compilation

The text of a grammar follows from the bodies of its rules, and a body from the definitions alone.
-/

set_option autoImplicit false

/-! ## What is compiled from the bodies

Once all rules are resolved, the text of a grammar follows from their bodies alone, and so does the
error if there is one.
-/

namespace Tessera.Grammar

open Tessera.Computation

@[simp] theorem outcome_ofExcept {α : Type} (result : Except Error α) (session : Session) :
    outcome (Run.ofExcept result) session = (result, session) := by
  cases result <;> rfl

mutual

/-- Writing a rule fails only for a foreign value in it. -/
theorem Rule.exists_kind_of_render {escape : Bool} {cause : Error} :
    (rule : Rule) → rule.render escape = .error cause → ∃ kind, cause = .unprintable kind
  | .literal _, failed => by cases failed
  | .sequence items, failed => exists_kind_of_renderAll items (map_eq_error_iff.mp failed)
  | .choice items, failed => exists_kind_of_renderAll items (map_eq_error_iff.mp failed)
  | .between rule _, failed => exists_kind_of_render rule (map_eq_error_iff.mp failed)
  | .zeroOrMore rule, failed => exists_kind_of_render rule (map_eq_error_iff.mp failed)
  | .oneOrMore rule, failed => exists_kind_of_render rule (map_eq_error_iff.mp failed)
  | .optional rule, failed => exists_kind_of_render rule (map_eq_error_iff.mp failed)
  | .range _ _, failed => by cases failed
  | .oneOf _, failed => by cases failed
  | .reference _, failed => by cases failed
  | .foreign value, failed => by
    cases failed
    exact ⟨value.kind, rfl⟩

theorem Rule.exists_kind_of_renderAll {escape : Bool} {cause : Error} :
    (rules : List Rule) → Rule.renderAll escape rules = .error cause →
      ∃ kind, cause = .unprintable kind
  | [], failed => by cases failed
  | rule :: rest, failed => by
    rw [renderAll] at failed
    split at failed
    · next other ruleFailed =>
        cases failed
        exact exists_kind_of_render rule ruleFailed
    · exact exists_kind_of_renderAll rest (map_eq_error_iff.mp failed)

end

namespace Compiler

variable {compiler : Compiler}

/-- The names that stop a compilation: none, unless the compiler is strict. -/
def refused (compiler : Compiler) (bodies : List (Name × Rule)) : List Name :=
  if compiler.options.strict then compiler.missingReferences bodies else []

def written (compiler : Compiler) (bodies : List (Name × Rule)) : Except Error Text :=
  match compiler.refused bodies with
  | [] => (compiler.productions bodies).map (['\n'].intercalate ·)
  | missing => .error (.undefinedReferences missing)

theorem compile_eq : compiler.compile =
    compiler.bodies >>= fun bodies => Run.ofExcept (compiler.written bodies) := by
  refine congrArg (compiler.bodies >>= ·) (funext fun bodies => ?_)
  simp only [written, refused]
  cases compiler.options.strict with
  | false => cases compiler.productions bodies <;> rfl
  | true =>
      cases compiler.missingReferences bodies with
      | nil => cases compiler.productions bodies <;> rfl
      | cons first rest => rfl

theorem outcome_compile_of_bodies {session after : Session} {bodies : List (Name × Rule)}
    (resolved : outcome compiler.bodies session = (.ok bodies, after)) :
    outcome compiler.compile session = (compiler.written bodies, after) := by
  rw [compile_eq, outcome_bind, resolved]
  exact outcome_ofExcept _ _

theorem outcome_compile_eq_ok_iff {session after : Session} {text : Text} :
    outcome compiler.compile session = (.ok text, after) ↔
      ∃ bodies, outcome compiler.bodies session = (.ok bodies, after) ∧
        compiler.written bodies = .ok text := by
  simp only [compile_eq, outcome_bind_eq_ok_iff, outcome_ofExcept, Prod.mk.injEq]
  constructor
  · rintro ⟨bodies, _, resolved, made, rfl⟩
    exact ⟨bodies, resolved, made⟩
  · rintro ⟨bodies, resolved, made⟩
    exact ⟨bodies, after, resolved, made, rfl⟩

theorem written_eq_ok_iff {bodies : List (Name × Rule)} {text : Text} :
    compiler.written bodies = .ok text ↔
      compiler.refused bodies = [] ∧
        ∃ lines, compiler.productions bodies = .ok lines ∧ ['\n'].intercalate lines = text := by
  unfold written
  cases compiler.refused bodies with
  | nil => simp [map_eq_ok_iff]
  | cons first rest => simp

theorem production_eq_ok_iff {name : Name} {body : Rule} {line : Text} :
    compiler.production name body = .ok line ↔
      ∃ text, body.render compiler.options.escapeLiterals = .ok text ∧
        (compiler.options.productionName name).toList ++ " ::= ".toList ++ text = line :=
  map_eq_ok_iff

theorem productions_eq_ok_iff {bodies : List (Name × Rule)} {lines : List Text} :
    compiler.productions bodies = .ok lines ↔
      List.Forall₂ (fun entry line => compiler.production entry.1 entry.2 = .ok line)
        bodies lines := by
  induction bodies generalizing lines with
  | nil => simp [productions, eq_comm]
  | cons entry rest ih =>
      rw [productions]
      cases made : compiler.production entry.1 entry.2 with
      | error cause => simp [List.forall₂_cons_left_iff, made]
      | ok line =>
          simp only [map_eq_ok_iff, ih, List.forall₂_cons_left_iff, made, Except.ok.injEq]
          constructor
          · rintro ⟨others, othersMade, rfl⟩
            exact ⟨line, others, rfl, othersMade, rfl⟩
          · rintro ⟨_, others, rfl, othersMade, rfl⟩
            exact ⟨others, othersMade, rfl⟩

theorem exists_productions_iff {bodies : List (Name × Rule)} :
    (∃ lines, compiler.productions bodies = .ok lines) ↔
      ∀ entry ∈ bodies, ∃ text, entry.2.render compiler.options.escapeLiterals = .ok text := by
  simp only [productions_eq_ok_iff]
  induction bodies with
  | nil => simp
  | cons entry rest ih =>
      rw [List.forall_mem_cons, ← ih]
      constructor
      · rintro ⟨lines, produced⟩
        cases produced with
        | cons lineMade othersMade =>
            obtain ⟨text, rendered, -⟩ := production_eq_ok_iff.mp lineMade
            exact ⟨⟨text, rendered⟩, _, othersMade⟩
      · rintro ⟨⟨text, rendered⟩, others, othersMade⟩
        exact ⟨_, .cons (production_eq_ok_iff.mpr ⟨text, rendered, rfl⟩) othersMade⟩

theorem exists_kind_of_productions {bodies : List (Name × Rule)} {cause : Error}
    (failed : compiler.productions bodies = .error cause) : ∃ kind, cause = .unprintable kind := by
  induction bodies with
  | nil => cases failed
  | cons entry rest ih =>
      rw [productions] at failed
      split at failed
      · next other lineFailed =>
          cases failed
          exact entry.2.exists_kind_of_render (map_eq_error_iff.mp lineFailed)
      · exact ih (map_eq_error_iff.mp failed)

theorem written_eq_undefinedReferences_iff {bodies : List (Name × Rule)} {missing : List Name} :
    compiler.written bodies = .error (.undefinedReferences missing) ↔
      compiler.refused bodies = missing ∧ missing ≠ [] := by
  unfold written
  cases compiler.refused bodies with
  | nil =>
      refine iff_of_false (fun failed => ?_) (fun both => both.2 both.1.symm)
      obtain ⟨kind, same⟩ := exists_kind_of_productions (map_eq_error_iff.mp failed)
      cases same
  | cons first rest =>
      simp only [Except.error.injEq, Error.undefinedReferences.injEq, iff_self_and]
      intro same
      simp [← same]

theorem names_of_resolveAll {names : List Name} {session after : Session}
    {bodies : List (Name × Rule)}
    (resolved : outcome (compiler.resolveAll names) session = (.ok bodies, after)) :
    bodies.map Prod.fst = names := by
  induction names generalizing session bodies with
  | nil =>
      cases resolved
      rfl
  | cons name rest ih =>
      rw [resolveAll] at resolved
      simp only [outcome_bind_eq_ok_iff, outcome_pure] at resolved
      obtain ⟨body, between, -, others, last, restResolved, returned⟩ := resolved
      cases returned
      rw [List.map_cons, ih restResolved]

/-! ### Texts that list productions -/

/-- Whether a line is the production with the given name and body. -/
def IsLineOf (escape : Bool) (entry : Name × Rule) (line : Text) : Prop :=
  ∃ body, entry.2.render escape = .ok body ∧ line = entry.1.toList ++ " ::= ".toList ++ body

/-- Whether a text has the productions with the given names and bodies, one below the other. -/
def IsListing (escape : Bool) (entries : List (Name × Rule)) (text : Text) : Prop :=
  ∃ lines, List.Forall₂ (IsLineOf escape) entries lines ∧ text = ['\n'].intercalate lines

/-- Bodies under the names of their productions. -/
def named (compiler : Compiler) (bodies : List (Name × Rule)) : List (Name × Rule) :=
  bodies.map fun entry => (compiler.options.productionName entry.1, entry.2)

theorem isListing_iff {bodies : List (Name × Rule)} {text : Text} :
    IsListing compiler.options.escapeLiterals (compiler.named bodies) text ↔
      ∃ lines, compiler.productions bodies = .ok lines ∧ ['\n'].intercalate lines = text := by
  have lineIff (entry : Name × Rule) (line : Text) :
      IsLineOf compiler.options.escapeLiterals (compiler.options.productionName entry.1, entry.2)
        line ↔ compiler.production entry.1 entry.2 = .ok line := by
    rw [IsLineOf, production_eq_ok_iff]
    simp only [eq_comm]
  simp only [IsListing, named, List.forall₂_map_left_iff, lineIff, productions_eq_ok_iff,
    eq_comm (a := text)]

theorem exists_listing_of_compile {session after : Session} {text : Text}
    (compiled : outcome compiler.compile session = (.ok text, after)) :
    ∃ bodies, outcome compiler.bodies session = (.ok bodies, after) ∧
      IsListing compiler.options.escapeLiterals (compiler.named bodies) text := by
  obtain ⟨bodies, resolved, written⟩ := outcome_compile_eq_ok_iff.mp compiled
  exact ⟨bodies, resolved, isListing_iff.mpr (written_eq_ok_iff.mp written).2⟩

end Compiler

/-! ## Expansion of rules

What a rule comes to can be told without keeping any body: each lookup starts over. The errors are
those of a compiler that keeps bodies.
-/

/-- How a lookup reports an error that reaches it. -/
def Access.report : Access → Error → Error
  | .attribute, .unknownRule .subscript missing defined => .unknownRule .attribute missing defined
  | _, cause => cause

namespace Compiler

theorem find_eq (compiler : Compiler) (resolve : Name → Run Rule) (access : Access) (name : Name) :
    compiler.find resolve access name =
      if access.permits name = true then
        tryCatch
          (if compiler.names.contains name then resolve name
            else throw (.unknownRule .subscript name compiler.names))
          fun cause => throw (access.report cause)
      else throw (.privateName name) := by
  cases access with
  | subscript =>
      have permitted : Access.subscript.permits name = true := rfl
      rw [if_pos permitted]
      exact (tryCatch_throw _).symm
  | «attribute» =>
      cases hidden : name.startsWith "_" with
      | true => simp [find, Access.permits, hidden]
      | false =>
          simp only [find, Access.permits, hidden, Bool.false_eq_true, ↓reduceIte, Bool.not_false]
          refine congrArg (tryCatch _) (funext fun cause => ?_)
          cases cause with
          | unknownRule access missing defined => cases access <;> rfl
          | _ => rfl

/-- The answers to lookups, given what rules come to. -/
def answer (compiler : Compiler) (expansion : Name → Except Error Rule) : Answer :=
  fun access name =>
    if access.permits name = true then
      if compiler.names.contains name = true then (expansion name).mapError access.report
      else .error (.unknownRule access name compiler.names)
    else .error (.privateName name)

/-- What a definition comes to, given what other rules come to. -/
def make (compiler : Compiler) (expansion : Name → Except Error Rule) (name : Name) :
    Definition → Except Error Rule
  | .term (.foreign value) => .error (.definedNoRule name value.kind)
  | .term rule => .ok rule
  | .builder _ body => do
    match ← body.value (compiler.answer expansion) with
    | .foreign value => .error (.builtNoRule name value.kind)
    | rule => .ok rule

/-- What a rule comes to while others are under way. -/
def expand (compiler : Compiler) (depth : Nat) (path : List Name) (name : Name) :
    Except Error Rule :=
  if path.contains name then .error (.cyclic path name)
  else match depth, compiler.definitions.lookup name with
    | depth + 1, some definition =>
      compiler.make
        (if compiler.options.inline then compiler.expand depth (path ++ [name])
          else fun other => .ok (.reference (compiler.options.productionName other)))
        name definition
    | 0, _ => .error (.cyclic path name)
    | _, none => .error (.unknownRule .subscript name compiler.names)

variable {compiler : Compiler} {depth : Nat} {path : List Name} {name : Name} {body : Rule}
  {bodies : List (Name × Rule)} {expansion : Name → Except Error Rule}

theorem make_eq_ok_iff {definition : Definition} :
    compiler.make expansion name definition = .ok body ↔
      body.isRule = true ∧ definition.value (compiler.answer expansion) = .ok body := by
  cases definition with
  | term rule =>
      cases rule with
      | foreign value =>
          constructor
          · intro made
            cases made
          · rintro ⟨accepted, made⟩
            cases made
            cases accepted
      | _ =>
          constructor
          · intro made
            cases made
            exact ⟨rfl, rfl⟩
          · rintro ⟨-, made⟩
            exact made
  | builder label expr =>
      rw [make, bind_eq_ok_iff]
      constructor
      · rintro ⟨rule, made, kept⟩
        cases rule <;> cases kept <;> exact ⟨rfl, made⟩
      · rintro ⟨accepted, made⟩
        refine ⟨body, made, ?_⟩
        cases body <;> first | rfl | cases accepted

/-- A lookup that is answered is answered by what the rule comes to. -/
theorem expansion_of_answer {access : Access}
    (answered : compiler.answer expansion access name = .ok body) : expansion name = .ok body := by
  rw [answer] at answered
  split at answered
  · split at answered
    · cases expanded : expansion name with
      | error cause =>
          rw [expanded] at answered
          cases answered
      | ok made =>
          rw [expanded] at answered
          cases answered
          rfl
    · cases answered
  · cases answered

/-- What the lookups of a builder come to. -/
def expansions (compiler : Compiler) (depth : Nat) (path : List Name) : Name → Except Error Rule :=
  if compiler.options.inline then compiler.expand depth path
  else fun other => .ok (.reference (compiler.options.productionName other))

theorem expand_of_mem (underWay : name ∈ path) :
    compiler.expand depth path name = .error (.cyclic path name) := by
  unfold expand
  rw [if_pos (List.contains_iff_mem.mpr underWay)]

theorem expand_of_notMem (outside : name ∉ path) {definition : Definition}
    (defined : compiler.definitions.lookup name = some definition) :
    compiler.expand (depth + 1) path name =
      compiler.make (compiler.expansions depth (path ++ [name])) name definition := by
  unfold expand
  rw [if_neg (by simpa using outside), defined]
  rfl

/-! ### Room for further rules -/

structure HasRoom (compiler : Compiler) (depth : Nat) (path : List Name) : Prop where
  nodup : path.Nodup
  inside : path ⊆ compiler.names
  enough : compiler.definitions.length ≤ depth + path.length

theorem hasRoom_length (compiler : Compiler) : compiler.HasRoom compiler.definitions.length [] :=
  ⟨List.nodup_nil, List.nil_subset _, Nat.le_refl _⟩

theorem HasRoom.exists_deeper (room : compiler.HasRoom depth path) (defined : name ∈ compiler.names)
    (outside : name ∉ path) :
    ∃ further, depth = further + 1 ∧ compiler.HasRoom further (path ++ [name]) := by
  have fewer := length_path_lt room.nodup room.inside defined outside
  have enough := room.enough
  obtain ⟨further, rfl⟩ : ∃ further, depth = further + 1 :=
    Nat.exists_eq_succ_of_ne_zero (by omega)
  obtain ⟨nodup, inside⟩ := under_way_append room.nodup room.inside defined outside
  refine ⟨further, rfl, nodup, inside, ?_⟩
  rw [List.length_append, List.length_singleton]
  omega

end Compiler

/-! ### Results that do not depend on the session -/

/-- A computation has a fixed result in all sessions of a kind, and leads to no others. -/
def preserving (holds : List (Name × Rule) → Prop) : Correspondence where
  relates computation result := ∀ session, holds session.bodies →
    (outcome computation session).1 = result ∧ holds (outcome computation session).2.bodies
  pure _ _ held := ⟨rfl, held⟩
  ofExcept result _ held := by
    rw [outcome_ofExcept]
    exact ⟨rfl, held⟩
  record _ _ held := ⟨rfl, held⟩
  bind {_ _ computation _ _ _} first second session held := by
    obtain ⟨resultEq, betweenHeld⟩ := first session held
    rw [outcome_bind]
    cases ending : outcome computation session with
    | mk value between =>
        rw [ending] at resultEq betweenHeld
        subst resultEq
        cases value with
        | error cause => exact ⟨rfl, betweenHeld⟩
        | ok value => exact second value between betweenHeld

namespace Compiler

section

variable {compiler : Compiler} {name : Name} {expansion : Name → Except Error Rule}
  {holds : List (Name × Rule) → Prop} {resolve : Name → Run Rule}

theorem preserving_find
    (each : ∀ name ∈ compiler.names, (preserving holds).relates (resolve name) (expansion name))
    (access : Access) (name : Name) :
    (preserving holds).relates (compiler.find resolve access name)
      (compiler.answer expansion access name) := by
  intro session held
  rw [find_eq, answer]
  by_cases permitted : access.permits name = true
  · rw [if_pos permitted, if_pos permitted, outcome_tryCatch]
    by_cases defined : compiler.names.contains name = true
    · rw [if_pos defined, if_pos defined]
      obtain ⟨resultEq, afterHeld⟩ := each name (List.contains_iff_mem.mp defined) session held
      cases ending : outcome (resolve name) session with
      | mk result after =>
          rw [ending] at resultEq afterHeld
          rw [← resultEq]
          cases result with
          | ok body => exact ⟨rfl, afterHeld⟩
          | error cause => exact ⟨rfl, afterHeld⟩
    · rw [if_neg defined, if_neg defined]
      refine ⟨?_, held⟩
      cases access <;> rfl
  · rw [if_neg permitted, if_neg permitted]
    exact ⟨rfl, held⟩

theorem preserving_evaluate
    (each : ∀ name ∈ compiler.names, (preserving holds).relates (resolve name) (expansion name))
    (name : Name) (definition : Definition) :
    (preserving holds).relates (compiler.evaluate resolve name definition)
      (compiler.make expansion name definition) := by
  cases definition with
  | term rule =>
      cases rule with
      | foreign value => exact (preserving holds).ofExcept (.error _)
      | _ => exact (preserving holds).pure _
  | builder label expr =>
      have made : (preserving holds).relates (expr.eval compiler.names (compiler.find resolve))
          (expr.value (compiler.answer expansion)) :=
        (preserving holds).eval (preserving_find each) expr
      intro session held
      refine (preserving holds).bind made (fun rule => ?_) (session.noting (.started label)) held
      cases rule with
      | foreign value => exact (preserving holds).ofExcept (.error _)
      | _ => exact (preserving holds).pure _

end

end Compiler

end Tessera.Grammar
