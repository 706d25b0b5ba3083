import Mathlib
import Tessera.Proofs.Tokenizer.RoundTrip

/-!
# Strict walks

A strict walk does what one does that may leave characters out, up to the first character that is left
out. There it stops. So a strict call fails where the other call leaves out its first character, and
where there is none both calls are the same.
-/

set_option autoImplicit false

namespace Tessera.Tokenizer

variable {σ : Type}

namespace Options

def strictly (options : Options) : Options := { options with strict := true }

def leniently (options : Options) : Options := { options with strict := false }

/-- The options that ask for no marks. -/
def unmarked (options : Options) : Options := { options with addBos := false, addEos := false }

end Options

/-! ## Walks that are cut off -/

/-- A walk that is another one, cut off before the first character that the other leaves out, if there
is any. -/
inductive Walk.IsCutOf (walk : Walk σ) : Walk σ → Prop where
  | whole : walk.uncovered = none → walk.skipped = [] → IsCutOf walk walk
  | short {other : Walk σ} {position : Nat} {c : Char} {behind : List Decision} :
      walk.uncovered = some (position, c) → walk.skipped = [] → other.uncovered = none →
      other.decisions = walk.decisions ++ .skip position c :: behind → IsCutOf walk other

/-- What is done first may be the same in both, if nothing is left out there. -/
theorem Walk.IsCutOf.prepend {walk other : Walk σ} (cut : walk.IsCutOf other)
    {front : List Decision} (lossless : front.filterMap Decision.skipped? = []) :
    Walk.IsCutOf { walk with decisions := front ++ walk.decisions }
      { other with decisions := front ++ other.decisions } := by
  cases cut with
  | whole finished nothing =>
      refine .whole finished ?_
      simpa only [Walk.skipped, List.filterMap_append, lossless, List.nil_append] using nothing
  | short stopped nothing finished divided =>
      have stillDivided := (congrArg (front ++ ·) divided).trans (List.append_assoc _ _ _).symm
      refine .short stopped ?_ finished stillDivided
      simpa only [Walk.skipped, List.filterMap_append, lossless, List.nil_append] using nothing

theorem Walk.IsCutOf.after {walk other : Walk σ} (cut : walk.IsCutOf other) {decision : Decision}
    (kept : decision.skipped? = none) : (walk.after decision).IsCutOf (other.after decision) := by
  have lossless : [decision].filterMap Decision.skipped? = [] := by simp [kept]
  exact cut.prepend lossless

theorem along_finished (choose : Text → σ → Option (Match Nat × σ)) (covered position : Nat)
    (text : Text) (source : σ) :
    (Walk.along choose false covered position text source).uncovered = none := by
  cases stopped : (Walk.along choose false covered position text source).uncovered with
  | none => rfl
  | some place =>
      obtain ⟨isStrict, -⟩ := along_uncovered stopped
      cases isStrict

theorem along_isCutOf (choose : Text → σ → Option (Match Nat × σ)) (covered position : Nat)
    (text : Text) (source : σ) :
    (Walk.along choose true covered position text source).IsCutOf
      (Walk.along choose false covered position text source) := by
  induction text generalizing covered position source with
  | nil => exact .whole rfl rfl
  | cons c rest ih =>
      cases covered with
      | succ more => exact ih more (position + 1) source
      | zero =>
          rw [Walk.along, Walk.along]
          cases choose (c :: rest) source with
          | some selected => exact (ih _ (position + 1) selected.2).after rfl
          | none =>
              have finished := along_finished choose 0 (position + 1) rest source
              exact .short rfl rfl finished rfl

section

variable [RandomSource σ]

theorem walkSegments_isCutOf (tokenizer : Tokenizer) (options : Options)
    (segments : List (Segment Nat)) (source : σ) :
    (tokenizer.walkSegments options.strictly segments source).IsCutOf
      (tokenizer.walkSegments options.leniently segments source) := by
  induction segments generalizing source with
  | nil => exact .whole rfl rfl
  | cons segment rest ih =>
      cases special : segment.special with
      | some id =>
          simp only [walkSegments, special]
          exact (ih source).after rfl
      | none =>
          have sameChoice : tokenizer.choose (σ := σ) options.strictly =
              tokenizer.choose options.leniently := rfl
          have here := along_isCutOf (tokenizer.choose options.leniently) 0
            segment.start segment.text source
          have strict : options.strictly.strict = true := rfl
          have lenient : options.leniently.strict = false := rfl
          simp only [walkSegments, special, sameChoice, strict, lenient]
          generalize Walk.along (tokenizer.choose options.leniently) true 0
            segment.start segment.text source = walk at here ⊢
          generalize Walk.along (tokenizer.choose options.leniently) false 0
            segment.start segment.text source = other at here ⊢
          cases here with
          | whole finished nothing =>
              simp only [finished]
              exact (ih walk.source).prepend nothing
          | @short _ position c behind stopped nothing finished divided =>
              simp only [stopped, finished]
              have further : (tokenizer.walkSegments options.leniently rest
                  other.source).uncovered = none :=
                walkSegments_finished_of_lenient rfl tokenizer rest other.source
              generalize tokenizer.walkSegments options.leniently rest other.source = others at *
              have stillDivided := congrArg (· ++ others.decisions) divided
              exact .short stopped nothing further (stillDivided.trans (List.append_assoc _ _ _))

theorem walk_isCutOf (tokenizer : Tokenizer) (options : Options) (text : Text) (source : σ) :
    (tokenizer.walk options.strictly text source).IsCutOf
      (tokenizer.walk options.leniently text source) :=
  walkSegments_isCutOf tokenizer options _ source

end

/-! ## What they give notice of -/

theorem noticesOf_of_lossless {decisions : List Decision}
    (lossless : decisions.filterMap Decision.skipped? = []) : Call.noticesOf decisions = [] := by
  rw [List.filterMap_eq_nil_iff] at lossless
  rw [Call.noticesOf, List.filterMap_eq_nil_iff]
  intro decision member
  have kept := lossless decision member
  cases decision with
  | emit => rfl
  | preserve => rfl
  | skip => cases kept

theorem noticesOf_beforeSelection_of_lossless {walk : Walk σ} (lossless : walk.skipped = []) :
    Call.noticesOf walk.beforeSelection = [] := by
  apply noticesOf_of_lossless
  have before : walk.beforeSelection.Sublist walk.decisions := List.takeWhile_sublist _
  exact List.sublist_nil.mp (lossless ▸ before.filterMap Decision.skipped?)

section

variable {walk other : Walk σ}

section

variable {behind : List Decision} (divided : other.decisions = walk.decisions ++ behind)

include divided

/-- If a token is selected in the part that comes first, that part shows what comes before. -/
theorem beforeSelection_of_selects (selects : walk.decisions.any Decision.isEmit = true) :
    other.beforeSelection = walk.beforeSelection := by
  rw [Walk.beforeSelection, divided, List.takeWhile_append, if_neg]
  · rfl
  intro asLong
  obtain ⟨decision, member, emits⟩ := List.any_eq_true.mp selects
  have whole := (List.takeWhile_prefix _).eq_of_length asLong
  rw [← whole] at member
  simpa [emits] using List.mem_takeWhile_imp member

theorem beforeSelection_of_not_selects (waits : walk.decisions.any Decision.isEmit = false) :
    other.beforeSelection = walk.decisions ++ behind.takeWhile fun decision => !decision.isEmit := by
  rw [Walk.beforeSelection, divided, List.takeWhile_append_of_pos]
  intro decision member
  simpa using List.any_eq_false.mp waits decision member

end

section

variable {position : Nat} {c : Char} {behind : List Decision} (lossless : walk.skipped = [])
  (divided : other.decisions = walk.decisions ++ .skip position c :: behind)

include lossless divided

theorem head?_skipped_of_divided : other.skipped.head? = some position := by
  rw [Walk.skipped] at lossless ⊢
  rw [divided, List.filterMap_append, lossless]
  rfl

theorem head?_noticesOf_of_divided (waits : walk.decisions.any Decision.isEmit = false) :
    (Call.noticesOf other.beforeSelection).head? = some (.uncovered position c) := by
  have silent := noticesOf_of_lossless lossless
  rw [Call.noticesOf] at silent ⊢
  rw [beforeSelection_of_not_selects divided waits, List.filterMap_append, silent]
  rfl

end

end

/-! ## Endings -/

/-- Whether an ending tells that the character at a place was the first to be left out: the result
says so, or the first notice that was given before tokens could not be selected. -/
def LeavesOutFirst (desk : Desk σ) (ending : Except Failure Tokenization × Desk σ) (position : Nat)
    (c : Char) : Prop :=
  (∃ result, ending.1 = .ok result ∧ result.skipped.head? = some position) ∨
    ending.1 = .error .unmeasurable ∧ ∃ more : List Notice,
      ending.2.notices.toList = desk.notices.toList ++ .uncovered position c :: more

section

variable {tokenizer : Tokenizer} {options : Options} {text : Text} {desk : Desk σ}
  {walk other : Walk σ}

/-- A walk that is cut off ends as the other does, unless it fails for what made it stop. -/
theorem ended_eq_of_isCutOf (cut : walk.IsCutOf other)
    (covered : ∀ position c,
      (tokenizer.ended options text desk walk).1 ≠ .error (.uncovered position c)) :
    tokenizer.ended options text desk walk = tokenizer.ended options text desk other := by
  cases cut with
  | whole finished nothing => rfl
  | @short _ position c behind stopped nothing finished divided =>
      have blocked : options.isMeasurable = false ∧ walk.decisions.any Decision.isEmit = true := by
        simpa [ended_eq_uncovered_iff, stopped] using covered position c
      obtain ⟨unmeasurable, selects⟩ := blocked
      have otherSelects : other.decisions.any Decision.isEmit = true := by
        rw [divided, List.any_append, selects, Bool.true_or]
      rw [ended_of_blocked unmeasurable selects, ended_of_blocked unmeasurable otherSelects,
        beforeSelection_of_selects divided selects]

theorem ended_of_allowed (allowed : options.isMeasurable = true ∨
      walk.decisions.any Decision.isEmit = false) (noBos : options.addBos = false)
    (noEos : options.addEos = false) (finished : walk.uncovered = none) :
    (tokenizer.ended options text desk walk).1 = .ok ⟨text, walk.ids, walk.skipped⟩ := by
  rw [ended]
  rcases allowed with measurable | waits
  · simp only [measurable, Bool.not_true, Bool.false_and, Bool.false_eq_true, ↓reduceIte,
      outcome_of_unmarked noBos noEos finished]
  · simp only [waits, Bool.and_false, Bool.false_eq_true, ↓reduceIte,
      outcome_of_unmarked noBos noEos finished]

theorem leavesOutFirst_iff_of_ok {ending : Except Failure Tokenization × Desk σ}
    {result : Tokenization} (returned : ending.1 = .ok result) {position : Nat} {c : Char} :
    LeavesOutFirst desk ending position c ↔ result.skipped.head? = some position := by
  simp [LeavesOutFirst, returned]

theorem leavesOutFirst_iff_of_blocked (unmeasurable : options.isMeasurable = false)
    (selects : walk.decisions.any Decision.isEmit = true) {position : Nat} {c : Char} :
    LeavesOutFirst desk (tokenizer.ended options text desk walk) position c ↔
      (Call.noticesOf walk.beforeSelection).head? = some (.uncovered position c) := by
  rw [ended_of_blocked unmeasurable selects, List.head?_eq_some_iff]
  simp [LeavesOutFirst]

/-- A walk that is cut off stops at the character that the other leaves out first. -/
theorem stops_iff_leavesOutFirst (cut : walk.IsCutOf other)
    (noBos : options.addBos = false) (noEos : options.addEos = false)
    (stands : ∀ {position c}, .skip position c ∈ other.decisions → text[position]? = some c)
    {position : Nat} {c : Char} :
    walk.uncovered = some (position, c) ∧
        (options.isMeasurable = true ∨ walk.decisions.any Decision.isEmit = false) ↔
      text[position]? = some c ∧
        LeavesOutFirst desk (tokenizer.ended options text desk other) position c := by
  cases cut with
  | whole finished nothing =>
      have silent := noticesOf_beforeSelection_of_lossless nothing
      by_cases allowed : options.isMeasurable = true ∨ walk.decisions.any Decision.isEmit = false
      · rw [leavesOutFirst_iff_of_ok (ended_of_allowed allowed noBos noEos finished)]
        simp [finished, nothing]
      · obtain ⟨unmeasurable, selects⟩ : options.isMeasurable = false ∧
            walk.decisions.any Decision.isEmit = true := by simpa using allowed
        rw [leavesOutFirst_iff_of_blocked unmeasurable selects, silent]
        simp [finished]
  | @short _ first d behind stopped nothing finished divided =>
      have atPlace : text[first]? = some d := stands (by simp [divided])
      have stopsAt : walk.uncovered = some (position, c) ↔ first = position ∧ d = c := by
        simp [stopped]
      -- The place decides which character it is.
      have samePlace : first = position ∧ d = c ↔ text[position]? = some c ∧ first = position := by
        constructor
        · rintro ⟨rfl, rfl⟩
          exact ⟨atPlace, rfl⟩
        · rintro ⟨there, rfl⟩
          exact ⟨rfl, Option.some.inj (atPlace.symm.trans there)⟩
      by_cases allowed : options.isMeasurable = true ∨ other.decisions.any Decision.isEmit = false
      · have walkAllowed : options.isMeasurable = true ∨
            walk.decisions.any Decision.isEmit = false := by
          refine allowed.imp_right fun waits => ?_
          rw [divided, List.any_append, Bool.or_eq_false_iff] at waits
          exact waits.1
        rw [leavesOutFirst_iff_of_ok (ended_of_allowed allowed noBos noEos finished),
          and_iff_left walkAllowed, stopsAt, head?_skipped_of_divided nothing divided,
          Option.some_inj, samePlace]
      · obtain ⟨unmeasurable, otherSelects⟩ : options.isMeasurable = false ∧
            other.decisions.any Decision.isEmit = true := by simpa using allowed
        rw [leavesOutFirst_iff_of_blocked unmeasurable otherSelects]
        cases selects : walk.decisions.any Decision.isEmit with
        | true =>
            rw [beforeSelection_of_selects divided selects,
              noticesOf_beforeSelection_of_lossless nothing]
            simp [unmeasurable]
        | false =>
            rw [and_iff_left (.inr rfl), stopsAt, head?_noticesOf_of_divided nothing divided selects,
              Option.some_inj, Notice.uncovered.injEq]
            exact ⟨fun same => ⟨(samePlace.mp same).1, same⟩, And.right⟩

end

/-! ## Calls -/

variable [RandomSource σ]

section

variable (tokenizer : Tokenizer) (options : Options) (text : Text) (supply : Supply σ)
  (desk : Desk σ)

theorem runOn_strict_eq_uncovered_iff (position : Nat) (c : Char) :
    ((tokenizer.tokenize options.strictly text supply).runOn desk).1 =
        .error (.uncovered position c) ↔
      text[position]? = some c ∧ LeavesOutFirst desk
        ((tokenizer.tokenize options.leniently.unmarked text supply).runOn desk) position c := by
  rcases runOn_tokenize_of_seed tokenizer options text supply desk with refused | ⟨source, told⟩
  · rw [refused options.strictly rfl, refused options.leniently.unmarked rfl]
    simp [LeavesOutFirst]
  · rw [told options.strictly rfl, told options.leniently.unmarked rfl]
    have cut := walk_isCutOf tokenizer options text source
    have covers := walk_covers tokenizer options.leniently text source
      (walk_finished_of_lenient rfl tokenizer text source)
    have sameWalk : tokenizer.walk options.leniently.unmarked text source =
        tokenizer.walk options.leniently text source :=
      walk_with tokenizer options.leniently options.seed false false text source
    rw [← sameWalk] at cut covers
    -- Marks do not matter for a walk that stops short.
    rw [ended_eq_uncovered_iff]
    have noBos : options.leniently.unmarked.addBos = false := rfl
    have noEos : options.leniently.unmarked.addEos = false := rfl
    exact stops_iff_leavesOutFirst cut noBos noEos fun skipped =>
      (covers.getElem?_of_skip skipped).2

theorem runOn_strict_eq (covered : ∀ position c,
      ((tokenizer.tokenize options.strictly text supply).runOn desk).1 ≠
        .error (.uncovered position c)) :
    (tokenizer.tokenize options.strictly text supply).runOn desk =
      (tokenizer.tokenize options.leniently text supply).runOn desk := by
  rcases runOn_tokenize_of_seed tokenizer options text supply desk with refused | ⟨source, told⟩
  · rw [refused options.strictly rfl, refused options.leniently rfl]
  · rw [told options.strictly rfl] at covered ⊢
    rw [told options.leniently rfl]
    exact ended_eq_of_isCutOf (walk_isCutOf tokenizer options text source) covered

theorem runOn_unmarked_ne_unmeasurable (measurable : options.isMeasurable = true) :
    ((tokenizer.tokenize options.leniently.unmarked text supply).runOn desk).1 ≠
      .error .unmeasurable := by
  rcases runOn_tokenize_of_seed tokenizer options text supply desk with refused | ⟨source, told⟩
  · rw [refused options.leniently.unmarked rfl]
    simp
  · have allowed : options.leniently.unmarked.isMeasurable = true := measurable
    have finished : (tokenizer.walk options.leniently.unmarked text source).uncovered = none :=
      walk_finished_of_lenient rfl tokenizer text source
    rw [told options.leniently.unmarked rfl, ended_of_allowed (.inl allowed) rfl rfl finished]
    simp

end

/-- A strict call fails at the first character that a call leaves out which is not strict and asks for
no marks. Where there is none, it is the same as the call that is not strict. -/
theorem strict_is_cut_off (tokenizer : Tokenizer) (options : Options) (text : Text)
    (supply : Supply σ) (desk : Desk σ) :
    let strict := (tokenizer.tokenize options.strictly text supply).runOn desk
    let lenient := (tokenizer.tokenize options.leniently text supply).runOn desk
    let unmarked := (tokenizer.tokenize options.leniently.unmarked text supply).runOn desk
    (∀ position c, strict.1 = .error (.uncovered position c) ↔
      text[position]? = some c ∧ LeavesOutFirst desk unmarked position c) ∧
    (options.isMeasurable = true → ∀ position c, strict.1 = .error (.uncovered position c) ↔
      text[position]? = some c ∧
        ∃ result, unmarked.1 = .ok result ∧ result.skipped.head? = some position) ∧
    ((∀ position c, strict.1 ≠ .error (.uncovered position c)) → strict = lenient) := by
  intro strict lenient unmarked
  have firstLeftOut := runOn_strict_eq_uncovered_iff tokenizer options text supply desk
  refine ⟨firstLeftOut, fun measurable position c => ?_,
    runOn_strict_eq tokenizer options text supply desk⟩
  have selects : unmarked.1 ≠ .error .unmeasurable :=
    runOn_unmarked_ne_unmeasurable tokenizer options text supply desk measurable
  rw [firstLeftOut, LeavesOutFirst, or_iff_left fun blocked => selects blocked.1]

/-- A character without a token counts before a mark that there is none of. -/
theorem strict_is_cut_off_before_marks :
    let tokenizer := ofVocabulary {
      tokens := #[['a']]
      merges := none
      bos := none
      eos := none
      modelType := none
      specialIds := []
      bos_lt_size := by decide
      eos_lt_size := by decide
      specialIds_lt_size := by decide }
    let options := { Options.ofStrategy .longest with addBos := true }
    let desk : Desk Script := Desk.fresh ⟨[], [], 0, 0⟩
    let text : Text := "a?".toList
    let covered : Text := "aa".toList
    ((tokenizer.tokenize options.leniently text .current).runOn desk).1 = .error .absentBos ∧
    ((tokenizer.tokenize options.leniently.unmarked text .current).runOn desk).1 =
      .ok ⟨text, [0], [1]⟩ ∧
    ((tokenizer.tokenize options.strictly text .current).runOn desk).1 =
      .error (.uncovered 1 '?') ∧
    ((tokenizer.tokenize options.strictly covered .current).runOn desk).1 = .error .absentBos ∧
    (tokenizer.tokenize options.strictly covered .current).runOn desk =
      (tokenizer.tokenize options.leniently covered .current).runOn desk := by
  intro tokenizer options desk text covered
  have returned : ((tokenizer.tokenize options.leniently.unmarked text .current).runOn desk).1 =
      .ok ⟨text, [0], [1]⟩ := rfl
  have refused : ((tokenizer.tokenize options.strictly covered .current).runOn desk).1 =
      .error .absentBos := rfl
  obtain ⟨-, stops, -⟩ := strict_is_cut_off tokenizer options text .current desk
  obtain ⟨-, -, same⟩ := strict_is_cut_off tokenizer options covered .current desk
  refine ⟨rfl, returned, (stops rfl 1 '?').mpr ⟨rfl, _, returned, rfl⟩, refused,
    same fun position c => ?_⟩
  rw [refused]
  simp

/-- Where lengths are to be compared with one that is out of range, only the strict call comes to the
first character: the other fails at the first token. -/
theorem strict_fails_where_lenient_is_blocked :
    let tokenizer := ofVocabulary {
      tokens := #[['a']]
      merges := none
      bos := none
      eos := none
      modelType := none
      specialIds := []
      bos_lt_size := by decide
      eos_lt_size := by decide
      specialIds_lt_size := by decide }
    let options := { Options.ofStrategy .idealLength with idealLength := .integer (10 ^ 400) }
    let desk : Desk Script := Desk.fresh ⟨[], [], 0, 0⟩
    let text : Text := "?a".toList
    let strict := (tokenizer.tokenize options.strictly text .current).runOn desk
    let lenient := (tokenizer.tokenize options.leniently text .current).runOn desk
    let unmarked := (tokenizer.tokenize options.leniently.unmarked text .current).runOn desk
    strict.1 = .error (.uncovered 0 '?') ∧ lenient.1 = .error .unmeasurable ∧
    unmarked.1 = .error .unmeasurable ∧
    ¬ (strict.1 = .error (.uncovered 0 '?') ↔
      ∃ result, unmarked.1 = .ok result ∧ result.skipped.head? = some 0) ∧
    strict.1 ≠ lenient.1 := by
  intro tokenizer options desk text strict lenient unmarked
  have unmeasurable : options.isMeasurable = false := by
    have far : (Number.integer (10 ^ 400)).inRange = false := by decide +kernel
    exact Bool.or_eq_false_iff.mpr ⟨rfl, far⟩
  have stops : strict.1 = .error (.uncovered 0 '?') :=
    (congrArg Prod.fst (runOn_tokenize_of_begun rfl tokenizer text)).trans
      (ended_eq_uncovered_iff.mpr ⟨rfl, .inr rfl⟩)
  have blocked : lenient.1 = .error .unmeasurable :=
    congrArg Prod.fst ((runOn_tokenize_of_begun rfl tokenizer text).trans
      (ended_of_blocked unmeasurable rfl))
  have blockedUnmarked : unmarked.1 = .error .unmeasurable :=
    congrArg Prod.fst ((runOn_tokenize_of_begun rfl tokenizer text).trans
      (ended_of_blocked unmeasurable rfl))
  refine ⟨stops, blocked, blockedUnmarked, fun agrees => ?_, ?_⟩
  · obtain ⟨result, returned, -⟩ := agrees.mp stops
    rw [blockedUnmarked] at returned
    cases returned
  · rw [stops, blocked]
    simp

end Tessera.Tokenizer
