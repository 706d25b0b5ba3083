import Tessera.Grammar.Rule

/-!
# Escaped literals

An escaped literal shows where it ends: at the first quotation mark that no backslash escapes. Once
the escapes up to there are undone, it is the literal again, and nothing of what stands behind it has
been taken. What is read so is exactly what is written.
-/

set_option autoImplicit false

namespace Tessera

/-- Puts a text in the place of a character, wherever that occurs. -/
def Text.replaceEach (text : Text) (old : Char) (new : Text) : Text :=
  text.flatMap fun c => if c = old then new else [c]

namespace Grammar

/-! ## Escaping as two replacements -/

def escapeLiteral (text : Text) : Text := text.flatMap escapeLiteralChar

theorem quoteLiteral_true (text : Text) :
    quoteLiteral true text = '"' :: (escapeLiteral text ++ ['"']) := rfl

@[simp] theorem escapeLiteral_nil : escapeLiteral [] = [] := rfl

@[simp] theorem escapeLiteral_cons (c : Char) (rest : Text) :
    escapeLiteral (c :: rest) = escapeLiteralChar c ++ escapeLiteral rest := rfl

/-- Backslashes are replaced first, so those that escape quotation marks are not doubled. -/
theorem escapeLiteral_eq_replaceEach (text : Text) :
    escapeLiteral text = (text.replaceEach '\\' ['\\', '\\']).replaceEach '"' ['\\', '"'] := by
  rw [escapeLiteral, Text.replaceEach, Text.replaceEach, List.flatMap_assoc]
  congr 1
  funext c
  unfold escapeLiteralChar
  split
  · rfl
  · rw [List.flatMap_singleton]

/-! ## Where a literal ends -/

/-- The length of the run of backslashes at the end of a text. -/
def endingBackslashes (front : Text) : Nat := (front.reverse.takeWhile (· = '\\')).length

/-- Whether the character behind a text is escaped. A backslash takes up the character behind it, so
of a run of backslashes one is left over if their number is odd. -/
def Escapes (front : Text) : Prop := endingBackslashes front % 2 = 1

instance (front : Text) : Decidable (Escapes front) := Nat.decEq _ _

/-- Whether a quotation mark behind a text is the first one that is not escaped. -/
structure ReachesMark (body : Text) : Prop where
  unescaped : ¬ Escapes body
  escaped : ∀ front back, body = front ++ '"' :: back → Escapes front

/-- The character behind a backslash is escaped, unless the backslash itself is. -/
theorem escapes_concat_iff (front : Text) (c : Char) :
    Escapes (front ++ [c]) ↔ c = '\\' ∧ ¬ Escapes front := by
  unfold Escapes endingBackslashes
  rw [List.reverse_append, List.reverse_singleton, List.singleton_append, List.takeWhile_cons]
  by_cases backslash : c = '\\'
  · simp only [backslash, decide_true, ↓reduceIte, List.length_cons, true_and]
    omega
  · simp [backslash]

/-! ## Reading -/

/-- The text up to the first quotation mark that is not escaped, and the text behind that mark.
`escaped` says whether the first character is escaped. -/
def untilMark (escaped : Bool) : Text → Option (Text × Text)
  | [] => none
  | c :: rest =>
    if c = '"' ∧ escaped = false then some ([], rest)
    else (untilMark (c = '\\' && !escaped) rest).map fun (body, after) => (c :: body, after)

/-- Undoes the two escapes. A backslash must stand before another one or before a quotation mark, and
a quotation mark behind a backslash. -/
def unescapeLiteral? : Text → Option Text
  | [] => some []
  | '\\' :: c :: rest =>
    if c = '\\' ∨ c = '"' then (unescapeLiteral? rest).map (c :: ·) else none
  | c :: rest => if c = '\\' ∨ c = '"' then none else (unescapeLiteral? rest).map (c :: ·)

/-- Reads a literal from its opening quotation mark on. -/
def readQuoted : Text → Option (Text × Text)
  | '"' :: rest => do
    let (body, after) ← untilMark false rest
    let text ← unescapeLiteral? body
    return (text, after)
  | _ => none

/-- What stands before decides whether the first character is escaped, so the induction carries it
along. -/
theorem untilMark_eq_some (before : Text) {text body after : Text}
    (found : untilMark (decide (Escapes before)) text = some (body, after)) :
    text = body ++ '"' :: after ∧ ¬ Escapes (before ++ body) ∧
      ∀ front back, body = front ++ '"' :: back → Escapes (before ++ front) := by
  induction text generalizing before body with
  | nil => cases found
  | cons c rest ih =>
      unfold untilMark at found
      split at found
      · next ends =>
          obtain ⟨rfl, unescaped⟩ := ends
          cases found
          refine ⟨rfl, by simpa using unescaped, ?_⟩
          intro front back divided
          simp at divided
      · next goesOn =>
          obtain ⟨⟨further, _⟩, foundFurther, same⟩ := Option.map_eq_some_iff.mp found
          cases same
          have nextEscaped : (decide (c = '\\') && !decide (Escapes before)) =
              decide (Escapes (before ++ [c])) := by
            simp [escapes_concat_iff]
          rw [nextEscaped] at foundFurther
          obtain ⟨rfl, unescaped, escaped⟩ := ih (before ++ [c]) foundFurther
          rw [List.append_assoc] at unescaped
          refine ⟨rfl, unescaped, ?_⟩
          intro front back divided
          cases front with
          | nil =>
              obtain ⟨rfl, -⟩ := List.cons.inj divided
              simpa using goesOn
          | cons d others =>
              obtain ⟨rfl, behind⟩ := List.cons.inj divided
              simpa using escaped others back behind

theorem reachesMark_of_untilMark {text body after : Text}
    (found : untilMark false text = some (body, after)) :
    text = body ++ '"' :: after ∧ ReachesMark body := by
  obtain ⟨divided, unescaped, escaped⟩ := untilMark_eq_some [] found
  exact ⟨divided, unescaped, escaped⟩

theorem untilMark_escapeLiteral (text rest : Text) :
    untilMark false (escapeLiteral text ++ '"' :: rest) = some (escapeLiteral text, rest) := by
  induction text with
  | nil => simp [untilMark]
  | cons c further ih =>
      simp only [escapeLiteral_cons, List.append_assoc, escapeLiteralChar]
      split
      · simp [untilMark, ih]
      · split
        · simp [untilMark, ih]
        · next noBackslash noMark => simp [untilMark, ih, noBackslash, noMark]

/-- The quotation mark behind an escaped literal is the first one that is not escaped. -/
theorem reachesMark_escapeLiteral (text : Text) : ReachesMark (escapeLiteral text) :=
  (reachesMark_of_untilMark (untilMark_escapeLiteral text [])).2

theorem unescapeLiteral?_eq_some_iff {body text : Text} :
    unescapeLiteral? body = some text ↔ body = escapeLiteral text := by
  constructor
  · intro undone
    fun_induction unescapeLiteral? body generalizing text with
    | case1 =>
        cases undone
        rfl
    | case2 c rest escape ih =>
        obtain ⟨further, restUndone, rfl⟩ := Option.map_eq_some_iff.mp undone
        rw [ih restUndone]
        rcases escape with rfl | rfl <;> rfl
    | case3 => cases undone
    | case4 => cases undone
    | case5 c rest _ plain ih =>
        obtain ⟨further, restUndone, rfl⟩ := Option.map_eq_some_iff.mp undone
        rw [ih restUndone]
        simp [escapeLiteralChar, not_or.mp plain]
  · rintro rfl
    induction text with
    | nil => rfl
    | cons c further ih =>
        simp only [escapeLiteral_cons, escapeLiteralChar]
        split
        · next backslash => simp [unescapeLiteral?, ih, backslash]
        · split
          · next mark => simp [unescapeLiteral?, ih, mark]
          · next noBackslash noMark => simp [unescapeLiteral?, ih, noBackslash, noMark]

/-- Reading accepts exactly what is written, whatever stands behind it. -/
theorem readQuoted_eq_some_iff {written text rest : Text} :
    readQuoted written = some (text, rest) ↔ written = quoteLiteral true text ++ rest := by
  rw [quoteLiteral_true, List.cons_append, List.append_assoc, List.singleton_append]
  constructor
  · intro read
    unfold readQuoted at read
    split at read
    · next behind =>
        obtain ⟨⟨body, after⟩, found, behindRead⟩ := Option.bind_eq_some_iff.mp read
        obtain ⟨_, undone, same⟩ := Option.bind_eq_some_iff.mp behindRead
        cases same
        obtain ⟨rfl, -⟩ := reachesMark_of_untilMark found
        rw [unescapeLiteral?_eq_some_iff.mp undone]
    · cases read
  · rintro rfl
    simp [readQuoted, untilMark_escapeLiteral, unescapeLiteral?_eq_some_iff.mpr rfl]

/-- Of two texts that begin with escaped literals and are the same, the literals are the same, and so
is what stands behind them. -/
theorem quoteLiteral_append_eq_iff {text rest other further : Text} :
    quoteLiteral true text ++ rest = quoteLiteral true other ++ further ↔
      text = other ∧ rest = further := by
  rw [← readQuoted_eq_some_iff, readQuoted_eq_some_iff.mpr rfl, Option.some.injEq, Prod.mk.injEq,
    eq_comm, @eq_comm _ rest]

theorem quoteLiteral_true_injective : Function.Injective (quoteLiteral true) := by
  intro text other same
  have sameBehind : quoteLiteral true text ++ [] = quoteLiteral true other ++ [] :=
    congrArg (· ++ []) same
  exact (quoteLiteral_append_eq_iff.mp sameBehind).1

/-- An escaped literal delimits itself: it ends at the first quotation mark that is not escaped, and
reading it up to there gives back the literal and all that stands behind it. So no literal ends early
or takes anything of what follows, and different ones are written differently. -/
theorem quoteLiteral_delimits_itself (text rest : Text) :
    (∃ body, quoteLiteral true text ++ rest = '"' :: (body ++ '"' :: rest) ∧
      body = (text.replaceEach '\\' ['\\', '\\']).replaceEach '"' ['\\', '"'] ∧
      ReachesMark body ∧ unescapeLiteral? body = some text) ∧
    (∀ written, readQuoted written = some (text, rest) ↔
      written = quoteLiteral true text ++ rest) ∧
    (∀ other further, quoteLiteral true text ++ rest = quoteLiteral true other ++ further ↔
      text = other ∧ rest = further) ∧
    Function.Injective (quoteLiteral true) := by
  have endsAtMark : quoteLiteral true text ++ rest =
      '"' :: (escapeLiteral text ++ '"' :: rest) := by
    simp [quoteLiteral_true]
  exact ⟨⟨escapeLiteral text, endsAtMark, escapeLiteral_eq_replaceEach text,
      reachesMark_escapeLiteral text, unescapeLiteral?_eq_some_iff.mpr rfl⟩,
    fun _ => readQuoted_eq_some_iff, fun _ _ => quoteLiteral_append_eq_iff,
    quoteLiteral_true_injective⟩

/-- Without escapes, a quotation mark in a literal ends it early. -/
example : readQuoted (quoteLiteral false ['a', '"', 'b']) = some (['a'], ['b', '"']) := by decide

end Grammar

end Tessera
