import Mathlib.Data.List.TakeWhile
import Tessera.Document.Json
import Tessera.Number.Basic

/-!
# Strings and integers that are read back

What strings and integers are written as is read as those strings and integers.
-/

set_option autoImplicit false

/-! ## Reading written strings

What a string is written as, a reader takes for that string: every escape stands for the character that
it was written for, two code units for a character that does not fit one.
-/

namespace Tessera

/-! ### Hexadecimal digits -/

theorem hexDigit?_digitChar {digit : Nat} (small : digit < 16) :
    hexDigit? (Nat.digitChar digit) = some digit :=
  have all : ∀ d < 16, hexDigit? (Nat.digitChar d) = some d := by decide
  all digit small

namespace Text

theorem hexadecimal_one {value : Nat} (small : value < 16) :
    hexadecimal 1 value = [Nat.digitChar value] := by
  rw [hexadecimal, Nat.toDigits_of_lt_base small]
  rfl

theorem hexadecimal_succ (width value : Nat) :
    hexadecimal (width + 1 + 1) value =
      hexadecimal (width + 1) (value / 16) ++ [Nat.digitChar (value % 16)] := by
  by_cases small : value < 16
  · simp only [hexadecimal, Nat.toDigits_of_lt_base small, Nat.div_eq_of_lt small,
      Nat.mod_eq_of_lt small, Nat.toDigits_zero, List.length_singleton, Nat.add_one_sub_one,
      List.replicate_succ']
  · have digits := Nat.toDigits_eq_if (b := 16) (n := value) (by decide)
    rw [if_neg small] at digits
    simp only [hexadecimal, digits, List.length_append, List.length_singleton,
      Nat.add_sub_add_right, List.append_assoc]

theorem hexadecimal_four {code : Nat} (small : code < 0x10000) :
    hexadecimal 4 code =
      [Nat.digitChar (code / 16 / 16 / 16), Nat.digitChar (code / 16 / 16 % 16),
        Nat.digitChar (code / 16 % 16), Nat.digitChar (code % 16)] := by
  rw [hexadecimal_succ, hexadecimal_succ, hexadecimal_succ, hexadecimal_one (by omega)]
  rfl

end Text

namespace Document.Reader

variable {limits : Limits} {reader next : Reader} {characters : Text} {high : Option Nat}

/-- What a reader makes of the text that is still to come. -/
def readOn (limits : Limits) (reader : Reader) (text : Text) : Option Document :=
  (text.foldlM (step limits) reader).bind (finish limits)

theorem readOn_cons {c : Char} (taken : step limits reader c = some next) (rest : Text) :
    readOn limits reader (c :: rest) = readOn limits next rest := by
  rw [readOn, List.foldlM_cons, taken]
  rfl

/-! ### Escapes -/

theorem readOn_unitEscape {code : Nat} {lexeme : Lexeme} (small : code < 0x10000)
    (finished : finishUnit characters high code = some lexeme) (rest : Text) :
    readOn limits { reader with lexeme := .string characters high } (unitEscape code ++ rest) =
      readOn limits { reader with lexeme := lexeme } rest := by
  have first : hexDigit? (Nat.digitChar (code / 16 / 16 / 16)) = some (code / 16 / 16 / 16) :=
    hexDigit?_digitChar (by omega)
  have later (value : Nat) : hexDigit? (Nat.digitChar (value % 16)) = some (value % 16) :=
    hexDigit?_digitChar (Nat.mod_lt value (by decide))
  have whole : 16 * (16 * (16 * (16 * 0 + code / 16 / 16 / 16) + code / 16 / 16 % 16) +
      code / 16 % 16) + code % 16 = code := by omega
  rw [unitEscape, Text.hexadecimal_four small]
  simp only [List.cons_append, List.nil_append]
  rw [readOn_cons rfl, readOn_cons rfl,
    readOn_cons (by simp only [step, first]; rfl), readOn_cons (by simp only [step, later]; rfl),
    readOn_cons (by simp only [step, later]; rfl),
    readOn_cons (by simp only [step, later, whole, finished]; rfl)]

/-- The code units of a character stand for it. -/
theorem readOn_charEscape (c : Char) (rest : Text) :
    readOn limits { reader with lexeme := .string characters none } (charEscape c ++ rest) =
      readOn limits { reader with lexeme := .string (c :: characters) none } rest := by
  have scalar : c.toNat < 0xD800 ∨ 0xDFFF < c.toNat ∧ c.toNat < 0x110000 := c.valid
  unfold charEscape
  split
  case isTrue small =>
    have alone : finishUnit characters none c.toNat = some (.string (c :: characters) none) := by
      simp only [finishUnit]
      rw [if_neg (by omega), if_neg (by omega), Char.ofNat_toNat]
    exact readOn_unitEscape small alone rest
  case isFalse large =>
    have lead : finishUnit characters none (0xD800 + (c.toNat - 0x10000) / 0x400) =
        some (.string characters (some (0xD800 + (c.toNat - 0x10000) / 0x400))) := by
      simp only [finishUnit]
      rw [if_pos (by omega)]
    have together : 0x10000 + (0xD800 + (c.toNat - 0x10000) / 0x400 - 0xD800) * 0x400 +
        (0xDC00 + (c.toNat - 0x10000) % 0x400 - 0xDC00) = c.toNat := by omega
    have pair : finishUnit characters (some (0xD800 + (c.toNat - 0x10000) / 0x400))
        (0xDC00 + (c.toNat - 0x10000) % 0x400) = some (.string (c :: characters) none) := by
      simp only [finishUnit]
      rw [if_pos (by omega), together, Char.ofNat_toNat]
    rw [List.append_assoc, readOn_unitEscape (by omega) lead, readOn_unitEscape (by omega) pair]

theorem readOn_simpleEscape {c plain : Char} (simple : simpleEscape? c = some plain)
    (rest : Text) :
    readOn limits { reader with lexeme := .string characters none } ('\\' :: c :: rest) =
      readOn limits { reader with lexeme := .string (plain :: characters) none } rest := by
  have noUnit : c ≠ 'u' := by
    rintro rfl
    cases simple
  rw [readOn_cons rfl, readOn_cons (by simp only [step, if_neg noUnit, simple]; rfl)]

theorem readOn_escapeChar (ascii : Bool) (c : Char) (rest : Text) :
    readOn limits { reader with lexeme := .string characters none } (escapeChar ascii c ++ rest) =
      readOn limits { reader with lexeme := .string (c :: characters) none } rest := by
  unfold escapeChar
  split
  case isTrue quote => subst quote; exact readOn_simpleEscape rfl rest
  split
  case isTrue backslash => subst backslash; exact readOn_simpleEscape rfl rest
  split
  case isTrue backspace => subst backspace; exact readOn_simpleEscape rfl rest
  split
  case isTrue feed => subst feed; exact readOn_simpleEscape rfl rest
  split
  case isTrue newline => subst newline; exact readOn_simpleEscape rfl rest
  split
  case isTrue carriage => subst carriage; exact readOn_simpleEscape rfl rest
  split
  case isTrue tab => subst tab; exact readOn_simpleEscape rfl rest
  split
  case isTrue control =>
    have alone : charEscape c = unitEscape c.toNat := if_pos (by omega)
    rw [← alone]
    exact readOn_charEscape c rest
  split
  case isTrue => exact readOn_charEscape c rest
  case isFalse noQuote noBackslash _ _ _ _ _ noControl _ =>
    exact readOn_cons (by simp [step, noQuote, noBackslash, noControl]) rest

/-! ### Strings -/

theorem readOn_escapeChars (ascii : Bool) (text rest : Text) :
    readOn limits { reader with lexeme := .string characters none }
        (text.flatMap (escapeChar ascii) ++ rest) =
      readOn limits { reader with lexeme := .string (text.reverse ++ characters) none } rest := by
  induction text generalizing characters with
  | nil => rfl
  | cons c more ih =>
      rw [List.flatMap_cons, List.append_assoc, readOn_escapeChar, ih, List.reverse_cons,
        List.append_assoc]
      rfl

/-- A string, where one may stand, is read as what it was written for. -/
theorem readOn_stringText {ascii : Bool} {text : String}
    (opened : step limits reader '"' = some { reader with lexeme := .string [] none })
    (finished : finishString { reader with lexeme := .string text.toList.reverse none }
      text.toList.reverse = some next) (rest : Text) :
    readOn limits reader (stringText ascii text ++ rest) = readOn limits next rest := by
  rw [stringText, List.cons_append, readOn_cons opened, List.append_assoc, readOn_escapeChars,
    List.append_nil]
  have closed : step limits { reader with lexeme := .string text.toList.reverse none } '"' =
      some next := finished
  exact readOn_cons closed rest

end Document.Reader

/-! ## Texts of integers

The text of an integer is a numeral: an optional minus sign and digits, the first of which is no zero
unless it is alone. Read as such, it gives the integer back.
-/

/-! ### Digits -/

theorem isDigit_of_mem_naturalText {n : Nat} {c : Char} (member : c ∈ naturalText n) :
    c.isDigit = true :=
  Nat.isDigit_of_mem_toDigits (by decide) (by decide) member

theorem exists_naturalText_eq_cons {n : Nat} (positive : 0 < n) :
    ∃ first more, naturalText n = first :: more ∧ first ≠ '0' := by
  induction n using Nat.strongRecOn with
  | ind n ih =>
      rw [naturalText, Nat.toDigits_eq_if (by decide)]
      split
      · exact ⟨_, [], rfl, fun zero => positive.ne (Nat.digitChar_eq_zero.mp zero).symm⟩
      · obtain ⟨first, more, digits, nonzero⟩ := ih (n / 10) (by omega) (by omega)
        rw [naturalText] at digits
        exact ⟨first, _, by rw [digits, List.cons_append], nonzero⟩

theorem areWhole_naturalText (n : Nat) : Numeral.areWhole (naturalText n) = true := by
  rcases Nat.eq_zero_or_pos n with rfl | positive
  · rfl
  · obtain ⟨first, more, digits, nonzero⟩ := exists_naturalText_eq_cons positive
    rw [digits, Numeral.areWhole.eq_3 _ _ (by simp [nonzero])]
    exact bne_iff_ne.mpr nonzero

theorem isWhiteSpace_eq_false {c : Char} (above : 0x20 < c.toNat) (below : c.toNat < 0x85) :
    isWhiteSpace c = false := by
  rw [Bool.eq_false_iff]
  intro blank
  obtain ⟨range, member, least, greatest⟩ := CharRange.exists_of_covers blank
  simp only [whiteSpaceRanges, List.mem_toArray, List.mem_cons, List.not_mem_nil, or_false] at member
  rcases member with rfl | rfl | rfl | rfl | rfl | rfl | rfl | rfl | rfl | rfl <;>
    simp only at least greatest <;> omega

theorem isWhiteSpace_eq_false_of_isDigit {c : Char} (digit : c.isDigit = true) :
    isWhiteSpace c = false := by
  obtain ⟨least, greatest⟩ := Char.isDigit_iff_toNat.mp digit
  exact isWhiteSpace_eq_false (Nat.lt_of_lt_of_le (by decide) least)
    (Nat.lt_of_le_of_lt greatest (by decide))

theorem Text.trim_eq_self {blank : Char → Bool} {text : Text}
    (visible : ∀ c ∈ text, blank c = false) : text.trim blank = text := by
  have kept {part : Text} (inside : ∀ c ∈ part, c ∈ text) : part.dropWhile blank = part :=
    List.dropWhile_eq_self_iff.mpr fun _ => by
      simp [visible _ (inside _ (List.getElem_mem _))]
  rw [trim, kept fun _ member => member, kept fun _ member => List.mem_reverse.mp member,
    List.reverse_reverse]

/-! ### Reading -/

namespace NumeralRules

theorem asciiDigit?_of_isDigit {c : Char} (digit : c.isDigit = true) :
    asciiDigit? c = some (c.toNat - 48) := by
  have inside : '0' ≤ c ∧ c ≤ '9' := Char.isDigit_iff_toNat.mp digit
  rw [asciiDigit?, if_pos inside]

theorem digitRunFrom_digits {digits : Text} (allDigits : ∀ c ∈ digits, c.isDigit = true)
    (behindDigit : Bool) :
    document.digitRunFrom behindDigit digits = (digits.map fun c => c.toNat - 48, []) := by
  induction digits generalizing behindDigit with
  | nil => rfl
  | cons c rest ih =>
      obtain ⟨first, others⟩ := List.forall_mem_cons.mp allDigits
      have value : document.digit? c = some (c.toNat - 48) := asciiDigit?_of_isDigit first
      simp only [digitRunFrom, value, ih others, List.map_cons]

theorem ofDigits_map (digits : Text) :
    ofDigits (digits.map fun c => c.toNat - 48) = Nat.ofDigitChars 10 digits 0 := by
  rw [ofDigits, List.foldl_map]
  rfl

theorem takeSign_digits {digits : Text} (allDigits : ∀ c ∈ digits, c.isDigit = true) :
    takeSign digits = (false, digits) := by
  unfold takeSign
  split
  · exact absurd (allDigits '-' (.head _)) (by decide)
  · exact absurd (allDigits '+' (.head _)) (by decide)
  · rfl

/-- A text that is the digits of a number, once white space and a sign are off, is that number. -/
theorem integer?_of_takeSign {text : Text} {negative : Bool} {n : Nat}
    (signed : takeSign (text.trim isWhiteSpace) = (negative, naturalText n)) :
    document.integer? text = some (if negative then -(n : Int) else n) := by
  have run : document.digitRun (naturalText n) =
      ((naturalText n).map fun c => c.toNat - 48, []) :=
    digitRunFrom_digits (fun _ member => isDigit_of_mem_naturalText member) false
  have value : ofDigits ((naturalText n).map fun c => c.toNat - 48) = n :=
    (ofDigits_map _).trans Nat.ofDigitChars_ten_toDigits
  cases digits : (naturalText n).map fun c => c.toNat - 48 with
  | nil => exact absurd (List.map_eq_nil_iff.mp digits) Nat.toDigits_ne_nil
  | cons first more =>
      rw [digits] at run value
      simp only [integer?, signed, run, value]

theorem integer?_integerText (value : Int) : document.integer? (integerText value) = some value := by
  have digits (n : Nat) : ∀ c ∈ naturalText n, c.isDigit = true :=
    fun _ member => isDigit_of_mem_naturalText member
  have visible (n : Nat) : ∀ c ∈ naturalText n, isWhiteSpace c = false :=
    fun c member => isWhiteSpace_eq_false_of_isDigit (digits n c member)
  cases value with
  | ofNat n =>
      have signed : takeSign ((naturalText n).trim isWhiteSpace) = (false, naturalText n) := by
        rw [Text.trim_eq_self (visible n), takeSign_digits (digits n)]
      exact integer?_of_takeSign signed
  | negSucc n =>
      have minus : isWhiteSpace '-' = false := isWhiteSpace_eq_false (by decide) (by decide)
      have signed : takeSign (Text.trim isWhiteSpace ('-' :: naturalText (n + 1))) =
          (true, naturalText (n + 1)) := by
        rw [Text.trim_eq_self (List.forall_mem_cons.mpr ⟨minus, visible (n + 1)⟩), takeSign]
      exact integer?_of_takeSign signed

end NumeralRules

end Tessera
