import Tessera.Proofs.Document.ScalarReading

/-!
# Reading written documents

A document that is written in any layout and read again is the same, as long as the reader's limits
admit it, no object has two fields of one name, and it holds no real numbers.

The reader keeps its containers on a stack. A value leaves the stack as it was, and the value stands
where the reader expected one. A number has no mark at its end, so this is said about the reader in
front of whatever follows the value.
-/

set_option autoImplicit false

namespace Tessera

theorem isDigit_or_minus_of_mem_integerText {value : Int} {c : Char}
    (member : c ∈ integerText value) : c.isDigit = true ∨ c = '-' := by
  cases value with
  | ofNat n => exact .inl (isDigit_of_mem_naturalText member)
  | negSucc n =>
      rcases List.mem_cons.mp member with minus | digit
      · exact .inr minus
      · exact .inl (isDigit_of_mem_naturalText digit)

namespace Document

theorem setField_of_not_mem {key : String} {fields : List (String × Document)}
    (fresh : key ∉ fields.map Prod.fst) (value : Document) :
    setField key value fields = fields ++ [(key, value)] := by
  induction fields with
  | nil => rfl
  | cons field rest ih =>
      obtain ⟨other, elsewhere⟩ := not_or.mp (List.mem_cons.not.mp fresh)
      rw [setField, if_neg (Ne.symm other), ih elsewhere]
      rfl

/-! ## Limits -/

namespace Limits

/-- Whether there may be this many containers around a part. -/
def admits (limits : Limits) (containers : Nat) : Bool :=
  match limits.depth with
  | none => true
  | some depth => decide (containers ≤ depth)

theorem allowsInside_eq {α : Type} (limits : Limits) (containers : List α) :
    limits.allowsInside containers = limits.admits containers.length := by
  cases bound : limits.depth with
  | none => simp only [allowsInside, admits, bound]
  | some depth =>
      simp only [allowsInside, admits, bound]
      rw [Bool.eq_iff_iff, List.isEmpty_iff, List.drop_eq_nil_iff, decide_eq_true_iff]

theorem admits_zero (limits : Limits) : limits.admits 0 = true := by
  unfold admits
  split
  · rfl
  · exact decide_eq_true (Nat.zero_le _)

end Limits

/-- The documents that a reader takes when they stand inside `depth` containers and are written
without real numbers. -/
inductive Legible (limits : Limits) : Nat → Document → Prop
  | null {depth : Nat} : Legible limits depth .null
  | bool {depth : Nat} (value : Bool) : Legible limits depth (.bool value)
  | integer {depth : Nat} {value : Int}
      (short : limits.allowsWhole (naturalText value.natAbs) = true) :
      Legible limits depth (.integer value)
  | text {depth : Nat} (value : String) : Legible limits depth (.text value)
  | array {depth : Nat} {items : List Document}
      (room : items ≠ [] → limits.admits (depth + 1) = true)
      (legible : ∀ item ∈ items, Legible limits (depth + 1) item) :
      Legible limits depth (.array items)
  | object {depth : Nat} {fields : List (String × Document)}
      (distinct : (fields.map Prod.fst).Nodup)
      (room : fields ≠ [] → limits.admits (depth + 1) = true)
      (legible : ∀ field ∈ fields, Legible limits (depth + 1) field.2) :
      Legible limits depth (.object fields)

namespace Reader

variable {limits : Limits} {layout : Layout} {reader : Reader} {depth : Nat}

/-! ## Blanks -/

theorem readOn_blanks (between : reader.lexeme = .none) {blanks : Text}
    (blank : ∀ c ∈ blanks, isDocumentBlank c = true) (rest : Text) :
    readOn limits reader (blanks ++ rest) = readOn limits reader rest := by
  induction blanks with
  | nil => rfl
  | cons c more ih =>
      obtain ⟨first, others⟩ := List.forall_mem_cons.mp blank
      have skipped : step limits reader c = some reader := by
        simp only [step, between, stepOutside, first, if_true]
      rw [List.cons_append, readOn_cons skipped, ih others]

theorem readOn_space (between : reader.lexeme = .none) (rest : Text) :
    readOn limits reader (' ' :: rest) = readOn limits reader rest :=
  readOn_blanks between (List.forall_mem_singleton.mpr rfl) rest

theorem readOn_lineBreak (between : reader.lexeme = .none) (rest : Text) :
    readOn limits reader (lineBreak layout depth ++ rest) = readOn limits reader rest := by
  refine readOn_blanks between (fun c member => ?_) rest
  unfold lineBreak at member
  split at member
  · cases member
  · rcases List.mem_cons.mp member with rfl | space
    · rfl
    · rw [List.eq_of_mem_replicate space]
      rfl

/-! ## Values without marks at their ends -/

/-- Whether a value without a mark at its end is over in front of this text. -/
def EndsBare (text : Text) : Prop := ∀ c ∈ text.head?, isBareChar c = false

theorem EndsBare.of_cons {c : Char} {rest : Text} (other : isBareChar c = false) :
    EndsBare (c :: rest) := by
  rintro d ⟨⟩
  exact other

theorem EndsBare.lineBreak {rest : Text} (ends : EndsBare rest) :
    EndsBare (lineBreak layout depth ++ rest) := by
  unfold Document.lineBreak
  split
  · exact ends
  · exact .of_cons rfl

/-- Where a value goes depends on the open containers only. -/
theorem finishValue_congr {other : Reader} (frames : reader.frames = other.frames)
    (result : reader.result = other.result) (value : Document) :
    reader.finishValue value = other.finishValue value := by
  obtain ⟨containers, _, _, _⟩ := reader
  obtain ⟨_, _, _, _⟩ := other
  cases frames
  cases result
  rcases containers with _ | ⟨_ | _, _⟩ <;> rfl

theorem readOn_bareEnd {characters rest : Text} {value : Document}
    (meaning : bareValue? limits characters.reverse = some value) (ends : EndsBare rest) :
    readOn limits { reader with lexeme := .bare characters } rest =
      readOn limits (reader.finishValue value) rest := by
  have between : (reader.finishValue value).lexeme = .none := by
    unfold finishValue
    split <;> rfl
  have finished : finishBare limits { reader with lexeme := .bare characters } characters =
      some (reader.finishValue value) := by
    rw [finishBare, meaning, Option.map_some]
    exact congrArg some (finishValue_congr rfl rfl value)
  cases rest with
  | nil =>
      simp only [readOn, List.foldlM_nil, pure, Option.bind_some, finish, finished, between]
  | cons c more =>
      have other : isBareChar c = false := ends c rfl
      have same : step limits { reader with lexeme := .bare characters } c =
          step limits (reader.finishValue value) c := by
        simp only [step, other, finished, between, Option.bind_some, Bool.false_eq_true, if_false]
      simp only [readOn, List.foldlM_cons, same]

theorem readOn_bareChars {text : Text} (bare : ∀ c ∈ text, isBareChar c = true)
    (characters rest : Text) :
    readOn limits { reader with lexeme := .bare characters } (text ++ rest) =
      readOn limits { reader with lexeme := .bare (text.reverse ++ characters) } rest := by
  induction text generalizing characters with
  | nil => rfl
  | cons c more ih =>
      obtain ⟨first, others⟩ := List.forall_mem_cons.mp bare
      have taken : step limits { reader with lexeme := .bare characters } c =
          some { reader with lexeme := .bare (c :: characters) } := by
        simp only [step, first, if_true]
      rw [List.cons_append, readOn_cons taken, ih others, List.reverse_cons, List.append_assoc]
      rfl

/-- Whether a value may come next, inside `depth` containers. -/
structure Awaits (limits : Limits) (depth : Nat) (reader : Reader) : Prop where
  between : reader.lexeme = .none
  inside : reader.frames.length = depth
  admitted : limits.admits depth = true
  expected : reader.expectsValue = true

theorem Awaits.allowsInside (awaits : Awaits limits depth reader) :
    limits.allowsInside reader.frames = true := by
  rw [Limits.allowsInside_eq, awaits.inside, awaits.admitted]

theorem allowsInside_cons {outer : List Frame} (inside : outer.length = depth)
    (admitted : limits.admits (depth + 1) = true) (frame : Frame) :
    limits.allowsInside (frame :: outer) = true := by
  rw [Limits.allowsInside_eq, List.length_cons, inside, admitted]

theorem Awaits.step_bare (awaits : Awaits limits depth reader) {c : Char}
    (bare : isBareChar c = true) :
    step limits reader c = some { reader with lexeme := .bare [c] } := by
  have unlike (mark : Char) (other : isBareChar mark = false) : c ≠ mark := by
    rintro rfl
    exact absurd bare (by simp [other])
  have visible : isDocumentBlank c = false := by
    simp [isDocumentBlank, unlike ' ' rfl, unlike '\t' rfl, unlike '\n' rfl, unlike '\r' rfl]
  simp only [step, awaits.between, stepOutside, visible, unlike ']' rfl, unlike '\x7d' rfl,
    awaits.allowsInside, unlike '"' rfl, unlike '[' rfl, unlike '\x7b' rfl, unlike ',' rfl,
    unlike ':' rfl, bare, awaits.expected, Bool.false_eq_true, if_false, Bool.not_true,
    Bool.and_self, if_true]

theorem Awaits.readOn_bare (awaits : Awaits limits depth reader) {text rest : Text}
    {value : Document} (nonempty : text ≠ []) (bare : ∀ c ∈ text, isBareChar c = true)
    (meaning : bareValue? limits text = some value) (ends : EndsBare rest) :
    readOn limits reader (text ++ rest) = readOn limits (reader.finishValue value) rest := by
  cases text with
  | nil => exact absurd rfl nonempty
  | cons c more =>
      obtain ⟨first, others⟩ := List.forall_mem_cons.mp bare
      rw [List.cons_append, readOn_cons (awaits.step_bare first), readOn_bareChars others]
      exact readOn_bareEnd (by simpa using meaning) ends

/-! ## Integers -/

theorem number?_integerText {value : Int}
    (short : limits.allowsWhole (naturalText value.natAbs) = true) :
    number? limits (integerText value) = some (.integer value) := by
  have digits : ∀ c ∈ naturalText value.natAbs, c.isDigit = true :=
    fun _ member => isDigit_of_mem_naturalText member
  have unsigned : (Numeral.takeMinus (integerText value)).2 = naturalText value.natAbs := by
    cases value with
    | ofNat n =>
        unfold Numeral.takeMinus
        split
        case h_1 minus =>
          have inside : '-' ∈ integerText (.ofNat n) := by
            rw [minus]
            exact .head _
          exact absurd (digits '-' inside) (by decide)
        case h_2 => rfl
    | negSucc n => rfl
  have whole := List.takeWhile_eq_self_iff.mpr digits
  have nothing := List.dropWhile_eq_nil_iff.mpr digits
  simp only [number?, unsigned, whole, nothing, areWhole_naturalText, short, Bool.not_true,
    Bool.or_self, Bool.false_eq_true, if_false, NumeralRules.integer?_integerText, Option.map_some]

theorem bareValue?_integerText {value : Int}
    (short : limits.allowsWhole (naturalText value.natAbs) = true) :
    bareValue? limits (integerText value) = some (.integer value) := by
  have noWord {word : String} {c : Char} (inside : c ∈ word.toList)
      (other : ¬ (c.isDigit = true ∨ c = '-')) : String.ofList (integerText value) ≠ word := by
    rintro rfl
    rw [String.toList_ofList] at inside
    exact other (isDigit_or_minus_of_mem_integerText inside)
  unfold bareValue?
  split
  case h_1 word => exact absurd word (noWord (c := 'n') (by decide) (by decide))
  case h_2 word => exact absurd word (noWord (c := 't') (by decide) (by decide))
  case h_3 word => exact absurd word (noWord (c := 'f') (by decide) (by decide))
  case h_4 word => exact absurd word (noWord (c := 'N') (by decide) (by decide))
  case h_5 word => exact absurd word (noWord (c := 'I') (by decide) (by decide))
  case h_6 word => exact absurd word (noWord (c := 'I') (by decide) (by decide))
  case h_7 => rw [number?_integerText short]; rfl

/-! ## Containers -/

/-- Whether a value that is written inside `depth` containers is read as itself there. -/
def IsReadBack (limits : Limits) (layout : Layout) (depth : Nat) (value : Document) : Prop :=
  ∀ ⦃reader : Reader⦄ ⦃rest : Text⦄, Awaits limits depth reader → EndsBare rest →
    readOn limits reader (renderAt layout depth value ++ rest) =
      readOn limits (reader.finishValue value) rest

theorem EndsBare.renderItems {items : List Document} {rest : Text} (ends : EndsBare rest) :
    EndsBare (renderItems layout depth items ++ rest) := by
  cases items with
  | nil => exact ends
  | cons item more =>
      rw [Document.renderItems]
      exact .of_cons rfl

theorem EndsBare.renderFields {fields : List (String × Document)} {rest : Text}
    (ends : EndsBare rest) : EndsBare (renderFields layout depth fields ++ rest) := by
  cases fields with
  | nil => exact ends
  | cons field more =>
      rw [Document.renderFields]
      exact .of_cons rfl

theorem readOn_endOfArray {done : List Document} {expectation : Expectation}
    (expected : expectation = .itemOrEnd ∨ expectation = .separator) (rest : Text) :
    readOn limits ⟨.array done :: reader.frames, expectation, .none, reader.result⟩ (']' :: rest) =
      readOn limits (reader.finishValue (.array done.reverse)) rest := by
  have closed : step limits ⟨.array done :: reader.frames, expectation, .none, reader.result⟩ ']' =
      some (reader.finishValue (.array done.reverse)) := by
    rcases expected with rfl | rfl <;> exact congrArg some (finishValue_congr rfl rfl _)
  exact readOn_cons closed rest

theorem readOn_endOfObject {done : List (String × Document)} {last : String}
    {expectation : Expectation} (expected : expectation = .keyOrEnd ∨ expectation = .separator)
    (rest : Text) :
    readOn limits ⟨.object done last :: reader.frames, expectation, .none, reader.result⟩
        ('\x7d' :: rest) =
      readOn limits (reader.finishValue (.object done)) rest := by
  have closed : step limits
      ⟨.object done last :: reader.frames, expectation, .none, reader.result⟩ '\x7d' =
      some (reader.finishValue (.object done)) := by
    rcases expected with rfl | rfl <;> exact congrArg some (finishValue_congr rfl rfl _)
  exact readOn_cons closed rest

/-- The rest of an array, up to and with its end. -/
theorem readOn_items (inside : reader.frames.length = depth) {items : List Document}
    (room : items ≠ [] → limits.admits (depth + 1) = true)
    (readBack : ∀ item ∈ items, IsReadBack limits layout (depth + 1) item)
    (done : List Document) (rest : Text) :
    readOn limits ⟨.array done :: reader.frames, .separator, .none, reader.result⟩
        (renderItems layout (depth + 1) items ++ (lineBreak layout depth ++ ']' :: rest)) =
      readOn limits (reader.finishValue (.array (done.reverse ++ items))) rest := by
  induction items generalizing done with
  | nil =>
      rw [renderItems, List.nil_append, readOn_lineBreak rfl, List.append_nil]
      exact readOn_endOfArray (.inr rfl) rest
  | cons item more ih =>
      obtain ⟨first, others⟩ := List.forall_mem_cons.mp readBack
      have admitted := room (List.cons_ne_nil _ _)
      have awaits : Awaits limits (depth + 1)
          ⟨.array done :: reader.frames, .value, .none, reader.result⟩ :=
        ⟨rfl, congrArg (· + 1) inside, admitted, rfl⟩
      have allowed := allowsInside_cons inside admitted (.array done)
      have next : step limits ⟨.array done :: reader.frames, .separator, .none, reader.result⟩ ',' =
          some ⟨.array done :: reader.frames, .value, .none, reader.result⟩ := by
        simp [step, stepOutside, isDocumentBlank, allowed, nextPart]
      have ends : EndsBare (renderItems layout (depth + 1) more ++
          (lineBreak layout depth ++ ']' :: rest)) := (EndsBare.of_cons rfl).lineBreak.renderItems
      simp only [renderItems, List.cons_append, List.append_assoc]
      rw [readOn_cons next, readOn_lineBreak rfl, first awaits ends]
      refine (ih (fun _ => admitted) others (item :: done)).trans ?_
      rw [List.reverse_cons, List.append_assoc]
      rfl

/-- A field of an object, once its key may come. -/
theorem readOn_field (inside : reader.frames.length = depth)
    (admitted : limits.admits (depth + 1) = true) {key : String} {value : Document}
    (readBack : IsReadBack limits layout (depth + 1) value) {done : List (String × Document)}
    (fresh : key ∉ done.map Prod.fst) {last : String} {expectation : Expectation}
    (expected : expectation = .key ∨ expectation = .keyOrEnd) {rest : Text} (ends : EndsBare rest) :
    readOn limits ⟨.object done last :: reader.frames, expectation, .none, reader.result⟩
        (stringText layout.ascii key ++ (colonText layout ++
          (renderAt layout (depth + 1) value ++ rest))) =
      readOn limits
        ⟨.object (done ++ [(key, value)]) key :: reader.frames, .separator, .none, reader.result⟩
        rest := by
  have allowed := allowsInside_cons inside admitted
  have opened : step limits
      ⟨.object done last :: reader.frames, expectation, .none, reader.result⟩ '"' =
      some ⟨.object done last :: reader.frames, expectation, .string [] none, reader.result⟩ := by
    rcases expected with rfl | rfl <;> simp [step, stepOutside, isDocumentBlank, allowed]
  have named : finishString ⟨.object done last :: reader.frames, expectation,
      .string key.toList.reverse none, reader.result⟩ key.toList.reverse =
      some ⟨.object done key :: reader.frames, .colon, .none, reader.result⟩ := by
    rcases expected with rfl | rfl <;> simp [finishString, expectsValue]
  have colon : step limits ⟨.object done key :: reader.frames, .colon, .none, reader.result⟩ ':' =
      some ⟨.object done key :: reader.frames, .value, .none, reader.result⟩ := by
    simp [step, stepOutside, isDocumentBlank, allowed]
  have passed (text : Text) :
      readOn limits ⟨.object done key :: reader.frames, .colon, .none, reader.result⟩
          (colonText layout ++ text) =
        readOn limits ⟨.object done key :: reader.frames, .value, .none, reader.result⟩ text := by
    unfold colonText
    split
    · exact (readOn_cons colon _).trans (readOn_space rfl text)
    · exact readOn_cons colon text
  have awaits : Awaits limits (depth + 1)
      ⟨.object done key :: reader.frames, .value, .none, reader.result⟩ :=
    ⟨rfl, congrArg (· + 1) inside, admitted, rfl⟩
  have stored : finishValue ⟨.object done key :: reader.frames, .value, .none, reader.result⟩ value =
      ⟨.object (done ++ [(key, value)]) key :: reader.frames, .separator, .none,
        reader.result⟩ := by
    rw [← setField_of_not_mem fresh value]
    rfl
  rw [readOn_stringText opened named, passed, readBack awaits ends, stored]

/-- The rest of an object, up to and with its end. -/
theorem readOn_fields (inside : reader.frames.length = depth)
    {fields : List (String × Document)} (room : fields ≠ [] → limits.admits (depth + 1) = true)
    (readBack : ∀ field ∈ fields, IsReadBack limits layout (depth + 1) field.2)
    {done : List (String × Document)} (distinct : ((done ++ fields).map Prod.fst).Nodup)
    (last : String) (rest : Text) :
    readOn limits ⟨.object done last :: reader.frames, .separator, .none, reader.result⟩
        (renderFields layout (depth + 1) fields ++ (lineBreak layout depth ++ '\x7d' :: rest)) =
      readOn limits (reader.finishValue (.object (done ++ fields))) rest := by
  induction fields generalizing done last with
  | nil =>
      rw [renderFields, List.nil_append, readOn_lineBreak rfl, List.append_nil]
      exact readOn_endOfObject (.inr rfl) rest
  | cons field more ih =>
      obtain ⟨key, value⟩ := field
      have first : IsReadBack limits layout (depth + 1) value := readBack _ (.head _)
      have others := (List.forall_mem_cons.mp readBack).2
      have admitted := room (List.cons_ne_nil _ _)
      have allowed := allowsInside_cons inside admitted (.object done last)
      have next : step limits
          ⟨.object done last :: reader.frames, .separator, .none, reader.result⟩ ',' =
          some ⟨.object done last :: reader.frames, .key, .none, reader.result⟩ := by
        simp [step, stepOutside, isDocumentBlank, allowed, nextPart]
      have ends : EndsBare (renderFields layout (depth + 1) more ++
          (lineBreak layout depth ++ '\x7d' :: rest)) :=
        (EndsBare.of_cons rfl).lineBreak.renderFields
      have fresh : key ∉ done.map Prod.fst := by
        intro member
        rw [List.map_append] at distinct
        exact (List.nodup_append.mp distinct).2.2 key member key (.head _) rfl
      rw [List.append_cons] at distinct
      simp only [renderFields, List.cons_append, List.append_assoc]
      rw [readOn_cons next, readOn_lineBreak rfl,
        readOn_field inside admitted first fresh (.inl rfl) ends,
        List.append_cons done (key, value) more]
      exact ih (fun _ => admitted) others distinct key

theorem array_isReadBack {items : List Document}
    (room : items ≠ [] → limits.admits (depth + 1) = true)
    (readBack : ∀ item ∈ items, IsReadBack limits layout (depth + 1) item) :
    IsReadBack limits layout depth (.array items) := by
  intro reader rest awaits _
  have allowed := awaits.allowsInside
  have opened : step limits reader '[' =
      some ⟨.array [] :: reader.frames, .itemOrEnd, .none, reader.result⟩ := by
    simp [step, awaits.between, stepOutside, isDocumentBlank, allowed, openFrame, awaits.expected]
  cases items with
  | nil =>
      rw [renderAt, List.cons_append, readOn_cons opened]
      exact readOn_endOfArray (.inl rfl) rest
  | cons first more =>
      have admitted := room (List.cons_ne_nil _ _)
      have next : Awaits limits (depth + 1)
          ⟨.array [] :: reader.frames, .itemOrEnd, .none, reader.result⟩ :=
        ⟨rfl, congrArg (· + 1) awaits.inside, admitted, rfl⟩
      have ends : EndsBare (renderItems layout (depth + 1) more ++
          (lineBreak layout depth ++ ']' :: rest)) := (EndsBare.of_cons rfl).lineBreak.renderItems
      obtain ⟨readFirst, readOthers⟩ := List.forall_mem_cons.mp readBack
      simp only [renderAt, List.cons_append, List.append_assoc, List.nil_append]
      rw [readOn_cons opened, readOn_lineBreak rfl, readFirst next ends]
      exact readOn_items awaits.inside (fun _ => admitted) readOthers [first] rest

theorem object_isReadBack {fields : List (String × Document)}
    (distinct : (fields.map Prod.fst).Nodup)
    (room : fields ≠ [] → limits.admits (depth + 1) = true)
    (readBack : ∀ field ∈ fields, IsReadBack limits layout (depth + 1) field.2) :
    IsReadBack limits layout depth (.object fields) := by
  intro reader rest awaits _
  have allowed := awaits.allowsInside
  have opened : step limits reader '\x7b' =
      some ⟨.object [] "" :: reader.frames, .keyOrEnd, .none, reader.result⟩ := by
    simp [step, awaits.between, stepOutside, isDocumentBlank, allowed, openFrame, awaits.expected]
  cases fields with
  | nil =>
      rw [renderAt, List.cons_append, readOn_cons opened]
      exact readOn_endOfObject (.inl rfl) rest
  | cons field more =>
      obtain ⟨key, value⟩ := field
      have admitted := room (List.cons_ne_nil _ _)
      have ends : EndsBare (renderFields layout (depth + 1) more ++
          (lineBreak layout depth ++ '\x7d' :: rest)) :=
        (EndsBare.of_cons rfl).lineBreak.renderFields
      have readFirst : IsReadBack limits layout (depth + 1) value := readBack _ (.head _)
      have readOthers := (List.forall_mem_cons.mp readBack).2
      simp only [renderAt, List.cons_append, List.append_assoc, List.nil_append]
      rw [readOn_cons opened, readOn_lineBreak rfl, readOn_field awaits.inside admitted readFirst
        List.not_mem_nil (.inr rfl) ends]
      exact readOn_fields awaits.inside (fun _ => admitted) readOthers distinct key rest

end Reader

open Reader

/-- A legible document, in whatever place of a document it stands, is read as itself. -/
theorem Legible.isReadBack {limits : Limits} {depth : Nat} {document : Document}
    (legible : Legible limits depth document) (layout : Layout) :
    IsReadBack limits layout depth document := by
  induction legible with
  | null =>
      intro reader rest awaits ends
      rw [renderAt]
      exact awaits.readOn_bare (by decide) (List.all_eq_true.mp rfl) (by simp [bareValue?]) ends
  | bool value =>
      intro reader rest awaits ends
      rw [renderAt]
      cases value
      case false =>
        exact awaits.readOn_bare (by decide) (List.all_eq_true.mp rfl) (by simp [bareValue?]) ends
      case true =>
        exact awaits.readOn_bare (by decide) (List.all_eq_true.mp rfl) (by simp [bareValue?]) ends
  | @integer _ value short =>
      intro reader rest awaits ends
      have nonempty : integerText value ≠ [] := by
        cases value with
        | ofNat n => exact Nat.toDigits_ne_nil
        | negSucc n => exact List.cons_ne_nil _ _
      have bare : ∀ c ∈ integerText value, isBareChar c = true := by
        intro c member
        rcases isDigit_or_minus_of_mem_integerText member with digit | rfl
        · simp [isBareChar, Char.isAlphanum, digit]
        · rfl
      exact awaits.readOn_bare nonempty bare (bareValue?_integerText short) ends
  | text value =>
      intro reader rest awaits _
      have opened : step limits reader '"' = some { reader with lexeme := .string [] none } := by
        simp [step, awaits.between, stepOutside, isDocumentBlank, awaits.allowsInside,
          awaits.expected]
      have finished : finishString { reader with lexeme := .string value.toList.reverse none }
          value.toList.reverse = some (reader.finishValue (.text value)) := by
        have expected : expectsValue { reader with lexeme := .string value.toList.reverse none } =
            true := awaits.expected
        simp only [finishString, expected, if_true, List.reverse_reverse, String.ofList_toList]
        exact congrArg some (finishValue_congr rfl rfl _)
      exact readOn_stringText opened finished rest
  | array room _ ih => exact array_isReadBack room ih
  | object distinct room _ ih => exact object_isReadBack distinct room ih

/-- What a legible document is written as, in any layout, reads as that document. -/
theorem parse?_render {limits : Limits} {document : Document} (legible : Legible limits 0 document)
    (layout : Layout) : parse? limits (document.render layout) = some document := by
  have awaits : Awaits limits 0 .start := ⟨rfl, rfl, limits.admits_zero, rfl⟩
  have ends : EndsBare [] := fun _ impossible => nomatch impossible
  have readBack := legible.isReadBack layout awaits ends
  rw [List.append_nil] at readBack
  exact readBack

end Document

end Tessera
