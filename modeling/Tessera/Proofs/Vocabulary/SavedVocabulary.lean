import Mathlib
import Tessera.Proofs.Document.RoundTrip
import Tessera.Vocabulary.Basic

/-!
# Saved vocabularies

A vocabulary that is saved and loaded again is the same. Its file is read as the document that was
written, the fields of that document as those of the vocabulary, and their ids still belong to its
tokens.
-/

set_option autoImplicit false

namespace Tessera

namespace Document

variable {α β : Type} {read : Document → Checked α} {write : β → Document} {meaning : β → α}

theorem asItems_map (inverse : ∀ value, read (write value) = .accepted (meaning value))
    (index : Nat) (values : List β) :
    asItems read index (values.map write) = .accepted (values.map meaning) := by
  induction values generalizing index with
  | nil => rfl
  | cons value rest ih =>
      rw [List.map_cons, asItems, inverse, ih]
      rfl

theorem asList_map (inverse : ∀ value, read (write value) = .accepted (meaning value))
    (values : List β) :
    asList read (.array (values.map write)) = .accepted (values.map meaning) :=
  asItems_map inverse 0 values

theorem required_of_lookup {fields : List (String × Document)} {name : String}
    {document : Document} {value : α} (found : fields.lookup name = some document)
    (accepted : read document = .accepted value) : required fields name read = .accepted value := by
  simp only [required, found, accepted]
  rfl

theorem withDefault_of_lookup {fields : List (String × Document)} {name : String}
    {document : Document} {default value : α} (found : fields.lookup name = some document)
    (accepted : read document = .accepted value) :
    withDefault fields name default read = .accepted value := by
  simp only [withDefault, found, accepted]
  rfl

theorem withDefault_asOptional (inverse : ∀ value, read (write value) = .accepted (meaning value))
    (visible : ∀ value, write value ≠ .null) {fields : List (String × Document)} {name : String}
    {given : Option β} (found : fields.lookup name = given.map write) :
    withDefault fields name none (asOptional read) = .accepted (given.map meaning) := by
  cases given with
  | none => rw [withDefault, found, Option.map_none, Option.map_none]
  | some value =>
      have present : asOptional read (write value) = some <$> read (write value) :=
        asOptional.eq_2 read _ (visible value)
      refine withDefault_of_lookup found ?_
      rw [present, inverse]
      rfl

theorem asText_ofText (text : Text) : asText (.ofText text) = .accepted (id text) :=
  congrArg Checked.accepted String.toList_ofList

theorem asList_ofTexts (texts : List Text) :
    asList asText (.array (texts.map .ofText)) = .accepted (id texts) := by
  rw [asList_map asText_ofText, List.map_id, id]

theorem asInteger_natural (value : Nat) : asInteger (.natural value) = .accepted (value : Int) := rfl

end Document

namespace Vocabulary

open Document

/-- The fields of a vocabulary as they are read, before its ids are checked. -/
def toFields (vocabulary : Vocabulary) : Fields :=
  ⟨vocabulary.tokens.toList, vocabulary.merges, vocabulary.bos.map Int.ofNat,
    vocabulary.eos.map Int.ofNat, vocabulary.modelType, vocabulary.specialIds.map Int.ofNat⟩

/-! ## Fields -/

theorem lookup_optionalField {α : Type} (name key : String) (write : α → Document)
    (given : Option α) :
    (optionalField name write given).lookup key = if key = name then given.map write else none := by
  cases given with
  | none => simp [optionalField]
  | some value =>
      rw [optionalField, List.lookup_cons, List.lookup_nil, Option.map_some]
      by_cases same : key = name
      · rw [if_pos same, beq_iff_eq.mpr same]
      · rw [if_neg same, beq_eq_false_iff_ne.mpr same]

theorem readFields_savedFields (vocabulary : Vocabulary) :
    readFields vocabulary.savedFields = .accepted vocabulary.toFields := by
  have tokens : vocabulary.savedFields.lookup "tokens" =
      some (.array (vocabulary.tokens.toList.map .ofText)) := rfl
  have merges : vocabulary.savedFields.lookup "merges" =
      vocabulary.merges.map fun merges => .array (merges.map .ofText) := by
    simp [savedFields, List.lookup_append, List.lookup_cons, lookup_optionalField]
  have bos : vocabulary.savedFields.lookup "bos_token_id" = vocabulary.bos.map .natural := by
    simp [savedFields, List.lookup_append, List.lookup_cons, lookup_optionalField]
  have eos : vocabulary.savedFields.lookup "eos_token_id" = vocabulary.eos.map .natural := by
    simp [savedFields, List.lookup_append, List.lookup_cons, lookup_optionalField]
  have modelType : vocabulary.savedFields.lookup "model_type" =
      vocabulary.modelType.map .ofText := by
    simp [savedFields, List.lookup_append, List.lookup_cons, lookup_optionalField]
  have specialIds : vocabulary.savedFields.lookup "special_token_ids" =
      some (.array (vocabulary.specialIds.map .natural)) := by
    simp [savedFields, List.lookup_append, List.lookup_cons, lookup_optionalField]
  rw [readFields, required_of_lookup tokens (asList_ofTexts _),
    withDefault_asOptional asList_ofTexts (fun _ => nofun) merges,
    withDefault_asOptional asInteger_natural (fun _ => nofun) bos,
    withDefault_asOptional asInteger_natural (fun _ => nofun) eos,
    withDefault_asOptional asText_ofText (fun _ => nofun) modelType,
    withDefault_of_lookup specialIds (asList_map asInteger_natural _), Option.map_id, Option.map_id]
  rfl

/-! ## Ids -/

theorem idBelow?_ofNat {size id : Nat} (inside : id < size) :
    idBelow? size (Int.ofNat id) = some ⟨id, inside⟩ := dif_pos inside

theorem checkId_ofNat {size : Nat} {misfit : Int → Misfit} {id : Option Nat}
    (inside : ∀ i ∈ id, i < size) :
    checkId size misfit (id.map Int.ofNat) = .ok ⟨id, inside⟩ := by
  cases id with
  | none => rfl
  | some id => rw [Option.map_some, checkId, idBelow?_ofNat (inside id rfl)]

theorem checkIds_ofNat {size : Nat} {ids : List Nat} (inside : ∀ i ∈ ids, i < size) :
    checkIds size (ids.map Int.ofNat) = .ok ⟨ids, inside⟩ := by
  induction ids with
  | nil => rfl
  | cons id rest ih =>
      obtain ⟨first, others⟩ := List.forall_mem_cons.mp inside
      rw [List.map_cons, checkIds, idBelow?_ofNat first]
      simp only [ih others]

theorem ofFields_toFields (vocabulary : Vocabulary) :
    ofFields vocabulary.toFields = .ok vocabulary := by
  obtain ⟨⟨tokens⟩, merges, bos, eos, modelType, specialIds, bosLt, eosLt, specialLt⟩ :=
    vocabulary
  simp only [ofFields, toFields, checkId_ofNat bosLt, checkId_ofNat eosLt,
    checkIds_ofNat specialLt]

/-- A vocabulary is read from its own document. -/
theorem ofDocument_toDocument (vocabulary : Vocabulary) :
    ofDocument vocabulary.toDocument = .accepted vocabulary := by
  rw [toDocument, ofDocument, asRecord, readFields_savedFields, Checked.andThen, ofFields_toFields]

/-! ## Files -/

theorem legible_texts {depth : Nat} (room : Limits.file.admits (depth + 1) = true)
    (texts : List Text) : Legible .file depth (.array (texts.map .ofText)) := by
  refine .array (fun _ => room) fun item member => ?_
  obtain ⟨text, _, rfl⟩ := List.mem_map.mp member
  exact .text _

theorem legible_natural {depth value : Nat} (small : value < 10 ^ Numeral.sizeLimit) :
    Legible .file depth (.natural value) :=
  .integer (decide_eq_true ((Nat.length_toDigits_le_iff (by decide) (by decide)).mpr small))

theorem nodup_savedFields (vocabulary : Vocabulary) :
    (vocabulary.savedFields.map Prod.fst).Nodup := by
  have alone {α : Type} (name : String) (write : α → Document) (given : Option α) :
      ((optionalField name write given).map Prod.fst).Sublist [name] := by
    cases given with
    | none => exact List.nil_sublist _
    | some value => exact List.Sublist.refl _
  have names : (vocabulary.savedFields.map Prod.fst).Sublist
      (["tokens"] ++ ["merges"] ++ ["bos_token_id"] ++ ["eos_token_id"] ++ ["model_type"]
        ++ ["special_token_ids"]) := by
    simp only [savedFields, List.map_append]
    exact (((((List.Sublist.refl _).append (alone _ _ _)).append (alone _ _ _)).append
      (alone _ _ _)).append (alone _ _ _)).append (List.Sublist.refl _)
  exact names.nodup (by decide)

theorem forall_mem_optionalField {α : Type} {admits : Document → Prop} {name : String}
    {write : α → Document} {given : Option α} (each : ∀ value ∈ given, admits (write value)) :
    ∀ field ∈ optionalField name write given, admits field.2 := by
  cases given with
  | none => exact List.forall_mem_nil _
  | some value => exact List.forall_mem_singleton.mpr (each value rfl)

theorem legible_toDocument {vocabulary : Vocabulary}
    (size : vocabulary.size ≤ 10 ^ Numeral.sizeLimit) :
    Legible .file 0 vocabulary.toDocument := by
  have legibleId {depth id : Nat} (inside : id < vocabulary.tokens.size) :
      Legible .file depth (.natural id) := legible_natural (Nat.lt_of_lt_of_le inside size)
  have specialIds : Legible .file 1 (.array (vocabulary.specialIds.map .natural)) := by
    refine .array (fun _ => rfl) fun item member => ?_
    obtain ⟨id, listed, rfl⟩ := List.mem_map.mp member
    exact legibleId (vocabulary.specialIds_lt_size id listed)
  refine .object vocabulary.nodup_savedFields (fun _ => rfl) ?_
  simp only [savedFields, List.forall_mem_append, List.forall_mem_singleton]
  exact ⟨⟨⟨⟨⟨legible_texts rfl _, forall_mem_optionalField fun merges _ => legible_texts rfl merges⟩,
    forall_mem_optionalField fun id given => legibleId (vocabulary.bos_lt_size id given)⟩,
    forall_mem_optionalField fun id given => legibleId (vocabulary.eos_lt_size id given)⟩,
    forall_mem_optionalField fun _ _ => .text _⟩, specialIds⟩

theorem ofFileText_fileText {vocabulary : Vocabulary}
    (size : vocabulary.size ≤ 10 ^ Numeral.sizeLimit) (indent : Option Nat) :
    ofFileText (vocabulary.fileText indent) = .accepted vocabulary := by
  have parsed : parse? .file (vocabulary.fileText indent) = some vocabulary.toDocument :=
    parse?_render (legible_toDocument size) (.ofIndent indent)
  have isObject : vocabulary.toDocument.fields?.isSome = true := rfl
  rw [ofFileText, parsed]
  simp only [isObject, if_true, ofDocument_toDocument]

theorem ofFile?_toUTF8 (text : String) : ofFile? text.toUTF8 = some (ofFileText text.toList) := by
  have decoded : String.fromUTF8? text.toUTF8 = some text := dif_pos text.isValidUTF8
  rw [ofFile?, decoded, Option.map_some]

/-- A saved vocabulary is loaded as it was, whatever its texts are, whichever fields it has and however
its file is indented. The bound on its tokens keeps the ids within the digits that a reader takes. -/
theorem ofFile?_savedFile (vocabulary : Vocabulary) (indent : Option Nat)
    (size : vocabulary.size ≤ 10 ^ Numeral.sizeLimit) :
    ofFile? (vocabulary.savedFile indent) = some (.accepted vocabulary) := by
  rw [savedFile, ofFile?_toUTF8, String.toList_ofList, ofFileText_fileText size]

/-- Quotation marks, backslashes, control characters, characters outside ASCII and texts without
characters, and only some of the fields. -/
theorem ofFile?_savedFile_of_escapes :
    let vocabulary : Vocabulary := {
      tokens := #["<s>".toList, [], ['"', '\\', '/'], ['\x00', '\n', '\x1f', '\x7f'], ['é', '😀']]
      merges := some [[], ['\t']]
      bos := some 0
      eos := none
      modelType := some ['\'']
      specialIds := [4, 1, 4]
      bos_lt_size := by decide
      eos_lt_size := by decide
      specialIds_lt_size := by decide }
    vocabulary.size ≤ 10 ^ Numeral.sizeLimit ∧
      ofFile? (vocabulary.savedFile none) = some (.accepted vocabulary) ∧
      ofFile? (vocabulary.savedFile (some 2)) = some (.accepted vocabulary) := by
  intro vocabulary
  have size : vocabulary.size ≤ 10 ^ Numeral.sizeLimit :=
    Nat.le_trans (by decide : vocabulary.size ≤ 10 ^ 1)
      (Nat.pow_le_pow_right (by decide) (by decide))
  exact ⟨size, ofFile?_savedFile vocabulary none size, ofFile?_savedFile vocabulary (some 2) size⟩

end Vocabulary

end Tessera
