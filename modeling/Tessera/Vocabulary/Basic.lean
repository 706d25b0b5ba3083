import Tessera.Document.Basic
import Tessera.Document.Json
import Tessera.Text.Basic

/-!
# Vocabularies

A vocabulary is a list of tokens, which is kept in a file as a record.
-/

set_option autoImplicit false

/-! ## Tokens and special ids

A vocabulary is a list of tokens; the place of a token in the list is its id. Some ids are special:
their texts are kept together when a text is tokenized.
-/

namespace Tessera

structure Vocabulary where
  tokens : Array Text
  merges : Option (List Text)
  bos : Option Nat
  eos : Option Nat
  modelType : Option Text
  specialIds : List Nat
  bos_lt_size : ∀ id ∈ bos, id < tokens.size
  eos_lt_size : ∀ id ∈ eos, id < tokens.size
  specialIds_lt_size : ∀ id ∈ specialIds, id < tokens.size
deriving DecidableEq

namespace Vocabulary

def size (vocabulary : Vocabulary) : Nat := vocabulary.tokens.size

def token? (vocabulary : Vocabulary) : Int → Option Text
  | .ofNat id => vocabulary.tokens[id]?
  | .negSucc _ => none

/-- The first id of a text. -/
def id? (vocabulary : Vocabulary) (text : Text) : Option Nat :=
  vocabulary.tokens.findIdx? (· = text)

/-- The special ids in order of registration: the listed ones, then the marks of beginning and end. -/
def registeredIds (vocabulary : Vocabulary) : List Nat :=
  vocabulary.specialIds ++ vocabulary.bos.toList ++ vocabulary.eos.toList

def isSpecial (vocabulary : Vocabulary) (id : Nat) : Bool := vocabulary.registeredIds.contains id

/-- The text of several ids; ids without a token contribute nothing. -/
def decode (vocabulary : Vocabulary) (ids : List Int) : Text :=
  ids.flatMap fun id => (vocabulary.token? id).getD []

end Vocabulary

end Tessera

/-! ## Vocabulary records

A vocabulary is kept in a file as a JSON object. Reading checks the fields and then that every id
belongs to a token; writing leaves out what is absent.
-/

namespace Tessera.Vocabulary

structure Fields where
  tokens : List Text
  merges : Option (List Text)
  bos : Option Int
  eos : Option Int
  modelType : Option Text
  specialIds : List Int

inductive Misfit where
  | bos (id : Int) (size : Nat)
  | eos (id : Int) (size : Nat)
  | special (id : Int) (size : Nat)

def Misfit.message : Misfit → String
  | .bos id size => "bos_token_id=" ++ outside id size
  | .eos id size => "eos_token_id=" ++ outside id size
  | .special id size => "special token id " ++ outside id size
where
  outside (id : Int) (size : Nat) : String :=
    String.ofList (integerText id) ++ " outside vocabulary of "
      ++ String.ofList (naturalText size) ++ " tokens"

def idBelow? (size : Nat) : Int → Option { id : Nat // id < size }
  | .ofNat id => if inside : id < size then some ⟨id, inside⟩ else none
  | .negSucc _ => none

def checkId (size : Nat) (misfit : Int → Misfit) :
    Option Int → Except Misfit { id : Option Nat // ∀ i ∈ id, i < size }
  | none => .ok ⟨none, by simp⟩
  | some id =>
    match idBelow? size id with
    | some ⟨id, inside⟩ => .ok ⟨some id, by simpa using inside⟩
    | none => .error (misfit id)

/-- Checks a list of ids; the first that is no id is at fault. -/
def checkIds (size : Nat) : List Int → Except Misfit { ids : List Nat // ∀ i ∈ ids, i < size }
  | [] => .ok ⟨[], by simp⟩
  | id :: rest =>
    match idBelow? size id with
    | none => .error (.special id size)
    | some ⟨id, inside⟩ =>
      match checkIds size rest with
      | .error misfit => .error misfit
      | .ok ⟨ids, allInside⟩ => .ok ⟨id :: ids, by simpa using ⟨inside, allInside⟩⟩

/-- Checks that the ids of a record belong to its tokens: the marks first, then the listed ids. -/
def ofFields (fields : Fields) : Except Misfit Vocabulary :=
  let tokens := fields.tokens.toArray
  match checkId tokens.size (.bos · tokens.size) fields.bos with
  | .error misfit => .error misfit
  | .ok ⟨bos, bosLt⟩ =>
    match checkId tokens.size (.eos · tokens.size) fields.eos with
    | .error misfit => .error misfit
    | .ok ⟨eos, eosLt⟩ =>
      match checkIds tokens.size fields.specialIds with
      | .error misfit => .error misfit
      | .ok ⟨specialIds, specialLt⟩ =>
        .ok ⟨tokens, fields.merges, bos, eos, fields.modelType, specialIds,
          bosLt, eosLt, specialLt⟩

def recordKind : String := "TokenizerVocabulary"

open Document in
def readFields (fields : List (String × Document)) : Checked Fields :=
  Fields.mk
    <$> required fields "tokens" (asList asText)
    <*> withDefault fields "merges" none (asOptional (asList asText))
    <*> withDefault fields "bos_token_id" none (asOptional asInteger)
    <*> withDefault fields "eos_token_id" none (asOptional asInteger)
    <*> withDefault fields "model_type" none (asOptional asText)
    <*> withDefault fields "special_token_ids" [] (asList asInteger)

def ofDocument (document : Document) : Checked Vocabulary :=
  (document.asRecord recordKind readFields).andThen fun fields =>
    match ofFields fields with
    | .ok vocabulary => .accepted vocabulary
    | .error misfit => .refuse (.inconsistent misfit.message)

def ofFileText (text : Text) : Checked Vocabulary :=
  match Document.parse? .file text with
  | none => .refuse .malformed
  | some document => if document.fields?.isSome then ofDocument document else .refuse .notObjectFile

def optionalField {α : Type} (name : String) (write : α → Document) :
    Option α → List (String × Document)
  | none => []
  | some value => [(name, write value)]

/-- The fields that a vocabulary is written with, those that are absent left out. -/
def savedFields (vocabulary : Vocabulary) : List (String × Document) :=
  [("tokens", .array (vocabulary.tokens.toList.map .ofText))]
    ++ optionalField "merges" (fun merges => .array (merges.map .ofText)) vocabulary.merges
    ++ optionalField "bos_token_id" .natural vocabulary.bos
    ++ optionalField "eos_token_id" .natural vocabulary.eos
    ++ optionalField "model_type" .ofText vocabulary.modelType
    ++ [("special_token_ids", .array (vocabulary.specialIds.map .natural))]

def toDocument (vocabulary : Vocabulary) : Document := .object vocabulary.savedFields

def fileText (vocabulary : Vocabulary) (indent : Option Nat) : Text :=
  vocabulary.toDocument.render (.ofIndent indent)

/-- What is in the file that a vocabulary is saved to. -/
def savedFile (vocabulary : Vocabulary) (indent : Option Nat) : ByteArray :=
  (String.ofList (vocabulary.fileText indent)).toUTF8

/-- The vocabulary in a file, unless the file holds no text. -/
def ofFile? (content : ByteArray) : Option (Checked Vocabulary) :=
  (String.fromUTF8? content).map fun text => ofFileText text.toList

end Tessera.Vocabulary
