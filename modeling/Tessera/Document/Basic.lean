import Tessera.Number.Basic

/-!
# Documents

The values of the JSON data format, their kinds, and how a record is read from one.
-/

set_option autoImplicit false

/-! ## Values

An object is a list of fields in order of appearance; a field that
is written again keeps its place and takes the new value.
-/

namespace Tessera

inductive Document where
  | null
  | bool (value : Bool)
  | number (value : Number)
  | text (value : String)
  | array (items : List Document)
  | object (fields : List (String × Document))
deriving Inhabited

namespace Document

def setField (key : String) (value : Document) :
    List (String × Document) → List (String × Document)
  | [] => [(key, value)]
  | (name, old) :: rest =>
    if name = key then (name, value) :: rest else (name, old) :: setField key value rest

def integer (value : Int) : Document := .number (.integer value)

def natural (value : Nat) : Document := .integer value

def real (value : Float) : Document := .number (.real value)

def ofText (value : Text) : Document := .text (String.ofList value)

def fields? : Document → Option (List (String × Document))
  | .object fields => some fields
  | _ => none

def field? (name : String) : Document → Option Document
  | .object fields => fields.lookup name
  | _ => none

/-! ### Reading a value of a known form -/

def text? : Document → Option String
  | .text value => some value
  | _ => none

def integer? : Document → Option Int
  | .number (.integer value) => some value
  | _ => none

/-- A number. Values that have no numeral are given by name. -/
def number? : Document → Option Number
  | .number value => some value
  | .text "nan" => some (.real (0 / 0))
  | .text "inf" => some (.real (Binary64.signed false Binary64.infinityBits))
  | .text "-inf" => some (.real (Binary64.signed true Binary64.infinityBits))
  | _ => none

def ifGiven? {α : Type} (read : Document → Option α) : Option Document → Option (Option α)
  | none => some none
  | some .null => some none
  | some document => (read document).map some

end Document

/-! ## Kinds and sameness of documents

Messages name the kind of a value. Two values are the same when they stand for the same thing: a truth
value counts as zero or one, numbers are compared by value, and the order of fields does not matter.
Where only a truth value matters, any value will do.
-/

namespace Number

def same : Number → Number → Bool
  | .integer a, .integer b => a = b
  | .real a, .real b => a == b
  | .integer a, .real b => integerValue? (.real b) = some a
  | .real a, .integer b => integerValue? (.real a) = some b

end Number

namespace Document

def kindName : Document → String
  | .null => "NoneType"
  | .bool _ => "bool"
  | .number (.integer _) => "int"
  | .number (.real _) => "float"
  | .text _ => "str"
  | .array _ => "list"
  | .object _ => "dict"

def numeric? : Document → Option Number
  | .bool value => some (.integer (if value then 1 else 0))
  | .number value => some value
  | _ => none

/-- Whether a value counts as true: null, zero and what is empty do not. -/
def isTruthy : Document → Bool
  | .null => false
  | .bool value => value
  | .number value => !value.same (.integer 0)
  | .text value => !value.isEmpty
  | .array items => !items.isEmpty
  | .object fields => !fields.isEmpty

def truth? (name : String) (document : Document) : Option Bool :=
  (document.field? name).map isTruthy

mutual

def same : Document → Document → Bool
  | .null, .null => true
  | .text a, .text b => a = b
  | .array a, .array b => sameItems a b
  | .object a, .object b => a.length = b.length && sameFields a b
  | a, b =>
    match a.numeric?, b.numeric? with
    | some x, some y => x.same y
    | _, _ => false

def sameItems : List Document → List Document → Bool
  | [], [] => true
  | a :: as, b :: bs => same a b && sameItems as bs
  | _, _ => false

/-- Whether every field of the first object is the same in the second. -/
def sameFields : List (String × Document) → List (String × Document) → Bool
  | [], _ => true
  | (key, value) :: rest, others =>
    (match others.lookup key with
      | some other => same value other
      | none => false) && sameFields rest others

end

end Document

/-! ## Records read from documents

A record is read field by field. Every field is read, whether another has failed or not, so a
rejection lists all faults, in the order of the fields.
-/

inductive Place where
  | field (name : String)
  | item (index : Nat)
deriving DecidableEq

inductive FaultCause where
  | missing
  | notText
  | notList
  | notInteger
  | fractional
  | notFinite
  | unreadableInteger
  | oversizedInteger
  | notReal
  | unreadableReal
  | notBool
  | unreadableBool
  | negative
  | notObject
  | unknownStrategy
  | notRecord (kind : String)
  | notObjectFile
  | malformed
  /-- The fields are valid one by one, but not together. -/
  | inconsistent (reason : String)
deriving DecidableEq

namespace FaultCause

def code : FaultCause → String
  | missing => "missing"
  | notText => "string_type"
  | notList => "list_type"
  | notInteger => "int_type"
  | fractional => "int_from_float"
  | notFinite => "finite_number"
  | unreadableInteger => "int_parsing"
  | oversizedInteger => "int_parsing_size"
  | notReal => "float_type"
  | unreadableReal => "float_parsing"
  | notBool => "bool_type"
  | unreadableBool => "bool_parsing"
  | negative => "greater_than_equal"
  | notObject => "dict_type"
  | unknownStrategy => "enum"
  | notRecord _ => "model_type"
  | notObjectFile => "model_type"
  | malformed => "json_invalid"
  | inconsistent _ => "value_error"

/-- The wording of a fault; that of a malformed file is left to its reader. -/
def message? : FaultCause → Option String
  | missing => some "Field required"
  | notText => some "Input should be a valid string"
  | notList => some "Input should be a valid list"
  | notInteger => some "Input should be a valid integer"
  | fractional => some "Input should be a valid integer, got a number with a fractional part"
  | notFinite => some "Input should be a finite number"
  | unreadableInteger =>
    some "Input should be a valid integer, unable to parse string as an integer"
  | oversizedInteger => some "Unable to parse input string as an integer, exceeded maximum size"
  | notReal => some "Input should be a valid number"
  | unreadableReal => some "Input should be a valid number, unable to parse string as a number"
  | notBool => some "Input should be a valid boolean"
  | unreadableBool => some "Input should be a valid boolean, unable to interpret input"
  | negative => some "Input should be greater than or equal to 0"
  | notObject => some "Input should be a valid dictionary"
  | unknownStrategy =>
    some "Input should be 'random', 'shortest', 'longest' or 'ideal-length'"
  | notRecord kind => some ("Input should be a valid dictionary or instance of " ++ kind)
  | notObjectFile => some "Input should be an object"
  | malformed => none
  | inconsistent reason => some ("Value error, " ++ reason)

end FaultCause

structure Fault where
  place : List Place
  cause : FaultCause
deriving DecidableEq

/-- A value read from a document, or every fault that stands in the way. -/
inductive Checked (α : Type) where
  | accepted (value : α)
  | rejected (faults : List Fault)

namespace Checked

def refuse {α : Type} (cause : FaultCause) : Checked α := .rejected [⟨[], cause⟩]

def map {α β : Type} (f : α → β) : Checked α → Checked β
  | .accepted value => .accepted (f value)
  | .rejected faults => .rejected faults

/-- Takes two readings together; the faults of both count. -/
def apply {α β : Type} (f : Checked (α → β)) (x : Checked α) : Checked β :=
  match f, x with
  | .accepted g, .accepted value => .accepted (g value)
  | .accepted _, .rejected faults => .rejected faults
  | .rejected faults, .accepted _ => .rejected faults
  | .rejected faults, .rejected others => .rejected (faults ++ others)

instance : Functor Checked where
  map := map

instance : Applicative Checked where
  pure := .accepted
  seq := fun f x => apply f (x ())

/-- Continues with an accepted value; a check on the whole record comes after those on its fields. -/
def andThen {α β : Type} (x : Checked α) (next : α → Checked β) : Checked β :=
  match x with
  | .accepted value => next value
  | .rejected faults => .rejected faults

def within {α : Type} (place : Place) : Checked α → Checked α
  | .accepted value => .accepted value
  | .rejected faults =>
    .rejected (faults.map fun fault => { fault with place := place :: fault.place })

def accepted? {α : Type} : Checked α → Option α
  | .accepted value => some value
  | .rejected _ => none

end Checked

namespace Document

def asText : Document → Checked Text
  | .text value => .accepted value.toList
  | _ => .refuse .notText

/-- The integers below this bound and above its negative fit a machine word. -/
def wordBound : Int := 9223372036854775808

/-- A real number without fraction is taken for an integer as long as it fits a machine word. -/
def integerOfReal (value : Float) : Checked Int :=
  match (Number.real value).integerValue? with
  | some whole =>
    if -wordBound < whole ∧ whole < wordBound then .accepted whole else .refuse .oversizedInteger
  | none => if value.isFinite then .refuse .fractional else .refuse .notFinite

/-- An integer: an exact one, a truth value, a real number without fraction, or a text of one. -/
def asInteger : Document → Checked Int
  | .number (.integer value) => .accepted value
  | .number (.real value) => integerOfReal value
  | .bool value => .accepted (if value then 1 else 0)
  | .text value =>
    match Numeral.readText value.toList with
    | .value parsed => .accepted parsed
    | .tooLong => .refuse .oversizedInteger
    | .unreadable => .refuse .unreadableInteger
  | _ => .refuse .notInteger

/-- A real number: a number within the range of those, a truth value, or a text of one. -/
def asReal : Document → Checked Float
  | .number value => if value.inRange then .accepted value.toFloat else .refuse .notReal
  | .bool value => .accepted (if value then 1 else 0)
  | .text value =>
    match Numeral.realOfText? value.toList with
    | some parsed => .accepted parsed
    | none => .refuse .unreadableReal
  | _ => .refuse .notReal

def truthWord? (word : String) : Option Bool :=
  if ["1", "t", "true", "y", "yes", "on"].contains word then some true
  else if ["0", "f", "false", "n", "no", "off"].contains word then some false
  else none

def truthOfInteger (value : Int) : Checked Bool :=
  if value = 0 then .accepted false
  else if value = 1 then .accepted true
  else if -wordBound ≤ value ∧ value < wordBound then .refuse .unreadableBool
  else .refuse .notBool

/-- A truth value: one, a word for one, or one of the numbers zero and one. -/
def asBool : Document → Checked Bool
  | .bool value => .accepted value
  | .text value =>
    match truthWord? (String.ofList (value.toList.map Char.toLower)) with
    | some truth => .accepted truth
    | none => .refuse .unreadableBool
  | .number (.integer value) => truthOfInteger value
  | .number (.real value) =>
    match (integerOfReal value).accepted? with
    | some whole => truthOfInteger whole
    | none => .refuse .notBool
  | _ => .refuse .notBool

def asNatural (document : Document) : Checked Nat :=
  document.asInteger.andThen fun value =>
    if value < 0 then .refuse .negative else .accepted value.toNat

def asItems {α : Type} (read : Document → Checked α) (index : Nat) :
    List Document → Checked (List α)
  | [] => .accepted []
  | item :: rest =>
    List.cons <$> (read item).within (.item index) <*> asItems read (index + 1) rest

def asList {α : Type} (read : Document → Checked α) : Document → Checked (List α)
  | .array items => asItems read 0 items
  | _ => .refuse .notList

def asOptional {α : Type} (read : Document → Checked α) : Document → Checked (Option α)
  | .null => .accepted none
  | document => some <$> read document

def required {α : Type} (fields : List (String × Document)) (name : String)
    (read : Document → Checked α) : Checked α :=
  (match fields.lookup name with
    | some value => read value
    | none => .refuse .missing).within (.field name)

def withDefault {α : Type} (fields : List (String × Document)) (name : String) (value : α)
    (read : Document → Checked α) : Checked α :=
  match fields.lookup name with
  | some document => (read document).within (.field name)
  | none => .accepted value

def asRecord {α : Type} (kind : String) (read : List (String × Document) → Checked α) :
    Document → Checked α
  | .object fields => read fields
  | _ => .refuse (.notRecord kind)

end Document

end Tessera
