import Tessera.Compression.Basic

/-!
# Selective compression

A text is cut into spans with strategies of their own; what lies between the spans is compressed under
a common strategy. One source is used all the way, from left to right.
-/

set_option autoImplicit false

namespace Tessera

structure Span where
  start : Nat
  stop : Nat
  strategy : Strategy
  idealLength : Float
  start_le_stop : start ≤ stop

namespace Span

/-- The fields of a record, before the offsets are compared. -/
structure Fields where
  start : Nat
  stop : Nat
  strategy : Strategy
  idealLength : Float

def recordKind : String := "SelectiveSegment"

def readStrategy : Document → Checked Strategy
  | .text name =>
    match Strategy.ofName? name with
    | some strategy => .accepted strategy
    | none => .refuse .unknownStrategy
  | _ => .refuse .unknownStrategy

def readLength (document : Document) : Checked Float :=
  document.asReal.andThen fun value => if 0 ≤ value then .accepted value else .refuse .negative

def disorder (start stop : Nat) : String :=
  "segment end " ++ String.ofList (naturalText stop) ++ " before start "
    ++ String.ofList (naturalText start)

open Document in
def ofDocument (document : Document) : Checked Span :=
  (document.asRecord recordKind fun fields =>
    Fields.mk
      <$> required fields "start" asNatural
      <*> required fields "end" asNatural
      <*> required fields "strategy" readStrategy
      <*> withDefault fields "ideal_length" Tokenizer.Options.defaultIdealLength.toFloat readLength).andThen
    fun fields =>
      if ordered : fields.start ≤ fields.stop then
        .accepted ⟨fields.start, fields.stop, fields.strategy, fields.idealLength, ordered⟩
      else .refuse (.inconsistent (disorder fields.start fields.stop))

def options (span : Span) : Tokenizer.Options :=
  { Tokenizer.Options.ofStrategy span.strategy with idealLength := .real span.idealLength }

/-- Spans by their starts; spans that start together keep their order. -/
def inOrder (spans : List Span) : List Span :=
  spans.mergeSort fun a b => decide (a.start ≤ b.start)

/-- Reads records one by one, up to the first that is refused. -/
def ofDocuments : List Document → Except Failure (List Span)
  | [] => .ok []
  | document :: rest =>
    match ofDocument document with
    | .rejected faults => .error (.badRecord faults)
    | .accepted span => (ofDocuments rest).map (span :: ·)

end Span

namespace Tokenizer

variable {σ : Type} [RandomSource σ]

def idsBetween (tokenizer : Tokenizer) (options : Options) (text : Text) (start stop : Nat) :
    Call σ (List Nat) := do
  return (← tokenizer.tokenizeHere options (text.slice start stop)).ids

/-- The ids of a text from an offset on, with the spans from there in order of their starts. An empty
part between spans is passed over. -/
def idsFrom (tokenizer : Tokenizer) (common : Options) (text : Text) (reached : Nat) :
    List Span → Call σ (List Nat)
  | [] =>
    if reached < text.length then tokenizer.idsBetween common text reached text.length else pure []
  | span :: rest => do
    if span.start < reached then throw (.overlap span.start span.stop)
    if text.length < span.stop then throw (.beyondEnd span.start span.stop text.length)
    let before ←
      if reached < span.start then tokenizer.idsBetween common text reached span.start
      else pure []
    let within ← tokenizer.idsBetween span.options text span.start span.stop
    return before ++ within ++ (← idsFrom tokenizer common text span.stop rest)

/-- Compresses the spans of a text as they say, and the rest under a common strategy, given by its
name. -/
def compressSelectively (tokenizer : Tokenizer) (text : Text) (spans : List Span)
    (strategy : String) (seed : Option Int) (supply : Supply σ) : Call σ Compressed := do
  let common ← Call.ofOptions (Options.default.override
    { Options.Overrides.none with strategy := some strategy })
  Call.start supply seed
  let ids ← tokenizer.idsFrom common text 0 (Span.inOrder spans)
  return tokenizer.compressed text ids

end Tokenizer

end Tessera
