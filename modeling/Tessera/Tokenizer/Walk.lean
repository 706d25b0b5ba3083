import Tessera.Tokenizer.Options
import Tessera.Vocabulary.Lookup

/-!
# Walks through a text

A tokenizer walks through a text from left to right and selects one of the matching tokens wherever it
comes to. It does not look ahead and takes no step back. What it does is recorded as a list of
decisions, from which the ids, the characters left out and the messages follow.
-/

set_option autoImplicit false

namespace Tessera

structure Tokenizer where
  vocabulary : Vocabulary
  trie : Trie Nat
  trie_eq : trie = Trie.ofTokens vocabulary.tokens.toList
  special : SpecialIndex Nat
  special_eq : special = SpecialIndex.ofVocabulary vocabulary

namespace Tokenizer

def ofVocabulary (vocabulary : Vocabulary) : Tokenizer where
  vocabulary := vocabulary
  trie := Trie.ofTokens vocabulary.tokens.toList
  trie_eq := rfl
  special := SpecialIndex.ofVocabulary vocabulary
  special_eq := rfl

inductive Decision where
  | emit (position : Nat) (token : Match Nat)
  | preserve (position : Nat) (id : Nat)
  | skip (position : Nat) (character : Char)
deriving DecidableEq

namespace Decision

def id? : Decision → Option Nat
  | .emit _ token => some token.id
  | .preserve _ id => some id
  | .skip _ _ => none

def isEmit : Decision → Bool
  | .emit _ _ => true
  | _ => false

def skipped? : Decision → Option Nat
  | .skip position _ => some position
  | _ => none

end Decision

/-- A walk: what was done, where it stopped short, if it did, and the state of the source then. -/
structure Walk (σ : Type) where
  decisions : List Decision
  uncovered : Option (Nat × Char)
  source : σ

namespace Walk

variable {σ : Type}

def after (decision : Decision) (walk : Walk σ) : Walk σ :=
  { walk with decisions := decision :: walk.decisions }

def ids (walk : Walk σ) : List Nat := walk.decisions.filterMap Decision.id?

def skipped (walk : Walk σ) : List Nat := walk.decisions.filterMap Decision.skipped?

def beforeSelection (walk : Walk σ) : List Decision :=
  walk.decisions.takeWhile fun decision => !decision.isEmit

end Walk

/-- Walks along a span. `choose` selects a token among those that start a text. The next `covered`
characters belong to the token selected last. Where there is nothing to select, a strict walk stops,
and any other leaves the character out. -/
def Walk.along {σ : Type} (choose : Text → σ → Option (Match Nat × σ)) (strict : Bool) :
    (covered position : Nat) → Text → σ → Walk σ
  | _, _, [], source => ⟨[], none, source⟩
  | covered + 1, position, _ :: rest, source =>
    along choose strict covered (position + 1) rest source
  | 0, position, c :: rest, source =>
    match choose (c :: rest) source with
    | some (token, next) =>
      (along choose strict (token.length - 1) (position + 1) rest next).after (.emit position token)
    | none =>
      if strict then ⟨[], some (position, c), source⟩
      else (along choose strict 0 (position + 1) rest source).after (.skip position c)

/-- The matches that are in play: with special texts not preserved, those of special ids only if there
are no others. -/
def eligible (tokenizer : Tokenizer) (options : Options) (candidates : List (Match Nat)) :
    List (Match Nat) :=
  if options.preserveSpecial then candidates
  else
    let plain := candidates.filter fun m => !tokenizer.vocabulary.isSpecial m.id
    if plain.isEmpty then candidates else plain

variable {σ : Type} [RandomSource σ]

def choose (tokenizer : Tokenizer) (options : Options) (text : Text) (source : σ) :
    Option (Match Nat × σ) :=
  Selection.select options.strategy options.idealLength.toFloat Match.extent
    (tokenizer.eligible options (tokenizer.trie.matchesOf text)) source

def walkSegments (tokenizer : Tokenizer) (options : Options) :
    List (Segment Nat) → σ → Walk σ
  | [], source => ⟨[], none, source⟩
  | segment :: rest, source =>
    match segment.special with
    | some id => (walkSegments tokenizer options rest source).after (.preserve segment.start id)
    | none =>
      let walk := Walk.along (tokenizer.choose options) options.strict 0 segment.start segment.text
        source
      match walk.uncovered with
      | some _ => walk
      | none =>
        let others := walkSegments tokenizer options rest walk.source
        { others with decisions := walk.decisions ++ others.decisions }

/-- The spans of a text: cut at the special texts if those are preserved. -/
def segments (tokenizer : Tokenizer) (options : Options) (text : Text) : List (Segment Nat) :=
  SpecialIndex.split (if options.preserveSpecial then tokenizer.special else []) text

def walk (tokenizer : Tokenizer) (options : Options) (text : Text) (source : σ) : Walk σ :=
  walkSegments tokenizer options (tokenizer.segments options text) source

end Tokenizer

end Tessera
