import Tessera.Text.Basic
import Tessera.Vocabulary.Basic

/-!
# Looking for tokens in a text

The tokens that start at a place of a text are found by a trie. The special ones among them are looked for
in all of the text before.
-/

set_option autoImplicit false

/-! ## Tries

A trie holds texts with their ids and finds all of them that start at a place of a text in one walk.
The empty text is never held: it would match without taking a character. What the ids are is of no
concern to a trie.
-/

namespace Tessera

structure Match (ι : Type) where
  id : ι
  length : Nat
  text : Text
deriving DecidableEq

def Match.extent {ι : Type} (m : Match ι) : Int := m.length

namespace Trie

inductive Node (ι : Type) where
  /-- The ids of the texts that end here, latest first, and the ways to go on. -/
  | node (ids : List ι) (children : List (Char × Node ι))

namespace Node

variable {ι : Type}

def empty : Node ι := .node [] []

def ids : Node ι → List ι
  | .node ids _ => ids.reverse

def child? (c : Char) : Node ι → Option (Node ι)
  | .node _ children => children.lookup c

/-- Changes the way that goes on with a character, which need not be there yet. -/
def alter (c : Char) (change : Node ι → Node ι) : List (Char × Node ι) → List (Char × Node ι)
  | [] => [(c, change empty)]
  | (other, child) :: rest =>
    if other = c then (other, change child) :: rest else (other, child) :: alter c change rest

def insert (id : ι) : Text → Node ι → Node ι
  | [], .node ids children => .node (id :: ids) children
  | c :: rest, .node ids children => .node ids (alter c (insert id rest) children)

/-- Walks down along a text, of which `depth` characters have been taken, and gathers the texts that
end on the way. `whole` is the text from the start of the walk. -/
def matchesAlong (whole : Text) (depth : Nat) : Text → Node ι → List (Match ι)
  | [], _ => []
  | c :: rest, here =>
    match here.child? c with
    | none => []
    | some next =>
      next.ids.map (fun id => ⟨id, depth + 1, whole.take (depth + 1)⟩)
        ++ matchesAlong whole (depth + 1) rest next

def descend? : Text → Node ι → Option (Node ι)
  | [], here => some here
  | c :: rest, here => (here.child? c).bind (descend? rest)

end Node

end Trie

inductive OffsetFault where
  | outside
  | unindexable
deriving DecidableEq

def OffsetFault.message : OffsetFault → String
  | .outside => "string index out of range"
  | .unindexable => "cannot fit 'int' into an index-sized integer"

/-- No offset is further from the end of a text than this. -/
def offsetBound : Nat := Nat.pow 2 63

structure Trie (ι : Type) where
  root : Trie.Node ι
  maxDepth : Nat

namespace Trie

variable {ι : Type}

def empty : Trie ι := ⟨.empty, 0⟩

/-- Adds a text with its id, unless the text is empty. -/
def insert (trie : Trie ι) (text : Text) (id : ι) : Trie ι :=
  if text.isEmpty then trie else ⟨Node.insert id text trie.root, max trie.maxDepth text.length⟩

def insertAll (trie : Trie Nat) (id : Nat) : List Text → Trie Nat
  | [] => trie
  | text :: rest => insertAll (trie.insert text id) (id + 1) rest

def ofTokens (tokens : List Text) : Trie Nat := empty.insertAll 0 tokens

/-- Every held text that a text starts with, the shortest first, and equal ones in the order in which
they came. -/
def matchesOf (trie : Trie ι) (text : Text) : List (Match ι) := Node.matchesAlong text 0 text trie.root

def contains (trie : Trie ι) (text : Text) : Bool :=
  !text.isEmpty && (Node.descend? text trie.root).any fun found => !found.ids.isEmpty

/-- Every held text that starts at an offset. A negative offset counts from the end of the text, and
the walk goes on at the beginning of the text when it has reached the end; the text of a match is then
what stands between the two offsets, counted each from its own side, and nothing if they cross. An
offset before the beginning is a fault. -/
def matchesAt (trie : Trie ι) (text : Text) : Int → Except OffsetFault (List (Match ι))
  | .ofNat start => .ok (trie.matchesOf (text.drop start))
  | .negSucc back =>
    let fromEnd := back + 1
    if offsetBound < fromEnd then .error .unindexable
    else if text.length < fromEnd then .error .outside
    else
      let start := text.length - fromEnd
      let found := trie.matchesOf (text.drop start ++ text)
      .ok (found.map fun m =>
        let stop := if m.length < fromEnd then start + m.length else m.length - fromEnd
        { m with text := text.slice start stop })

end Trie

/-! ## Special texts

Before a text is tokenized it is cut into spans: the special texts that occur in it, and what stands
between them. Each special text is looked for on its own, from left to right without overlap. The
occurrences found are put in order and passed through once: where they overlap, the one that starts first
wins, and of those that start together the longest.
-/

abbrev SpecialIndex (ι : Type) := List (Text × ι)

namespace SpecialIndex

/-- Registers the text of an id, unless it is empty or already registered. -/
def register (vocabulary : Vocabulary) (index : SpecialIndex Nat) (id : Nat) : SpecialIndex Nat :=
  match vocabulary.tokens[id]? with
  | none => index
  | some text =>
    if text.isEmpty || (index.lookup text).isSome then index else index ++ [(text, id)]

/-- The special texts of a vocabulary; of several ids with one text the first counts. -/
def ofVocabulary (vocabulary : Vocabulary) : SpecialIndex Nat :=
  vocabulary.registeredIds.foldl (register vocabulary) []

variable {ι : Type}

/-- Sets the id of a text. A text that is already there keeps its place. -/
def set (text : Text) (id : ι) : SpecialIndex ι → SpecialIndex ι
  | [] => [(text, id)]
  | (other, old) :: rest =>
    if other = text then (other, id) :: rest else (other, old) :: set text id rest

end SpecialIndex

structure Segment (ι : Type) where
  text : Text
  start : Nat
  special : Option ι
deriving DecidableEq

variable {ι : Type}

namespace Segment

def stop (segment : Segment ι) : Nat := segment.start + segment.text.length

def isSpecial (segment : Segment ι) : Bool := segment.special.isSome

end Segment

/-- The offsets at which a needle occurs, from left to right without overlap. The first `covered`
characters belong to an occurrence that has been found. -/
def occurrencesFrom (needle : Text) (covered position : Nat) : Text → List Nat
  | [] => []
  | c :: rest =>
    match covered with
    | more + 1 => occurrencesFrom needle more (position + 1) rest
    | 0 =>
      if needle.isPrefixOf (c :: rest) then
        position :: occurrencesFrom needle (needle.length - 1) (position + 1) rest
      else occurrencesFrom needle 0 (position + 1) rest

def occurrences (needle text : Text) : List Nat := occurrencesFrom needle 0 0 text

/-- An occurrence of a special text, with the number of texts that were registered before that text. -/
structure Occurrence (ι : Type) where
  start : Nat
  order : Nat
  text : Text
  id : ι

namespace Occurrence

/-- Whether an occurrence is tried before another one, or is the same: it starts first, or with the other
and is longer, or is as long and of a text that was registered first. -/
def precedes (a b : Occurrence ι) : Bool :=
  decide (a.start < b.start ∨ a.start = b.start ∧
    (b.text.length < a.text.length ∨ a.text.length = b.text.length ∧ a.order ≤ b.order))

/-- Puts an occurrence in its place among others that are in order. -/
def insert (found : Occurrence ι) : List (Occurrence ι) → List (Occurrence ι)
  | [] => [found]
  | other :: rest =>
    if found.precedes other then found :: other :: rest else other :: insert found rest

def inOrder (found : List (Occurrence ι)) : List (Occurrence ι) := found.foldr insert []

end Occurrence

/-- What each special text is found at, one text after the other. -/
def SpecialIndex.occurrencesIn (index : SpecialIndex ι) (text : Text) : List (Occurrence ι) :=
  index.zipIdx.flatMap fun ((key, id), order) =>
    (occurrences key text).map fun start => ⟨start, order, key, id⟩

/-- The plain characters between two offsets, as a span; nothing if there are none. -/
def plainBetween (text : Text) (start stop : Nat) : List (Segment ι) :=
  if start < stop then [⟨text.slice start stop, start, none⟩] else []

/-- Passes through occurrences in order, behind what has been cut already. An occurrence that starts within
that is given up. -/
def cutFrom (text : Text) (cursor : Nat) : List (Occurrence ι) → List (Segment ι)
  | [] => plainBetween text cursor text.length
  | found :: rest =>
    if found.start < cursor then cutFrom text cursor rest
    else
      plainBetween text cursor found.start
        ++ ⟨found.text, found.start, some found.id⟩
        :: cutFrom text (found.start + found.text.length) rest

def SpecialIndex.split (index : SpecialIndex ι) (text : Text) : List (Segment ι) :=
  if text.isEmpty then []
  else if index.isEmpty then [⟨text, 0, none⟩]
  else cutFrom text 0 (Occurrence.inOrder (index.occurrencesIn text))

end Tessera
