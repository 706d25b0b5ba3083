import Tessera.Order.PartitionPoint

/-!
# Random numbers

Where random numbers come from, and how one is made to choose an index by weight.
-/

set_option autoImplicit false

/-! ## Sources of random numbers

A source gives random numbers and the state that it is in afterwards. Nothing is assumed of how the
numbers are distributed.
-/

namespace Tessera

class RandomSource (σ : Type) where
  /-- A real number, meant to be at least zero and below one. -/
  fraction : σ → Float × σ
  below : (bound : Nat) → 0 < bound → σ → Fin bound × σ

inductive Request where
  | fraction
  | below (bound : Nat)
deriving DecidableEq

structure Recorded (σ : Type) where
  source : σ
  /-- The requests, latest first. -/
  requests : List Request

namespace Recorded

variable {σ : Type}

def fresh (source : σ) : Recorded σ := ⟨source, []⟩

instance [RandomSource σ] : RandomSource (Recorded σ) where
  fraction recorded :=
    let (value, source) := RandomSource.fraction recorded.source
    (value, ⟨source, .fraction :: recorded.requests⟩)
  below bound positive recorded :=
    let (value, source) := RandomSource.below bound positive recorded.source
    (value, ⟨source, .below bound :: recorded.requests⟩)

end Recorded

instance {σ τ : Type} [RandomSource σ] [RandomSource τ] : RandomSource (σ ⊕ τ) where
  fraction
    | .inl source => (RandomSource.fraction source).map id .inl
    | .inr source => (RandomSource.fraction source).map id .inr
  below bound positive
    | .inl source => (RandomSource.below bound positive source).map id .inl
    | .inr source => (RandomSource.below bound positive source).map id .inr

inductive Supply (σ : Type) where
  | current
  /-- From a new source, which is made for a seed, or for none, if one can be made; what the last call
  left is known to the maker. -/
  | starting (start? : Option Int → σ → Option σ)

namespace Supply

variable {σ : Type}

def begin? (supply : Supply σ) (seed : Option Int) (source : σ) : Option σ :=
  match supply with
  | .current => some source
  | .starting start? => start? seed source

end Supply

/-! ## Seeded generators

A permuted congruential generator with a state of 128 bits. A seed of any size is first mixed into a
pool of four words, from which the state and the increment are drawn; so close seeds give unrelated
generators.
-/

/-! ### Mixing a seed -/

namespace Seed

/-- A pool of words, and the factor for the next word to be hashed. -/
structure Mixer where
  pool : Array UInt32
  factor : UInt32

def words (seed : Nat) : List UInt32 :=
  (List.range (seed.log2 / 32 + 1)).map fun i => UInt32.ofNat (seed / Nat.pow 2 (32 * i))

def hash (factor word : UInt32) : UInt32 × UInt32 :=
  let next := factor * 0x931E8875
  let scrambled := (word ^^^ factor) * next
  (scrambled ^^^ (scrambled >>> 16), next)

def mix (word hashed : UInt32) : UInt32 :=
  let mixed := 0xCA01F9DD * word - 0x4973F715 * hashed
  mixed ^^^ (mixed >>> 16)

namespace Mixer

def append (mixer : Mixer) (word : UInt32) : Mixer :=
  let (hashed, factor) := hash mixer.factor word
  ⟨mixer.pool.push hashed, factor⟩

def mixInto (word : UInt32) (mixer : Mixer) (place : Nat) : Mixer :=
  let (hashed, factor) := hash mixer.factor word
  ⟨mixer.pool.modify place fun old => mix old hashed, factor⟩

def spread (mixer : Mixer) (source : Nat) : Mixer :=
  ((List.range 4).filter (· ≠ source)).foldl (mixInto (mixer.pool[source]?.getD 0)) mixer

def absorb (mixer : Mixer) (word : UInt32) : Mixer := (List.range 4).foldl (mixInto word) mixer

end Mixer

/-- The pool of a seed: its first four words, spread over each other, and then the others. -/
def pool (seed : Nat) : Array UInt32 :=
  let entropy := words seed
  let filled := (List.range 4).foldl (fun mixer i => mixer.append (entropy[i]?.getD 0))
    (Mixer.mk #[] 0x43B0D7E5)
  let spreadOut := (List.range 4).foldl Mixer.spread filled
  ((entropy.drop 4).foldl Mixer.absorb spreadOut).pool

def draw (pool : Array UInt32) : List Nat → UInt32 → List UInt32
  | [], _ => []
  | place :: rest, factor =>
    let next := factor * 0x58F38DED
    let word := ((pool[place % 4]?.getD 0) ^^^ factor) * next
    (word ^^^ (word >>> 16)) :: draw pool rest next

def ofWords (words : List UInt32) : Nat :=
  words.foldr (fun word higher => word.toNat + Nat.pow 2 32 * higher) 0

end Seed

/-! ### The generator -/

/-- The state of a generator, and the upper half of a word of which only the lower half has been
given. -/
structure Generator where
  state : BitVec 128
  increment : BitVec 128
  buffered : Option UInt32

namespace Generator

def multiplier : BitVec 128 := 0x2360ED051FC65DA44385DF649FCCF645

def step (generator : Generator) : Generator :=
  { generator with state := generator.state * multiplier + generator.increment }

def ofSeed (seed : Nat) : Generator :=
  let words := Seed.draw (Seed.pool seed) (List.range 8) 0x8B51F9DD
  let half (start : Nat) : Nat := Seed.ofWords ((words.drop start).take 2)
  let initial := BitVec.ofNat 128 (half 0 * Nat.pow 2 64 + half 2)
  let stream := BitVec.ofNat 128 (half 4 * Nat.pow 2 64 + half 6)
  let started := step ⟨0, stream <<< 1 ||| 1, none⟩
  step { started with state := started.state + initial }

def ofSeed? : Int → Option Generator
  | .ofNat seed => some (ofSeed seed)
  | .negSucc _ => none

/-- A word of 64 bits: the two halves of the new state combined, and rotated by its top bits. -/
def next64 (generator : Generator) : UInt64 × Generator :=
  let stepped := generator.step
  let folded := (stepped.state >>> 64).truncate 64 ^^^ stepped.state.truncate 64
  (UInt64.ofBitVec (folded.rotateRight (stepped.state >>> 122).toNat), stepped)

/-- A word of 32 bits: half of a wider word, whose other half is given next time. -/
def next32 (generator : Generator) : UInt32 × Generator :=
  match generator.buffered with
  | some word => (word, { generator with buffered := none })
  | none =>
    let (word, stepped) := generator.next64
    (word.toUInt32, { stepped with buffered := some (word >>> 32).toUInt32 })

def nextFraction (generator : Generator) : Float × Generator :=
  let (word, stepped) := generator.next64
  ((word >>> 11).toFloat / 9007199254740992.0, stepped)

def scaleWord {size : Nat} (word : Fin size) (bound : Nat) (positive : 0 < bound) : Fin bound :=
  ⟨word * bound / size, by
    have small : word * bound < size * bound := (Nat.mul_lt_mul_right positive).2 word.isLt
    exact Nat.div_lt_of_lt_mul small⟩

/-- Whether a word is refused: the words that would favour some results are those whose scaled value
has a remainder below this threshold. -/
def isRefused {size : Nat} (word : Fin size) (bound : Nat) : Bool :=
  decide (word * bound % size < (size - bound) % bound)

/-- Draws words until one is not refused. At least half of all words are accepted, so the number of
tries is no limit in practice; after that many the last word is taken as it is. -/
def drawBelow {size : Nat} (next : Generator → Fin size × Generator) (bound : Nat)
    (positive : 0 < bound) : Nat → Generator → Fin bound × Generator
  | 0, generator =>
    let (word, after) := next generator
    (scaleWord word bound positive, after)
  | tries + 1, generator =>
    let (word, after) := next generator
    if isRefused word bound then drawBelow next bound positive tries after
    else (scaleWord word bound positive, after)

/-- A natural number below a bound. One alone is given without drawing, and bounds of more than 32 bits
take wider words. -/
def nextBelow (bound : Nat) (positive : 0 < bound) (generator : Generator) :
    Fin bound × Generator :=
  if bound = 1 then (⟨0, positive⟩, generator)
  else if bound ≤ Nat.pow 2 32 then drawBelow narrow bound positive 1000 generator
  else drawBelow wide bound positive 1000 generator
where
  narrow (generator : Generator) : Fin (Nat.pow 2 32) × Generator :=
    let (word, after) := generator.next32
    (word.toBitVec.toFin, after)
  wide (generator : Generator) : Fin (Nat.pow 2 64) × Generator :=
    let (word, after) := generator.next64
    (word.toBitVec.toFin, after)

instance : RandomSource Generator where
  fraction := nextFraction
  below bound positive generator := nextBelow bound positive generator

end Generator

/-! ## Weighted choice

An index is chosen with a probability in proportion to its weight: the weights are divided by their
total and added up from left to right, and the first index whose sum passes the draw is taken.

The rule is stated over any weights that can be added, divided and compared, so that it can be read
over exact numbers as well as over floating-point numbers.
-/

/-- Numbers that can serve as weights. `atMost` puts a value that is no number after all others. -/
class Weight (α : Type) extends Add α, Div α where
  zero : α
  atMost : α → α → Bool

instance : Weight Float where
  zero := 0
  atMost a b := a ≤ b || b.isNaN

instance : Weight Rat where
  zero := 0
  atMost a b := decide (a ≤ b)

namespace Weighted

variable {α : Type} [Weight α]

def sumFrom (total : α) (weights : List α) : α := weights.foldl (· + ·) total

def addBlocks (blocks : Nat) (sums weights : List α) : List α × List α :=
  match blocks with
  | 0 => (sums, weights)
  | more + 1 => addBlocks more (List.zipWith (· + ·) sums weights) (weights.drop 8)

/-- The sum of at least eight weights as the sum of eight sums, so that few roundings meet any one
weight. What is left over is added last. -/
def sumByEight (weights : List α) : α :=
  let (sums, rest) := addBlocks (weights.length / 8 - 1) (weights.take 8) (weights.drop 8)
  match sums with
  | [a, b, c, d, e, f, g, h] => sumFrom (((a + b) + (c + d)) + ((e + f) + (g + h))) rest
  | _ => sumFrom Weight.zero weights

/-- The total of weights: of few from left to right, of up to 128 by eights, and of more as the total
of two halves, the first a multiple of eight. -/
def total (weights : List α) : α :=
  if weights.length < 8 then sumFrom Weight.zero weights
  else if weights.length ≤ 128 then sumByEight weights
  else
    let half := weights.length / 2 - weights.length / 2 % 8
    total (weights.take half) + total (weights.drop half)
termination_by weights.length
decreasing_by
  all_goals simp only [List.length_take, List.length_drop]; omega

/-- The running sums of a list, `before` being the sum of what came before. -/
def runningFrom (before : α) : List α → List α
  | [] => []
  | weight :: rest => (before + weight) :: runningFrom (before + weight) rest

def running : List α → List α
  | [] => []
  | weight :: rest => weight :: runningFrom weight rest

/-- The index that a draw falls on; there is none if there are no weights. Rounding may leave the last
sum below the draw, which then falls on the last index. -/
def index? (weights : List α) (draw : α) : Option Nat :=
  let whole := total weights
  let sums := (running (weights.map (· / whole))).toArray
  match weights.length with
  | 0 => none
  | last + 1 =>
    some (min
      (partitionPoint (fun i => (sums[i]?.map (Weight.atMost · draw)).getD false) sums.size) last)

end Weighted

end Tessera
