import Tessera.Compression.Basic

/-!
# Windows that compress well

Parts of a text that take few ids for their length, found by compressing every long enough part on its
own.
-/

set_option autoImplicit false

namespace Tessera

structure Window where
  start : Nat
  stop : Nat
  text : Text
  count : Nat
deriving DecidableEq

namespace Window

def charsPerToken (window : Window) : Float :=
  Compressed.ratioOrZero window.text.length window.count

/-- The encoding of the number of characters for each id. The encodings of floating-point numbers that
are not negative are ordered as the numbers are. -/
def rank (window : Window) : Nat :=
  if window.count = 0 then 0 else Binary64.nearestBits window.text.length window.count

/-- Windows by descending number of characters for each id; equal ones keep their order. -/
def best (windows : List Window) : List Window :=
  windows.mergeSort fun a b => decide (b.rank ≤ a.rank)

/-- The offsets of the windows that are looked at: those that start before the last window of the least
length, by start and then by end. -/
def offsets (size least : Nat) : List (Nat × Nat) :=
  (List.range (size - least)).flatMap fun start =>
    (List.range' (start + least) (size + 1 - (start + least))).map fun stop => (start, stop)

def defaultLength : Int := 10

def defaultRatio : Float := 5.0

end Window

namespace Tokenizer

variable {σ : Type} [RandomSource σ]

/-- Compresses windows one by one, each with a source of its own. -/
def windowsAt (tokenizer : Tokenizer) (text : Text) (supply : Supply σ) :
    List (Nat × Nat) → Call σ (List Window)
  | [] => pure []
  | (start, stop) :: rest => do
    let part := text.slice start stop
    let result ← tokenizer.compress part none true supply
    return ⟨start, stop, part, result.count⟩ :: (← windowsAt tokenizer text supply rest)

/-- The windows of at least some length that take more than some number of characters for each id, the
best first. -/
def compressibleWindows (tokenizer : Tokenizer) (text : Text) (least : Int) (minRatio : Float)
    (supply : Supply σ) : Call σ (List Window) := do
  if least < 1 then throw (.windowTooShort least)
  let windows ← tokenizer.windowsAt text supply (Window.offsets text.length least.toNat)
  return Window.best (windows.filter fun window => decide (minRatio < window.charsPerToken))

end Tokenizer

end Tessera
