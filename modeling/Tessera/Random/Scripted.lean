import Tessera.Random.Source

/-!
# Scripted sources

A script fixes the numbers that a source gives, so that a run can be followed by hand. The two kinds of
numbers are given in turn, each kind from its own list, over and over. What a script is asked for can
be recorded; a generator keeps no record.
-/

set_option autoImplicit false

namespace Tessera

/-- The numbers to give, and how many of each kind have been given. -/
structure Script where
  fractions : List Float
  integers : List Int
  fractionsGiven : Nat
  integersGiven : Nat

namespace Script

def turn {α : Type} (elements : List α) (given : Nat) : Option α :=
  elements[given % elements.length]?

instance : RandomSource Script where
  fraction script :=
    ((turn script.fractions script.fractionsGiven).getD 0,
      { script with fractionsGiven := script.fractionsGiven + 1 })
  below bound positive script :=
    let value := (turn script.integers script.integersGiven).getD 0
    (⟨(value % bound).toNat, by
        have nonneg := Int.emod_nonneg value (b := bound) (by omega)
        have small := Int.emod_lt_of_pos value (b := bound) (by omega)
        omega⟩,
      { script with integersGiven := script.integersGiven + 1 })

end Script

abbrev Source := Generator ⊕ Recorded Script

namespace Source

def requests : Source → List Request
  | .inl _ => []
  | .inr recorded => recorded.requests

def recording (requests : List Request) : Source → Source
  | .inl generator => .inl generator
  | .inr recorded => .inr { recorded with requests := requests }

def idle : Source := .inr (.fresh ⟨[], [], 0, 0⟩)

/-- Makes a generator for a seed, and without one takes a source that is the same for every call, if
there is one. The record goes on. -/
def supply (source? : Option Source) : Supply Source :=
  .starting fun seed last =>
    match seed with
    | some seed => (Generator.ofSeed? seed).map .inl
    | none => source?.map (recording last.requests)

end Source

end Tessera
