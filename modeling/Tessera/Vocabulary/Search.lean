import Tessera.Inspection.Basic
import Tessera.Pattern.Reader

/-!
# Searching a vocabulary

A search looks at the tokens in order of their ids and lists those whose texts satisfy a condition,
until it has listed as many as were asked for. Only the first tokens of a very large vocabulary are
looked at.
-/

set_option autoImplicit false

namespace Tessera.Tokenizer

/-! ## The search -/

def searchLimit : Nat := 100000

def defaultLimit : Int := 50

/-- Goes on with a search at a text that has the given id, behind the tokens listed so far. The limit
is looked at once a token has been listed, so there is one more even if none is asked for. -/
def searchFrom (tokenizer : Tokenizer) (holds : Text → Bool) (limit : Int)
    (listed : Array TokenInfo) (id : Nat) : List Text → Array TokenInfo
  | [] => listed
  | text :: rest =>
    if holds text then
      let longer := listed.push (tokenizer.info id)
      if limit ≤ longer.size then longer
      else searchFrom tokenizer holds limit longer (id + 1) rest
    else searchFrom tokenizer holds limit listed (id + 1) rest

def search (tokenizer : Tokenizer) (holds : Text → Bool) (limit : Int) : List TokenInfo :=
  (tokenizer.searchFrom holds limit #[] 0
    (tokenizer.vocabulary.tokens.toList.take searchLimit)).toList

def findTokens (tokenizer : Tokenizer) (query : Text) (limit : Int) : List TokenInfo :=
  tokenizer.search (Text.occursIn query) limit

def searchPattern (tokenizer : Tokenizer) (query : Text) (limit : Int) :
    Except Pattern.Error (List TokenInfo) :=
  (Pattern.ofText query).map fun pattern => tokenizer.search pattern.occursIn limit

/-! ## What it lists -/

/-- The ids of the texts that satisfy a condition, the first text having the given id. -/
def idsWhere (holds : Text → Bool) (id : Nat) : List Text → List Nat
  | [] => []
  | text :: rest => if holds text then id :: idsWhere holds (id + 1) rest else idsWhere holds (id + 1) rest

section

variable {tokenizer : Tokenizer} {holds : Text → Bool} {limit : Int}

/-- Behind what is listed already come the next tokens, one of them at least if there is any. -/
theorem searchFrom_toList (listed : Array TokenInfo) (id : Nat) (texts : List Text) :
    (tokenizer.searchFrom holds limit listed id texts).toList =
      listed.toList ++
        ((idsWhere holds id texts).take (max 1 (limit - listed.size).toNat)).map tokenizer.info := by
  induction texts generalizing listed id with
  | nil => simp [searchFrom, idsWhere]
  | cons text rest ih =>
      rw [searchFrom, idsWhere]
      split
      · next held =>
          dsimp only
          split
          · next reached =>
              have lastOne : max 1 (limit - listed.size).toNat = 1 := by
                rw [Array.size_push] at reached
                omega
              rw [lastOne, Array.toList_push]
              rfl
          · next asked =>
              rw [Array.size_push] at asked
              have oneMore : max 1 (limit - listed.size).toNat =
                  max 1 (limit - (listed.push (tokenizer.info id)).size).toNat + 1 := by
                rw [Array.size_push]
                omega
              rw [ih, oneMore, List.take_succ_cons, List.map_cons, Array.toList_push,
                List.append_assoc, List.singleton_append]
      · exact ih listed (id + 1)

/-- A search lists the first tokens that satisfy its condition, up to its limit, but one at least if
there is any. -/
theorem search_eq (tokenizer : Tokenizer) (holds : Text → Bool) (limit : Int) :
    tokenizer.search holds limit =
      ((idsWhere holds 0 (tokenizer.vocabulary.tokens.toList.take searchLimit)).take
        (max 1 limit.toNat)).map tokenizer.info := by
  rw [search, searchFrom_toList]
  simp

end

end Tessera.Tokenizer
