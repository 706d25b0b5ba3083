import Mathlib.Data.List.Basic
import Tessera.Vocabulary.Lookup

/-!
# What a trie holds

A trie is described by the ids that it holds for each text. Insertion adds one id at one text, and
a walk along a text finds exactly the held texts that it starts with.
-/

set_option autoImplicit false

namespace Tessera.Trie

variable {ι : Type}

namespace Node

/-- The ids held for a text, in the order in which they came. -/
def held (node : Node ι) (text : Text) : List ι := ((descend? text node).map ids).getD []

theorem held_nil (node : Node ι) : node.held [] = node.ids := rfl

theorem held_cons (node : Node ι) (c : Char) (rest : Text) :
    node.held (c :: rest) = ((node.child? c).map fun next => next.held rest).getD [] := by
  cases found : node.child? c with
  | none => simp [held, descend?, found]
  | some next => simp [held, descend?, found]

theorem held_empty (text : Text) : (empty : Node ι).held text = [] := by
  cases text with
  | nil => rfl
  | cons c rest => rfl

theorem lookup_alter (c other : Char) (change : Node ι → Node ι)
    (children : List (Char × Node ι)) :
    (alter c change children).lookup other =
      if other = c then some (change ((children.lookup c).getD empty))
      else children.lookup other := by
  induction children with
  | nil =>
      by_cases same : other = c
      · simp [alter, same]
      · have apart : (other == c) = false := by simpa using same
        simp [alter, List.lookup_cons, same, apart]
  | cons entry rest ih =>
      rcases entry with ⟨key, child⟩
      by_cases here : key = c
      · subst key
        by_cases same : other = c
        · simp [alter, same]
        · have apart : (other == c) = false := by simpa using same
          simp [alter, List.lookup_cons, same, apart]
      · by_cases same : other = key
        · subst other
          simp [alter, here]
        · have apart : (c == key) = false := by simpa using Ne.symm here
          have otherApart : (other == key) = false := by simpa using same
          simp only [alter, here, ↓reduceIte, List.lookup_cons, otherApart, apart, ih]

theorem held_insert (id : ι) (text path : Text) (node : Node ι) :
    (node.insert id text).held path =
      if path = text then node.held path ++ [id] else node.held path := by
  induction text generalizing node path with
  | nil =>
      rcases node with ⟨ids, children⟩
      cases path with
      | nil => simp [insert, held_nil, Node.ids]
      | cons c rest => simp [insert, held_cons, child?]
  | cons c rest ih =>
      rcases node with ⟨ids, children⟩
      cases path with
      | nil => simp [insert, held_nil, Node.ids]
      | cons other tail =>
          simp only [insert, held_cons, child?, lookup_alter, List.cons.injEq]
          by_cases same : other = c
          · subst other
            cases found : children.lookup c with
            | none => simp [ih, held_empty]
            | some child => simp [ih]
          · simp [same]

def matchesFor (text : Text) (ids : List ι) : List (Match ι) :=
  ids.map fun id => ⟨id, text.length, text⟩

/-- A walk gathers what is held for the starts of a text, one start after the other. -/
theorem matchesAlong_eq_flatMap (before text : Text) (node : Node ι) :
    node.matchesAlong (before ++ text) before.length text =
      (List.range text.length).flatMap fun k =>
        matchesFor (before ++ text.take (k + 1)) (node.held (text.take (k + 1))) := by
  induction text generalizing before node with
  | nil => rfl
  | cons c rest ih =>
      cases found : node.child? c with
      | none => simp [matchesAlong, found, held_cons, matchesFor]
      | some next =>
          have start : (before ++ c :: rest).take (before.length + 1) = before ++ [c] := by
            rw [List.append_cons]
            exact List.take_left' (by simp)
          have further := ih (before ++ [c]) next
          simp only [List.append_assoc, List.singleton_append, List.length_append,
            List.length_cons, List.length_nil, Nat.zero_add] at further
          simp only [matchesAlong, found, further, start, List.length_cons,
            List.range_succ_eq_map, List.flatMap_cons, List.flatMap_map, held_cons,
            Option.map_some, Option.getD_some, List.take_succ_cons, List.take_zero, held_nil]
          simp [matchesFor]

end Node

/-- The matches of a text are those held for its starts, none of which is empty. -/
theorem matchesOf_eq_flatMap (trie : Trie ι) (text : Text) :
    trie.matchesOf text =
      (List.range text.length).flatMap fun k =>
        Node.matchesFor (text.take (k + 1)) (trie.root.held (text.take (k + 1))) :=
  Node.matchesAlong_eq_flatMap [] text trie.root

theorem mem_matchesOf_iff {trie : Trie ι} {text : Text} {found : Match ι} :
    found ∈ trie.matchesOf text ↔
      found.id ∈ trie.root.held found.text ∧ found.text ≠ [] ∧ found.text <+: text ∧
        found.length = found.text.length := by
  rw [matchesOf_eq_flatMap, List.mem_flatMap]
  constructor
  · rintro ⟨k, inside, member⟩
    obtain ⟨id, held, rfl⟩ := List.mem_map.mp member
    have long : k < text.length := List.mem_range.mp inside
    have nonempty : text.take (k + 1) ≠ [] := by
      intro empty
      rcases List.take_eq_nil_iff.mp empty with absurd | absurd
      · omega
      · simp [absurd] at long
    exact ⟨held, nonempty, List.take_prefix _ _, rfl⟩
  · rintro ⟨held, nonempty, starts, measured⟩
    have positive : 0 < found.text.length := List.length_pos_iff.mpr nonempty
    have here : text.take (found.text.length - 1 + 1) = found.text := by
      rw [Nat.sub_add_cancel positive]
      exact (List.prefix_iff_eq_take.mp starts).symm
    refine ⟨found.text.length - 1, List.mem_range.mpr ?_, ?_⟩
    · have bounded := starts.length_le
      omega
    · rw [here]
      exact List.mem_map.mpr ⟨found.id, held, by rw [← measured]⟩

/-! ## Tries of several texts -/

/-- Adds texts with their ids, one after the other. -/
def insertEach (trie : Trie ι) (entries : List (Text × ι)) : Trie ι :=
  entries.foldl (fun trie entry => trie.insert entry.1 entry.2) trie

theorem insertEach_cons (trie : Trie ι) (entry : Text × ι) (rest : List (Text × ι)) :
    trie.insertEach (entry :: rest) = (trie.insert entry.1 entry.2).insertEach rest := rfl

theorem held_insert {trie : Trie ι} {text path : Text} {id : ι} (nonempty : path ≠ []) :
    (trie.insert text id).root.held path =
      if path = text then trie.root.held path ++ [id] else trie.root.held path := by
  unfold insert
  split
  · next empty =>
      have apart : path ≠ text := by
        rintro rfl
        exact nonempty (List.isEmpty_iff.mp empty)
      rw [if_neg apart]
  · exact Node.held_insert id text path trie.root

/-- A trie holds for each text, unless it is empty, the ids that were added with it, in their
order. -/
theorem held_insertEach (trie : Trie ι) (entries : List (Text × ι)) {path : Text}
    (nonempty : path ≠ []) :
    (trie.insertEach entries).root.held path =
      trie.root.held path ++ (entries.filter fun entry => entry.1 = path).map Prod.snd := by
  induction entries generalizing trie with
  | nil => simp [insertEach]
  | cons entry rest ih =>
      rw [insertEach_cons, ih, held_insert nonempty]
      by_cases same : path = entry.1
      · subst path
        simp
      · simp [same, Ne.symm same]

theorem insertAll_eq_insertEach (trie : Trie Nat) (id : Nat) (tokens : List Text) :
    trie.insertAll id tokens = trie.insertEach (tokens.zipIdx id) := by
  induction tokens generalizing trie id with
  | nil => rfl
  | cons token rest ih => rw [insertAll, ih, List.zipIdx_cons, insertEach_cons]

/-- The ids of a text in a list of texts, the first of which has the given id. -/
def idsFrom (id : Nat) (path : Text) (tokens : List Text) : List Nat :=
  (tokens.zipIdx id).filterMap fun (token, place) => if token = path then some place else none

theorem idsFrom_eq_map_filter (id : Nat) (path : Text) (tokens : List Text) :
    idsFrom id path tokens =
      ((tokens.zipIdx id).filter fun entry => entry.1 = path).map Prod.snd := by
  rw [idsFrom, ← List.filterMap_eq_map, ← List.filterMap_eq_filter, List.filterMap_filterMap]
  refine List.filterMap_congr fun entry _ => ?_
  by_cases same : entry.1 = path <;> simp [same, Option.guard]

theorem mem_idsFrom_iff {tokens : List Text} {path : Text} {place : Nat} :
    place ∈ idsFrom 0 path tokens ↔ tokens[place]? = some path := by
  constructor
  · intro member
    obtain ⟨⟨token, index⟩, listed, chosen⟩ := List.mem_filterMap.mp member
    have atIndex : tokens[index]? = some token := List.mk_mem_zipIdx_iff_getElem?.mp listed
    by_cases same : token = path
    · have equal : index = place := by simpa [same] using chosen
      rw [← equal, ← same, atIndex]
    · simp [same] at chosen
  · intro found
    exact List.mem_filterMap.mpr
      ⟨(path, place), List.mk_mem_zipIdx_iff_getElem?.mpr found, by simp⟩

/-- A trie of consecutive texts holds for each text, unless it is empty, the ids under which it
came. -/
theorem held_insertAll (tokens : List Text) (id : Nat) (trie : Trie Nat) {path : Text}
    (nonempty : path ≠ []) :
    (trie.insertAll id tokens).root.held path =
      trie.root.held path ++ idsFrom id path tokens := by
  rw [insertAll_eq_insertEach, held_insertEach trie _ nonempty, idsFrom_eq_map_filter]

theorem held_ofTokens (tokens : List Text) {path : Text} (nonempty : path ≠ []) :
    (ofTokens tokens).root.held path = idsFrom 0 path tokens := by
  rw [ofTokens, held_insertAll tokens 0 empty nonempty]
  exact congrArg (· ++ idsFrom 0 path tokens) (Node.held_empty path)

/-- The matches of a text are exactly the nonempty tokens that it starts with. -/
theorem mem_matchesOf_ofTokens_iff {tokens : List Text} {text : Text} {found : Match Nat} :
    found ∈ (ofTokens tokens).matchesOf text ↔
      tokens[found.id]? = some found.text ∧ found.text ≠ [] ∧ found.text <+: text ∧
        found.length = found.text.length := by
  rw [mem_matchesOf_iff]
  by_cases nonempty : found.text = []
  · simp [nonempty]
  · rw [held_ofTokens tokens nonempty, mem_idsFrom_iff]

end Tessera.Trie
