import Mathlib.Data.List.Basic
import Mathlib.Data.List.Induction
import Mathlib.Data.Set.Basic
import Tessera.Grammar.Rule

/-!
# Depth-first orders

Names in the order in which they are first come to: from name to name, or from node to node of a term.
-/

set_option autoImplicit false

/-! ## Depth-first order

Names are visited one after the other. A name that is not finished is listed when it is entered, before
what it asks for, which is visited next; it is finished after that. There is at most one such order.
-/

namespace Tessera.Grammar

/-- Whether visiting names lists others in depth-first preorder. Names that are finished are skipped. -/
inductive Visits (asks : Name → List Name) : Set Name → List Name → List Name → Prop where
  | done {finished : Set Name} : Visits asks finished [] []
  | skip {finished : Set Name} {name : Name} {rest order : List Name} :
      name ∈ finished → Visits asks finished rest order →
      Visits asks finished (name :: rest) order
  | enter {finished : Set Name} {name : Name} {rest inner order : List Name} :
      name ∉ finished → Visits asks finished (asks name) inner →
      Visits asks (finished ∪ {other | other ∈ name :: inner}) rest order →
      Visits asks finished (name :: rest) (name :: inner ++ order)

namespace Visits

variable {asks : Name → List Name} {finished : Set Name} {names order : List Name}

theorem append {rest further : List Name} (visits : Visits asks finished names order)
    (others : Visits asks (finished ∪ {other | other ∈ order}) rest further) :
    Visits asks finished (names ++ rest) (order ++ further) := by
  induction visits with
  | done =>
      have same : ∀ finished : Set Name, finished ∪ {other | other ∈ []} = finished := by
        intro finished
        ext
        simp
      rwa [same] at others
  | skip member _ ih => exact .skip member (ih others)
  | @enter finished name _ inner order outside innerVisits _ _ ih =>
      have same : finished ∪ {other | other ∈ name :: inner ++ order} =
          finished ∪ {other | other ∈ name :: inner} ∪ {other | other ∈ order} := by
        ext other
        simp only [Set.mem_union, Set.mem_ofPred_eq, List.mem_append, or_assoc]
      rw [same] at others
      rw [List.append_assoc]
      exact .enter outside innerVisits (ih others)

theorem unique {other : List Name} (visits : Visits asks finished names order)
    (visitsOther : Visits asks finished names other) : order = other := by
  induction visits generalizing other with
  | done =>
      cases visitsOther
      rfl
  | skip member _ ih =>
      cases visitsOther with
      | skip _ further => exact ih further
      | enter outside _ _ => exact absurd member outside
  | enter outside _ _ innerIh restIh =>
      cases visitsOther with
      | skip member _ => exact absurd member outside
      | enter _ innerVisits further =>
          cases innerIh innerVisits
          rw [restIh further]

theorem finished_or_mem (visits : Visits asks finished names order) {name : Name}
    (listed : name ∈ names) : name ∈ finished ∨ name ∈ order := by
  induction visits with
  | done => cases listed
  | skip member _ ih =>
      rcases List.mem_cons.mp listed with rfl | listed
      · exact .inl member
      · exact ih listed
  | enter _ _ _ _ ih =>
      rcases List.mem_cons.mp listed with rfl | listed
      · exact .inr (by simp)
      · rcases ih listed with (earlier | inside) | later
        · exact .inl earlier
        · exact .inr (List.mem_append_left _ inside)
        · exact .inr (List.mem_append_right _ later)

/-- Where no name asks for another and none is finished, all are listed in the order given. -/
theorem eq_of_none_asked (visits : Visits asks finished names order)
    (noneAsked : ∀ name, asks name = []) (distinct : names.Nodup)
    (noneFinished : ∀ name ∈ names, name ∉ finished) : order = names := by
  induction visits with
  | done => rfl
  | skip member _ _ => exact absurd member (noneFinished _ List.mem_cons_self)
  | @enter finished name rest inner order _ innerVisits _ _ ih =>
      obtain ⟨apart, restDistinct⟩ := List.nodup_cons.mp distinct
      rw [noneAsked] at innerVisits
      cases innerVisits
      refine congrArg (name :: ·) (ih restDistinct ?_)
      intro other listed
      have different : other ≠ name := fun same => apart (same ▸ listed)
      simpa [different] using noneFinished other (List.mem_cons_of_mem _ listed)

end Visits

/-! ## The order of references

A term is read node by node: each node comes before its parts, and these follow from left to right. The
names that a term refers to are in the order in which they are first met on this way. They are found
without recursion: what is still to be read waits on a stack, on which the parts of a node are put in
reverse.
-/

namespace Rule

/-! ### Nodes in order -/

mutual

/-- The nodes of a term, each before its parts, which follow from left to right. -/
def preorder : Rule → List Rule
  | .sequence items => .sequence items :: preorderAll items
  | .choice items => .choice items :: preorderAll items
  | .between rule bounds => .between rule bounds :: preorder rule
  | .zeroOrMore rule => .zeroOrMore rule :: preorder rule
  | .oneOrMore rule => .oneOrMore rule :: preorder rule
  | .optional rule => .optional rule :: preorder rule
  | rule => [rule]

def preorderAll : List Rule → List Rule
  | [] => []
  | rule :: rest => preorder rule ++ preorderAll rest

end

theorem preorder_eq (rule : Rule) : rule.preorder = rule :: preorderAll rule.children := by
  cases rule <;> simp [preorder, preorderAll, children]

theorem preorderAll_append (front back : List Rule) :
    preorderAll (front ++ back) = preorderAll front ++ preorderAll back := by
  induction front with
  | nil => rfl
  | cons rule rest ih => rw [List.cons_append, preorderAll, ih, preorderAll, List.append_assoc]

mutual

theorem length_preorder : (rule : Rule) → rule.preorder.length = rule.size
  | .sequence items => by simp [preorder, size, length_preorderAll items, Nat.add_comm]
  | .choice items => by simp [preorder, size, length_preorderAll items, Nat.add_comm]
  | .between rule _ => by simp [preorder, size, length_preorder rule, Nat.add_comm]
  | .zeroOrMore rule => by simp [preorder, size, length_preorder rule, Nat.add_comm]
  | .oneOrMore rule => by simp [preorder, size, length_preorder rule, Nat.add_comm]
  | .optional rule => by simp [preorder, size, length_preorder rule, Nat.add_comm]
  | .literal _ => rfl
  | .range _ _ => rfl
  | .oneOf _ => rfl
  | .reference _ => rfl
  | .foreign _ => rfl

theorem length_preorderAll : (rules : List Rule) → (preorderAll rules).length = sizes rules
  | [] => rfl
  | rule :: rest => by
    rw [preorderAll, List.length_append, length_preorder rule, length_preorderAll rest, sizes]

end

def referenced? : Rule → Option Name
  | .reference name => some name
  | _ => none

/-- The names of all references of a term in the order of reading, each as often as it occurs. -/
def namesInOrder (rule : Rule) : List Name := rule.preorder.filterMap referenced?

theorem referenced?_eq_some_iff {rule : Rule} {name : Name} :
    rule.referenced? = some name ↔ rule = .reference name := by
  cases rule <;> simp [referenced?]

theorem mem_namesInOrder_iff {rule : Rule} {name : Name} :
    name ∈ rule.namesInOrder ↔ .reference name ∈ rule.preorder := by
  simp only [namesInOrder, List.mem_filterMap, referenced?_eq_some_iff, exists_eq_right]

end Rule

/-! ### First occurrences -/

theorem eraseDups_concat (names : List Name) (name : Name) :
    (names ++ [name]).eraseDups =
      if name ∈ names then names.eraseDups else names.eraseDups ++ [name] := by
  rw [List.eraseDups_append]
  by_cases known : name ∈ names
  · simp [List.removeAll, known]
  · simp [List.removeAll, known, List.eraseDups_cons]

/-- Names without repetitions stand in the order in which they first occur. -/
theorem pairwise_idxOf_eraseDups (names : List Name) :
    names.eraseDups.Pairwise fun first second => names.idxOf first < names.idxOf second := by
  induction names using List.reverseRecOn with
  | nil => exact .nil
  | append_singleton names name ih =>
      have placeOfMem : ∀ other ∈ names, (names ++ [name]).idxOf other = names.idxOf other :=
        fun other listed => List.idxOf_append_of_mem listed
      have earlier : names.eraseDups.Pairwise fun first second =>
          (names ++ [name]).idxOf first < (names ++ [name]).idxOf second := by
        refine ih.imp_of_mem ?_
        intro first second firstListed secondListed before
        rw [placeOfMem first (List.mem_eraseDups.mp firstListed),
          placeOfMem second (List.mem_eraseDups.mp secondListed)]
        exact before
      rw [eraseDups_concat]
      split
      · exact earlier
      · next unknown =>
          refine List.pairwise_append.mpr ⟨earlier, List.pairwise_singleton _ _, ?_⟩
          intro first firstListed last lastListed
          cases List.mem_singleton.mp lastListed
          have firstKnown := List.mem_eraseDups.mp firstListed
          rw [placeOfMem first firstKnown, List.idxOf_append_of_notMem unknown]
          have inside := List.idxOf_lt_length_of_mem firstKnown
          omega

namespace Rule

/-! ### Noting references -/

theorem noteReference_of_referenced {seen : List Name} {rule : Rule} {name : Name}
    (referenced : rule.referenced? = some name) :
    noteReference seen rule = if name ∈ seen then seen else seen ++ [name] := by
  cases referenced?_eq_some_iff.mp referenced
  simp [noteReference]

theorem noteReference_of_not_referenced {seen : List Name} {rule : Rule}
    (noneReferenced : rule.referenced? = none) : noteReference seen rule = seen := by
  cases rule with
  | reference name => cases noneReferenced
  | _ => rfl

theorem foldl_noteReference (nodes : List Rule) :
    nodes.foldl noteReference [] = (nodes.filterMap referenced?).eraseDups := by
  induction nodes using List.reverseRecOn with
  | nil => rfl
  | append_singleton nodes rule ih =>
      rw [List.foldl_append, List.foldl_cons, List.foldl_nil, ih, List.filterMap_append]
      cases referenced : rule.referenced? with
      | none => simp [noteReference_of_not_referenced referenced, referenced]
      | some name =>
          rw [noteReference_of_referenced referenced, List.filterMap_cons_some referenced,
            List.filterMap_nil, eraseDups_concat]
          simp only [List.mem_eraseDups]

/-- Terms that wait are read one after the other, each with all its parts. -/
theorem collectReferences_eq_foldl (seen : List Name) (waiting : List Rule) :
    collectReferences seen waiting = (preorderAll waiting).foldl noteReference seen := by
  induction seen, waiting using collectReferences.induct with
  | case1 seen => simp [collectReferences, preorderAll]
  | case2 seen rule waiting ih =>
      rw [collectReferences, ih, preorderAll_append, preorderAll, preorder_eq]
      rfl

theorem references_eq_eraseDups (rule : Rule) : rule.references = rule.namesInOrder.eraseDups := by
  rw [references, collectReferences_eq_foldl, foldl_noteReference, preorderAll, preorderAll,
    List.append_nil, namesInOrder]

end Rule

/-! ### Reading with a stack -/

/-- How far a term has been read: the names seen so far, and the stack of what is still to be read, the
next term last. -/
structure Traversal where
  seen : List Name
  stack : List Rule

namespace Traversal

def start (rule : Rule) : Traversal := ⟨[], [rule]⟩

/-- Takes a term from the stack and puts its parts there, the first part last. -/
def step? (traversal : Traversal) : Option Traversal :=
  traversal.stack.getLast?.map fun rule =>
    ⟨rule.noteReference traversal.seen, traversal.stack.dropLast ++ rule.children.reverse⟩

def after? : Nat → Traversal → Option Traversal
  | 0, traversal => some traversal
  | steps + 1, traversal => traversal.step?.bind (after? steps)

theorem step?_concat (seen : List Name) (stack : List Rule) (rule : Rule) :
    step? ⟨seen, stack ++ [rule]⟩ =
      some ⟨rule.noteReference seen, stack ++ rule.children.reverse⟩ := by
  simp [step?]

theorem step?_nil (seen : List Name) : step? ⟨seen, []⟩ = none := rfl

/-- With one step for each node the stack is read to its end, whatever is on it. -/
theorem after?_reverse (seen : List Name) (waiting : List Rule) :
    after? (Rule.sizes waiting) ⟨seen, waiting.reverse⟩ =
      some ⟨Rule.collectReferences seen waiting, []⟩ := by
  induction seen, waiting using Rule.collectReferences.induct with
  | case1 seen => simp [Rule.sizes, Rule.collectReferences, after?]
  | case2 seen rule waiting ih =>
      have stepsEq : Rule.sizes (rule :: waiting) =
          Rule.sizes (rule.children ++ waiting) + 1 := by
        rw [Rule.sizes, Rule.sizes_append, Rule.size_eq_succ_sizes_children]
        omega
      rw [stepsEq, after?, List.reverse_cons, step?_concat, Option.bind_some,
        ← List.reverse_append, ih, Rule.collectReferences]

end Traversal

/-- Reading a term with a stack comes to an end after one step for each of its nodes. The names found are
those of its references, each once, in the order of their first occurrence among all nodes read from left
to right, parts behind the whole; foreign values within make no difference. -/
theorem references_in_preorder (rule : Rule) :
    Traversal.after? rule.size (.start rule) = some ⟨rule.references, []⟩ ∧
    rule.preorder.length = rule.size ∧
    (∀ name, name ∈ rule.references ↔ .reference name ∈ rule.preorder) ∧
    rule.references.Nodup ∧
    (rule.references.Pairwise fun first second =>
      rule.namesInOrder.idxOf first < rule.namesInOrder.idxOf second) ∧
    rule.references = rule.namesInOrder.eraseDups := by
  have ended : Traversal.after? rule.size (.start rule) = some ⟨rule.references, []⟩ := by
    have read := Traversal.after?_reverse [] [rule]
    rwa [Rule.sizes, Rule.sizes, Nat.add_zero] at read
  have ordered := pairwise_idxOf_eraseDups rule.namesInOrder
  rw [← rule.references_eq_eraseDups] at ordered
  have distinct : rule.references.Nodup := by
    refine ordered.imp ?_
    intro first second before same
    rw [same] at before
    exact Nat.lt_irrefl _ before
  refine ⟨ended, rule.length_preorder, ?_, distinct, ordered, rule.references_eq_eraseDups⟩
  intro name
  rw [rule.references_eq_eraseDups, List.mem_eraseDups, Rule.mem_namesInOrder_iff]

end Tessera.Grammar
