import Tessera.Compression.Window
import Tessera.Proofs.Compression.Results
import Tessera.Proofs.Number.FloatOrder
import Tessera.Proofs.Order.StableSort

/-!
# The search for windows

A search compresses the windows of a text one by one and gives those that compress well, the best
first. It looks at every long enough window but the one of the least length at the end of the text.
-/

set_option autoImplicit false

namespace Tessera

/-! ## Places -/

namespace Window

def place (window : Window) : Nat × Nat := (window.start, window.stop)

theorem mem_offsets_iff {size least : Nat} {place : Nat × Nat} :
    place ∈ offsets size least ↔
      place.1 < size - least ∧ place.1 + least ≤ place.2 ∧ place.2 ≤ size := by
  obtain ⟨start, stop⟩ := place
  simp only [offsets, List.mem_flatMap, List.mem_range, List.mem_map, List.mem_range'_1,
    Prod.mk.injEq]
  constructor
  · rintro ⟨_, before, _, inside, rfl, rfl⟩
    omega
  · intro inside
    exact ⟨start, inside.1, stop, by omega, rfl, rfl⟩

theorem pairwise_offsets (size least : Nat) :
    (offsets size least).Pairwise (Prod.Lex (· < ·) (· < ·)) := by
  rw [offsets, List.pairwise_flatMap]
  constructor
  · intro start _
    rw [List.pairwise_map]
    exact (List.pairwise_lt_range' 1).imp fun before => .right start before
  · refine List.pairwise_lt_range.imp fun before place member other otherMember => ?_
    obtain ⟨_, _, rfl⟩ := List.mem_map.mp member
    obtain ⟨_, _, rfl⟩ := List.mem_map.mp otherMember
    exact .left _ _ before

/-! ## Ratios -/

/-- Windows in the order of a search: by descending ratio, those with equal ones by their places. -/
def Before (window other : Window) : Prop :=
  other.charsPerToken ≤ window.charsPerToken ∧
    (window.charsPerToken ≤ other.charsPerToken →
      Prod.Lex (· < ·) (· < ·) window.place other.place)

theorem charsPerToken_eq_signed (window : Window) :
    window.charsPerToken = Binary64.signed false window.rank := by
  unfold charsPerToken Compressed.ratioOrZero rank
  split
  · rfl
  · rfl

theorem rank_le_infinityBits (window : Window) : window.rank ≤ Binary64.infinityBits := by
  unfold rank
  split
  · exact Nat.zero_le _
  · exact Binary64.nearestBits_le_infinityBits _ _

theorem charsPerToken_le_iff (window other : Window) :
    window.charsPerToken ≤ other.charsPerToken ↔ window.rank ≤ other.rank := by
  rw [charsPerToken_eq_signed, charsPerToken_eq_signed]
  exact Binary64.signed_le_signed_iff window.rank_le_infinityBits other.rank_le_infinityBits

theorem pairwise_best {windows : List Window}
    (ordered : (windows.map place).Pairwise (Prod.Lex (· < ·) (· < ·))) :
    (best windows).Pairwise Before := by
  have trans := key_le_trans fun window : Window => OrderDual.toDual window.rank
  have total := key_le_total fun window : Window => OrderDual.toDual window.rank
  rw [List.pairwise_map] at ordered
  refine (pairwise_mergeSort_stable trans total ordered).imp fun {window other} sorted => ?_
  obtain ⟨falls, tied⟩ := sorted
  refine ⟨(charsPerToken_le_iff _ _).mpr (of_decide_eq_true falls), fun rises => ?_⟩
  exact tied (decide_eq_true ((charsPerToken_le_iff _ _).mp rises))

end Window

/-! ## Windows of a text -/

namespace Tokenizer

/-- Whether compressing a text gives some number of ids, and the ratio that goes with it, from whatever
source. -/
def CompressesTo (tokenizer : Tokenizer) (text : Text) (count : Nat) : Prop :=
  ∀ (σ : Type) [RandomSource σ] (supply : Supply σ), supply.IsReady → ∀ desk : Desk σ,
    ∃ result after, (tokenizer.compress text none true supply).runOn desk = (.ok result, after) ∧
      result.count = count ∧ result.charsPerToken = Compressed.ratioOrZero text.length count

/-- A window that bears what stands at its place in a text, and the number of ids of that. -/
structure IsWindow (tokenizer : Tokenizer) (text : Text) (window : Window) : Prop where
  text_eq : window.text = text.slice window.start window.stop
  compresses : tokenizer.CompressesTo window.text window.count

/-- A window that a search is meant to find. -/
structure IsCompressible (tokenizer : Tokenizer) (text : Text) (least : Nat) (minRatio : Float)
    (window : Window) : Prop extends tokenizer.IsWindow text window where
  long : window.start + least ≤ window.stop
  inside : window.stop ≤ text.length
  exceeds : minRatio < window.charsPerToken

variable {tokenizer : Tokenizer} {text : Text} {count : Nat}

theorem CompressesTo.unique {other : Nat} (compresses : tokenizer.CompressesTo text count)
    (otherCompresses : tokenizer.CompressesTo text other) : count = other := by
  let desk : Desk Script := Desk.fresh ⟨[], [], 0, 0⟩
  obtain ⟨result, after, returned, counted, -⟩ := compresses Script .current (fun _ _ => rfl) desk
  obtain ⟨_, _, same, otherCounted, -⟩ := otherCompresses Script .current (fun _ _ => rfl) desk
  cases returned.symm.trans same
  exact counted.symm.trans otherCounted

theorem IsWindow.eq_of_place_eq {window other : Window} (isWindow : tokenizer.IsWindow text window)
    (otherIsWindow : tokenizer.IsWindow text other) (samePlace : window.place = other.place) :
    window = other := by
  obtain ⟨startsEq, stopsEq⟩ := Prod.mk.inj samePlace
  have textsEq : window.text = other.text := by
    rw [isWindow.text_eq, otherIsWindow.text_eq, startsEq, stopsEq]
  have countsEq : window.count = other.count :=
    CompressesTo.unique (textsEq ▸ isWindow.compresses) otherIsWindow.compresses
  cases window
  cases other
  simp_all

/-- Windows at all of some places are the windows of the text there. -/
theorem mem_iff_of_places {places : List (Nat × Nat)} {windows : List Window}
    (placesEq : windows.map Window.place = places)
    (areWindows : ∀ window ∈ windows, tokenizer.IsWindow text window) {window : Window} :
    window ∈ windows ↔ window.place ∈ places ∧ tokenizer.IsWindow text window := by
  constructor
  · exact fun member => ⟨placesEq ▸ List.mem_map_of_mem member, areWindows window member⟩
  · rintro ⟨atPlace, isWindow⟩
    rw [← placesEq] at atPlace
    obtain ⟨found, member, samePlace⟩ := List.mem_map.mp atPlace
    exact (areWindows found member).eq_of_place_eq isWindow samePlace ▸ member

variable {σ : Type} [RandomSource σ] {supply : Supply σ}

section

variable (ready : supply.IsReady)

include ready

/-- A compression from one source tells what compressions from all sources come to. -/
theorem exists_compression (tokenizer : Tokenizer) (text : Text) (desk : Desk σ) :
    ∃ result after, (tokenizer.compress text none true supply).runOn desk = (.ok result, after) ∧
      tokenizer.CompressesTo text result.count := by
  obtain ⟨longest, after, returned⟩ :=
    exists_tokenization { Options.ofStrategy .longest with preserveSpecial := true } (.inl rfl) rfl
      rfl rfl ready none tokenizer text desk
  refine ⟨_, after, runOn_compress none true returned, ?_⟩
  intro τ _ other otherReady otherDesk
  obtain ⟨again, _, otherLongest, otherAfter, same, otherReturned, pieces⟩ :=
    exists_alike_tokenizations { Options.ofStrategy .longest with preserveSpecial := true } (.inl rfl)
      rfl rfl rfl ready otherReady none none tokenizer text desk otherDesk
  cases returned.symm.trans same
  have countEq := count_compressed_congr pieces text
  exact ⟨_, _, runOn_compress none true otherReturned, countEq.symm, by rw [countEq]; rfl⟩

theorem compressesTo_of_returned {desk after : Desk σ} {result : Compressed}
    (returned : (tokenizer.compress text none true supply).runOn desk = (.ok result, after)) :
    tokenizer.CompressesTo text result.count := by
  obtain ⟨_, _, same, compresses⟩ := exists_compression ready tokenizer text desk
  cases returned.symm.trans same
  exact compresses

/-! ## The search -/

theorem runOn_windowsAt (tokenizer : Tokenizer) (text : Text) (places : List (Nat × Nat))
    (desk : Desk σ) : ∃ windows after,
      (tokenizer.windowsAt text supply places).runOn desk = (.ok windows, after) ∧
      windows.map Window.place = places ∧ ∀ window ∈ windows, tokenizer.IsWindow text window := by
  induction places generalizing desk with
  | nil => exact ⟨[], desk, rfl, rfl, by simp⟩
  | cons place rest ih =>
      obtain ⟨start, stop⟩ := place
      obtain ⟨result, between, compressed, compresses⟩ :=
        exists_compression ready tokenizer (text.slice start stop) desk
      obtain ⟨windows, after, further, placesEq, areWindows⟩ := ih between
      refine ⟨⟨start, stop, text.slice start stop, result.count⟩ :: windows, after, ?_, ?_, ?_⟩
      · refine Computation.outcome_bind_eq_ok_iff.mpr ⟨result, between, compressed, ?_⟩
        exact Computation.outcome_bind_eq_ok_iff.mpr ⟨windows, after, further, rfl⟩
      · rw [List.map_cons, placesEq]
        rfl
      · exact List.forall_mem_cons.mpr ⟨⟨rfl, compresses⟩, areWindows⟩

end

theorem runOn_compressibleWindows (tokenizer : Tokenizer) (text : Text) {least : Nat}
    (positive : 1 ≤ least) (minRatio : Float) {desk after : Desk σ} {windows : List Window}
    (found : (tokenizer.windowsAt text supply (Window.offsets text.length least)).runOn desk =
      (.ok windows, after)) :
    (tokenizer.compressibleWindows text least minRatio supply).runOn desk =
      (.ok (Window.best (windows.filter fun window => decide (minRatio < window.charsPerToken))),
        after) := by
  have long : ¬ (least : Int) < 1 := by omega
  have searched : Computation.outcome (tokenizer.windowsAt text supply
      (Window.offsets text.length (least : Int).toNat)) desk = (.ok windows, after) := found
  change Computation.outcome (tokenizer.compressibleWindows text least minRatio supply) desk = _
  rw [compressibleWindows]
  simp only [long, ↓reduceIte]
  rw [Computation.outcome_bind, searched]
  rfl

/-- A search gives each compressible window once, the best first, but for the window of the least length
at the end of the text. So it is exhaustive exactly if that window does not compress well. -/
theorem compressibleWindows_but_last (tokenizer : Tokenizer) (text : Text) (least : Nat)
    (positive : 1 ≤ least) (minRatio : Float) (supply : Supply σ) (ready : supply.IsReady)
    (desk : Desk σ) : ∃ windows after,
      (tokenizer.compressibleWindows text least minRatio supply).runOn desk =
        (.ok windows, after) ∧
      (∀ window, window ∈ windows ↔ tokenizer.IsCompressible text least minRatio window ∧
        window.start + least ≠ text.length) ∧
      (windows.map Window.place).Nodup ∧ windows.Pairwise Window.Before ∧
      ((∀ window, window ∈ windows ↔ tokenizer.IsCompressible text least minRatio window) ↔
        ∀ window, tokenizer.IsCompressible text least minRatio window →
          window.start + least ≠ text.length) := by
  obtain ⟨windows, after, found, placesEq, areWindows⟩ :=
    runOn_windowsAt ready tokenizer text (Window.offsets text.length least) desk
  let kept := windows.filter fun window => decide (minRatio < window.charsPerToken)
  have keptPlaces : (kept.map Window.place).Sublist (Window.offsets text.length least) :=
    placesEq ▸ List.filter_sublist.map Window.place
  have ordered : (kept.map Window.place).Pairwise (Prod.Lex (· < ·) (· < ·)) :=
    (Window.pairwise_offsets text.length least).sublist keptPlaces
  have sortedPerm : (Window.best kept).Perm kept := List.mergeSort_perm _ _
  have listed (window : Window) : window ∈ Window.best kept ↔
      tokenizer.IsCompressible text least minRatio window ∧ window.start + least ≠ text.length := by
    rw [sortedPerm.mem_iff, List.mem_filter, mem_iff_of_places placesEq areWindows,
      Window.mem_offsets_iff, decide_eq_true_iff]
    constructor
    · rintro ⟨⟨⟨before, long, inside⟩, isWindow⟩, exceeds⟩
      exact ⟨⟨isWindow, long, inside, exceeds⟩, by unfold Window.place at before; omega⟩
    · rintro ⟨⟨isWindow, long, inside, exceeds⟩, notLast⟩
      exact ⟨⟨⟨by unfold Window.place; omega, long, inside⟩, isWindow⟩, exceeds⟩
  refine ⟨Window.best kept, after, runOn_compressibleWindows tokenizer text positive minRatio found,
    listed, (sortedPerm.map _).nodup_iff.mpr ordered.nodup, Window.pairwise_best ordered, ?_⟩
  constructor
  · intro exhaustive window compressible
    exact ((listed window).mp ((exhaustive window).mpr compressible)).2
  · intro noneLast window
    rw [listed window]
    exact ⟨And.left, fun compressible => ⟨compressible, noneLast window compressible⟩⟩

/-- Two windows have the same ratio; the window at the end is not found. -/
theorem compressibleWindows_but_last_of_pairs :
    let tokenizer := ofVocabulary {
      tokens := #["ab".toList]
      merges := none
      bos := none
      eos := none
      modelType := none
      specialIds := []
      bos_lt_size := by decide
      eos_lt_size := by decide
      specialIds_lt_size := by decide }
    let desk : Desk Script := Desk.fresh ⟨[], [], 0, 0⟩
    let text : Text := "abab".toList
    1 ≤ 2 ∧ (Supply.current : Supply Script).IsReady ∧
    tokenizer.IsCompressible text 2 1.0 ⟨2, 4, "ab".toList, 1⟩ ∧
    ∃ windows after, (tokenizer.compressibleWindows text 2 1.0 .current).runOn desk =
        (.ok windows, after) ∧
      ⟨0, 2, "ab".toList, 1⟩ ∈ windows ∧ ⟨2, 4, "ab".toList, 1⟩ ∉ windows ∧
      (windows.map Window.place).Nodup ∧ windows.Pairwise Window.Before := by
  intro tokenizer desk text
  have ready : (Supply.current : Supply Script).IsReady := fun _ _ => rfl
  have returned : (tokenizer.compress "ab".toList none true .current).runOn desk =
      (.ok ⟨"ab".toList, [0], ["ab".toList]⟩, ⟨⟨[], [], 0, 1⟩, #[]⟩) := rfl
  have compresses := compressesTo_of_returned ready returned
  have first : tokenizer.IsCompressible text 2 1.0 ⟨0, 2, "ab".toList, 1⟩ :=
    ⟨⟨rfl, compresses⟩, by decide, by decide, by decide⟩
  have last : tokenizer.IsCompressible text 2 1.0 ⟨2, 4, "ab".toList, 1⟩ :=
    ⟨⟨rfl, compresses⟩, by decide, by decide, by decide⟩
  obtain ⟨windows, after, found, listed, once, sorted, -⟩ :=
    compressibleWindows_but_last tokenizer text 2 (by decide) 1.0 (Supply.current : Supply Script)
      ready desk
  refine ⟨by decide, ready, last, windows, after, found, (listed _).mpr ⟨first, by decide⟩, ?_, once,
    sorted⟩
  exact fun member => ((listed _).mp member).2 rfl

/-- A text of the least length is not looked at, though it is one token. -/
theorem compressibleWindows_misses_whole_text :
    let tokenizer := ofVocabulary {
      tokens := #["aaaaaaaaaa".toList]
      merges := none
      bos := none
      eos := none
      modelType := none
      specialIds := []
      bos_lt_size := by decide
      eos_lt_size := by decide
      specialIds_lt_size := by decide }
    let desk : Desk Script := Desk.fresh ⟨[], [], 0, 0⟩
    let text : Text := "aaaaaaaaaa".toList
    (tokenizer.compressibleWindows text Window.defaultLength Window.defaultRatio .current).runOn desk =
      (.ok [], desk) ∧
    tokenizer.IsCompressible text 10 Window.defaultRatio ⟨0, 10, text, 1⟩ ∧
    ¬ ∀ window, window ∈ ([] : List Window) ↔
      tokenizer.IsCompressible text 10 Window.defaultRatio window := by
  intro tokenizer desk text
  have returned : (tokenizer.compress text none true .current).runOn desk =
      (.ok ⟨text, [0], [text]⟩, ⟨⟨[], [], 0, 1⟩, #[]⟩) := rfl
  have compressible : tokenizer.IsCompressible text 10 Window.defaultRatio ⟨0, 10, text, 1⟩ :=
    ⟨⟨rfl, compressesTo_of_returned (fun _ _ => rfl) returned⟩, by decide, by decide, by decide⟩
  refine ⟨?_, compressible, fun exhaustive => ?_⟩
  · have nothing : Window.best [] = [] := List.mergeSort_nil
    have found : (tokenizer.windowsAt text .current (Window.offsets text.length 10)).runOn desk =
        (.ok [], desk) := rfl
    have searched := runOn_compressibleWindows tokenizer text (by decide) Window.defaultRatio found
    rwa [List.filter_nil, nothing] at searched
  · cases (exhaustive ⟨0, 10, text, 1⟩).mpr compressible

end Tokenizer

end Tessera
