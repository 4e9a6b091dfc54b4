import Mathlib
import RichDoc.Proofs.Export.Objects

/-!
# Where the leaves of a container stand

The containers around a leaf are known (`full_nesting_of_assemble`), and from
that it follows which leaves are in a container: just those at the positions
that its range holds. This is not immediate, as nothing says that no two of
the ranges are the same, and the leaves would not tell them apart. But no
container is around more leaves than its range holds positions, and counted
over all containers the two are equal.
-/

namespace RichDoc

open Pandoc (Inline)

mutual

/-- How many leaves there are. -/
def Nesting.size : Nesting → Nat
  | .leaf _ => 1
  | .container _ content => sizeIn content

def sizeIn : List Nesting → Nat
  | [] => 0
  | nesting :: rest => nesting.size + sizeIn rest

end

/-- A container, the position of its first leaf, and how many it has. -/
structure Span where
  opening : Opening
  position : Nat
  size : Nat

/-- The leaves are those at the positions that the range holds. -/
def Span.Fits (span : Span) : Prop :=
  ∀ position, span.opening.range.Holds position ↔
    span.position ≤ position ∧ position < span.position + span.size

mutual

/-- The containers of a nesting whose first leaf has the position, each before those in it. -/
def Nesting.spans (position : Nat) : Nesting → List Span
  | .leaf _ => []
  | .container opening content => ⟨opening, position, sizeIn content⟩ :: spansIn position content

def spansIn (position : Nat) : List Nesting → List Span
  | [] => []
  | nesting :: rest => nesting.spans position ++ spansIn (position + nesting.size) rest

end

/-! ## Sizes and places -/

mutual

theorem Nesting.length_leaves : ∀ (nesting : Nesting) (outer : List Opening),
    (nesting.leaves outer).length = nesting.size
  | .leaf _, _ => rfl
  | .container _ content, _ => length_leavesIn content _

theorem length_leavesIn : ∀ (forest : List Nesting) (outer : List Opening),
    (leavesIn outer forest).length = sizeIn forest
  | [], _ => rfl
  | nesting :: rest, outer => by
      rw [leavesIn, List.length_append, nesting.length_leaves, length_leavesIn rest, sizeIn]

end

mutual

theorem Nesting.map_opening_spans : ∀ (nesting : Nesting) (position : Nat),
    (nesting.spans position).map Span.opening = nesting.openings
  | .leaf _, _ => rfl
  | .container opening content, position =>
      congrArg (opening :: ·) (map_opening_spansIn content position)

theorem map_opening_spansIn : ∀ (forest : List Nesting) (position : Nat),
    (spansIn position forest).map Span.opening = openingsIn forest
  | [], _ => rfl
  | nesting :: rest, position => by
      rw [spansIn, List.map_append, nesting.map_opening_spans, map_opening_spansIn rest, openingsIn]

end

mutual

theorem Nesting.size_pos : ∀ nesting : Nesting, nesting.Full → 0 < nesting.size
  | .leaf _, _ => Nat.zero_lt_one
  | .container _ content, h => sizeIn_pos content h.1 h.2

theorem sizeIn_pos : ∀ forest : List Nesting, forest ≠ [] → FullIn forest → 0 < sizeIn forest
  | [], hne, _ => absurd rfl hne
  | nesting :: _, _, h => Nat.add_pos_left (nesting.size_pos h.1) _

end

mutual

/-- A container has its leaves among those of the nesting. -/
theorem Nesting.place_of_mem_spans : ∀ (nesting : Nesting) (position : Nat),
    ∀ span ∈ nesting.spans position,
      position ≤ span.position ∧ span.position + span.size ≤ position + nesting.size
  | .leaf _, _, _, h => nomatch h
  | .container _ content, position, span, h => by
      rcases List.mem_cons.mp h with rfl | h
      · exact ⟨Nat.le_refl _, Nat.le_refl _⟩
      · exact place_of_mem_spansIn content position span h

theorem place_of_mem_spansIn : ∀ (forest : List Nesting) (position : Nat),
    ∀ span ∈ spansIn position forest,
      position ≤ span.position ∧ span.position + span.size ≤ position + sizeIn forest
  | [], _, _, h => nomatch h
  | nesting :: rest, position, span, h => by
      rw [sizeIn]
      rcases List.mem_append.mp h with h | h
      · have hplace := nesting.place_of_mem_spans position span h
        omega
      · have hplace := place_of_mem_spansIn rest _ span h
        omega

end

mutual

theorem Nesting.size_pos_of_mem_spans : ∀ (nesting : Nesting) (position : Nat), nesting.Full →
    ∀ span ∈ nesting.spans position, 0 < span.size
  | .leaf _, _, _, _, h => nomatch h
  | .container _ content, position, hfull, span, h => by
      rcases List.mem_cons.mp h with rfl | h
      · exact sizeIn_pos content hfull.1 hfull.2
      · exact size_pos_of_mem_spansIn content position hfull.2 span h

theorem size_pos_of_mem_spansIn : ∀ (forest : List Nesting) (position : Nat), FullIn forest →
    ∀ span ∈ spansIn position forest, 0 < span.size
  | [], _, _, _, h => nomatch h
  | nesting :: rest, position, hfull, span, h => by
      rcases List.mem_append.mp h with h | h
      · exact nesting.size_pos_of_mem_spans position hfull.1 span h
      · exact size_pos_of_mem_spansIn rest _ hfull.2 span h

end

mutual

/-- The leaves in a container have it around them. -/
theorem Nesting.exists_leaf_of_mem_spans : ∀ (nesting : Nesting) (position : Nat)
    (outer : List Opening), ∀ span ∈ nesting.spans position, ∀ offset,
    span.position ≤ position + offset → position + offset < span.position + span.size →
      ∃ leaf, (nesting.leaves outer)[offset]? = some leaf ∧ span.opening ∈ leaf.2
  | .leaf _, _, _, _, h => nomatch h
  | .container opening content, position, outer, span, h => by
      intro offset hle hlt
      rcases List.mem_cons.mp h with rfl | h
      · have hin : offset < (leavesIn (outer ++ [opening]) content).length := by
          rw [length_leavesIn]
          exact Nat.lt_of_add_lt_add_left hlt
        refine ⟨_, List.getElem?_eq_getElem hin, ?_⟩
        exact (prefix_of_mem_leavesIn content _ _ (List.getElem_mem hin)).subset
          (List.mem_append_right _ (List.mem_singleton_self _))
      · exact exists_leaf_of_mem_spansIn content position _ span h offset hle hlt

theorem exists_leaf_of_mem_spansIn : ∀ (forest : List Nesting) (position : Nat)
    (outer : List Opening), ∀ span ∈ spansIn position forest, ∀ offset,
    span.position ≤ position + offset → position + offset < span.position + span.size →
      ∃ leaf, (leavesIn outer forest)[offset]? = some leaf ∧ span.opening ∈ leaf.2
  | [], _, _, _, h => nomatch h
  | nesting :: rest, position, outer, span, h => by
      intro offset hle hlt
      have hlength := nesting.length_leaves outer
      rw [leavesIn]
      rcases List.mem_append.mp h with h | h
      · have hplace := nesting.place_of_mem_spans position span h
        rw [List.getElem?_append_left (by omega)]
        exact nesting.exists_leaf_of_mem_spans position outer span h offset hle hlt
      · have hplace := place_of_mem_spansIn rest _ span h
        rw [List.getElem?_append_right (by omega), hlength]
        exact exists_leaf_of_mem_spansIn rest _ outer span h _ (by omega) (by omega)

end

/-! ## Counting leaves and containers -/

mutual

/-- Every container adds as many entries to the leaves as it has leaves. -/
theorem Nesting.sum_leaves : ∀ (nesting : Nesting) (position : Nat) (outer : List Opening),
    ((nesting.leaves outer).map fun leaf => leaf.2.length).sum =
      outer.length * nesting.size + ((nesting.spans position).map Span.size).sum
  | .leaf _, _, outer => by simp [Nesting.leaves, Nesting.size, Nesting.spans]
  | .container opening content, position, outer => by
      rw [Nesting.leaves, Nesting.spans, List.map_cons, List.sum_cons,
        sum_leavesIn content position, Nesting.size, List.length_append, List.length_singleton,
        Nat.add_mul, Nat.one_mul, Nat.add_assoc]

theorem sum_leavesIn : ∀ (forest : List Nesting) (position : Nat) (outer : List Opening),
    ((leavesIn outer forest).map fun leaf => leaf.2.length).sum =
      outer.length * sizeIn forest + ((spansIn position forest).map Span.size).sum
  | [], _, outer => by simp [leavesIn, sizeIn, spansIn]
  | nesting :: rest, position, outer => by
      rw [leavesIn, List.map_append, List.sum_append, nesting.sum_leaves position,
        sum_leavesIn rest (position + nesting.size), sizeIn, spansIn, List.map_append,
        List.sum_append, Nat.mul_add]
      omega

end

/-- Counting pairs by their first part or by their second one comes to the same. -/
theorem sum_countP_comm {α β : Type} (r : α → β → Bool) (l : List α) (l' : List β) :
    (l.map fun a => l'.countP (r a)).sum = (l'.map fun b => l.countP (r · b)).sum := by
  have hcount (a : α) : l'.countP (r a) = (l'.map fun b => if r a b = true then 1 else 0).sum := by
    induction l' with
    | nil => rfl
    | cons b rest ih => rw [List.countP_cons, ih, List.map_cons, List.sum_cons, Nat.add_comm]
  induction l with
  | nil => simp
  | cons a rest ih =>
      rw [List.map_cons, List.sum_cons, ih, hcount]
      simp only [List.countP_cons, List.sum_map_add]
      exact Nat.add_comm _ _

/-- Where all positions of a stretch count, there are as many that do not lie in it as are
missing. -/
theorem countP_range_eq {p : Nat → Bool} {start size stop : Nat} (hstop : start + size ≤ stop)
    (hin : ∀ i, start ≤ i → i < start + size → p i = true) :
    size ≤ (List.range stop).countP p ∧
      ((List.range stop).countP p = size →
        ∀ i < stop, p i = true → start ≤ i ∧ i < start + size) := by
  obtain ⟨rest, rfl⟩ := Nat.exists_eq_add_of_le hstop
  have hsplit : (List.range (start + size + rest)).countP p =
      (List.range' 0 start).countP p + size + (List.range' (start + size) rest).countP p := by
    have hall : (List.range' start size).countP p = size := by
      rw [List.countP_eq_length.mpr, List.length_range']
      intro i hi
      rw [List.mem_range'_1] at hi
      exact hin i hi.1 hi.2
    rw [List.range_eq_range', ← List.range'_append_1, ← List.range'_append_1, List.countP_append,
      List.countP_append, Nat.zero_add, Nat.zero_add, hall]
  refine ⟨by omega, fun heq i hi hp => ?_⟩
  have hbefore : (List.range' 0 start).countP p = 0 := by omega
  have hbehind : (List.range' (start + size) rest).countP p = 0 := by omega
  rw [List.countP_eq_zero] at hbefore hbehind
  constructor
  · by_contra hlt
    exact hbefore i (List.mem_range'_1.mpr (by omega)) hp
  · by_contra hge
    exact hbehind i (List.mem_range'_1.mpr (by omega)) hp

/-- **The leaves of a container.** In a tree whose leaves stand under the ranges that hold their
positions, the leaves in a container are those at the positions that its range holds. -/
theorem fits_of_placed {forest : List Nesting} {leaves : List Inline}
    (hplaced : leavesIn [] forest = leaves.mapIdx fun position leaf =>
      (leaf, (openingsIn forest).filter fun opening => decide (opening.range.Holds position)))
    (hinside : ∀ opening ∈ openingsIn forest,
      opening.range.start < leaves.length ∧ opening.range.stop ≤ leaves.length) :
    ∀ span ∈ spansIn 0 forest, span.Fits := by
  have hsize : sizeIn forest = leaves.length := by
    rw [← length_leavesIn forest [], hplaced, List.length_mapIdx]
  -- the positions of the leaves in a container are held by its range
  have hheld {span : Span} (hs : span ∈ spansIn 0 forest) {position : Nat}
      (hle : span.position ≤ position) (hlt : position < span.position + span.size) :
      span.opening.range.Holds position := by
    obtain ⟨leaf, hleaf, hmem⟩ :=
      exists_leaf_of_mem_spansIn forest 0 [] span hs position (by omega) (by omega)
    rw [hplaced, List.getElem?_mapIdx, Option.map_eq_some_iff] at hleaf
    obtain ⟨_, -, rfl⟩ := hleaf
    exact of_decide_eq_true (List.mem_filter.mp hmem).2
  let held (span : Span) : Nat := (List.range leaves.length).countP fun position =>
    decide (span.opening.range.Holds position)
  have hstretch {span : Span} (hs : span ∈ spansIn 0 forest) :
      span.size ≤ held span ∧ (held span = span.size → ∀ i < leaves.length,
        decide (span.opening.range.Holds i) = true →
          span.position ≤ i ∧ i < span.position + span.size) := by
    have hplace := place_of_mem_spansIn forest 0 span hs
    exact countP_range_eq (by omega) fun i hle hlt => decide_eq_true (hheld hs hle hlt)
  have htotal : ((spansIn 0 forest).map held).sum = ((spansIn 0 forest).map Span.size).sum := by
    have hlengths : ((leavesIn [] forest).map fun leaf => leaf.2.length) =
        (List.range leaves.length).map fun position => (openingsIn forest).countP fun opening =>
          decide (opening.range.Holds position) := by
      rw [hplaced]
      refine List.ext_getElem (by simp) fun position _ _ => ?_
      simp [List.countP_eq_length_filter]
    have hsum := sum_leavesIn forest 0 []
    rw [List.length_nil, Nat.zero_mul, Nat.zero_add, hlengths, sum_countP_comm,
      ← map_opening_spansIn forest 0, List.map_map] at hsum
    exact hsum
  intro span hs position
  have hall : held span = span.size := by
    refine Nat.le_antisymm (Nat.not_lt.mp fun hlt => ?_) (hstretch hs).1
    have hmore := List.sum_lt_sum _ _ (fun other ho => (hstretch ho).1) ⟨span, hs, hlt⟩
    exact Nat.ne_of_gt hmore htotal
  refine ⟨fun hholds => ?_, fun hat => hheld hs hat.1 hat.2⟩
  have ho : span.opening ∈ openingsIn forest := by
    rw [← map_opening_spansIn forest 0]
    exact List.mem_map_of_mem hs
  obtain ⟨hstart, hstop⟩ := hinside _ ho
  refine (hstretch hs).2 hall position ?_ (decide_eq_true hholds)
  rcases hholds.2 with hlt | rfl
  · exact Nat.lt_of_lt_of_le hlt hstop
  · exact hstart

end RichDoc
