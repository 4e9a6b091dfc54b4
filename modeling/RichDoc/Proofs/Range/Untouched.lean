import Mathlib
import RichDoc.Proofs.Range.Budget
import RichDoc.Proofs.Range.Opening

/-!
# Ranges that nest already

A sweep over ranges that nest does not cut anything, whatever the order of
their marks is. A range that outlives the innermost open one would either
start inside it, and then the two cross, or start with it, and then it is
the longer one and has been visited before (`Sweep.Untouched`). So every
turn opens a range as it is or closes one, and all that is left to be done
is to sort the ranges for opening.
-/

namespace RichDoc

theorem Laminar.not_crosses {l : List MarkRange} (h : Laminar l) {a b : MarkRange} (ha : a ∈ l)
    (hb : b ∈ l) : ¬ a.Crosses b := by
  rcases eq_or_ne a b with rfl | hne
  · exact fun hcrosses => Nat.lt_irrefl _ hcrosses.1
  · have hsymm : Std.Symm fun a b : MarkRange => ¬ a.Crosses b ∧ ¬ b.Crosses a :=
      ⟨fun _ _ hab => ⟨hab.2, hab.1⟩⟩
    exact (List.Pairwise.forall h ha hb hne).1

namespace Sweep

/-- The sweep has all ranges just as they came, and nothing waits to cut an open one. -/
structure Untouched (ranges : List MarkRange) (sweep : Sweep) : Prop where
  tidy : sweep.Tidy
  perm : sweep.ranges.Perm ranges
  uncut : sweep.resolutions = 0
  unexposed : ∀ p ∈ sweep.opened, exposed sweep.queue p = false

namespace Untouched

variable {order : Nat → Nat → Ordering} {ranges : List MarkRange} {sweep next : Sweep}
  {range : MarkRange} {queue : List MarkRange} {top : Piece} {outer closed : List Piece} {n k : Nat}

/-- Of ranges that nest, none outlives an open one in which it starts. -/
theorem not_outlives (hlaminar : Laminar ranges)
    (h : Untouched ranges ⟨range :: queue, top :: outer, closed, n, k⟩) :
    ¬ Outlives range top := by
  intro outlives
  have hreached := h.tidy.reached top (List.mem_cons_self ..) range (List.mem_cons_self ..)
  rcases Nat.lt_or_eq_of_le hreached with hlt | heq
  · have hrange : range ∈ Sweep.ranges ⟨range :: queue, top :: outer, closed, n, k⟩ := by
      simp [Sweep.ranges]
    have htop : top.range ∈ Sweep.ranges ⟨range :: queue, top :: outer, closed, n, k⟩ := by
      simp [Sweep.ranges]
    exact (hlaminar.perm h.perm.symm).not_crosses htop hrange ⟨hlt, outlives.1, outlives.2⟩
  · have hexposed : exposed (range :: queue) top = true :=
      exposed_iff.mpr ⟨range, List.mem_cons_self .., Nat.le_of_eq heq.symm, outlives.2⟩
    rw [h.unexposed top (List.mem_cons_self ..)] at hexposed
    cases hexposed

theorem turn (hlaminar : Laminar ranges) (turn : Turn order sweep next)
    (h : sweep.Untouched ranges) : next.Untouched ranges := by
  have hexposed {p : Piece} (hopen : p ∈ sweep.opened) (hstill : p ∈ next.opened) :
      exposed next.queue p = false := by
    refine Bool.eq_false_iff.mpr fun he => ?_
    have := exposed_of_turn turn h.tidy hopen hstill he
    rw [h.unexposed p hopen] at this
    cases this
  have htidy := h.tidy.turn turn
  cases turn with
  | @enter range queue opened closed n k fits =>
      refine ⟨htidy, (perm_opened queue ⟨n, range⟩ opened closed).trans h.perm, h.uncut,
        List.forall_mem_cons.mpr ⟨exposed_eq_false_of_first h.tidy.sorted, fun p hp => ?_⟩⟩
      exact hexposed hp (List.mem_cons_of_mem _ hp)
  | leave ended =>
      refine ⟨htidy, ((perm_closed ..).trans (perm_opened ..).symm).trans h.perm, h.uncut,
        fun p hp => ?_⟩
      exact hexposed (List.mem_cons_of_mem _ hp) hp
  | trim outlives => exact absurd outlives (h.not_outlives hlaminar)
  | yield outlives => exact absurd outlives (h.not_outlives hlaminar)
  | shorten outlives => exact absurd outlives (h.not_outlives hlaminar)

theorem ofRanges (hne : ∀ r ∈ ranges, r.start < r.stop) :
    (Sweep.ofRanges ranges).Untouched ranges :=
  ⟨tidy_ofRanges hne, perm_ranges_ofRanges ranges, rfl, nofun⟩

end Untouched

/-- A sweep over ranges that nest ends with these ranges, and has cut none of them. -/
theorem exists_turns_of_laminar (order : Nat → Nat → Ordering) {ranges : List MarkRange}
    (hne : ∀ r ∈ ranges, r.start < r.stop) (hlaminar : Laminar ranges) :
    ∃ final, Turns order (Sweep.ofRanges ranges) final ∧ final.queue = [] ∧
      final.resolutions = 0 ∧ final.pieces.Perm ranges := by
  obtain ⟨final, hrun⟩ :=
    @exists_run_of_credit_le order _ _ (tidy_ofRanges hne) (Nat.le_refl _)
  obtain ⟨turns, hq⟩ := turns_of_run hrun
  have hfinal := turns.keep (Untouched.turn hlaminar) (Untouched.ofRanges hne)
  exact ⟨final, turns, hq, hfinal.uncut, (perm_pieces_of_finished hq).trans hfinal.perm⟩

end Sweep

/-- **Ranges that nest pass through.** Under a priority that orders the registered marks linearly,
untangling ranges that nest, no two of which have both mark and extent in common, always gives a
result, and that is the ranges sorted for opening, in whatever order they came. -/
theorem untangle_of_laminar (registry : Registry) (priority : Priority)
    (hlinear : LinearBelow (registry.compare priority) registry.size) {ranges : List MarkRange}
    (hsize : ∀ range ∈ ranges, range.mark < registry.size)
    (hne : ∀ range ∈ ranges, range.start < range.stop) (hlaminar : Laminar ranges)
    (hdistinct : (ranges.map fun range => (range.mark, range.start, range.stop)).Nodup) :
    untangle (registry.compare priority) ranges =
      .ok (sortForOpening (registry.compare priority) ranges) := by
  obtain ⟨final, turns, hq, huncut, hperm⟩ :=
    Sweep.exists_turns_of_laminar (registry.compare priority) hne hlaminar
  have hrun := Sweep.run_of_turns turns hq (huncut ▸ Nat.zero_le (cutBudget ranges))
  rw [untangle, hrun, ← sortForOpening_perm hlinear hsize hdistinct hperm]
  rfl

/-- Five ranges that come in no order: a link in a strong range in a citation of the same extent,
a second strong range inside the first, and a link behind them. -/
theorem untangle_of_laminar_five :
    let registry := Registry.ofMarks [⟨"strong", []⟩, ⟨"link", []⟩, ⟨"citation", []⟩]
    let ranges : List MarkRange :=
      [⟨1, 6, 8, 4⟩, ⟨0, 1, 3, 2⟩, ⟨2, 0, 6, 0⟩, ⟨1, 1, 3, 3⟩, ⟨0, 0, 6, 1⟩]
    untangle (registry.compare .standard) ranges =
        .ok (sortForOpening (registry.compare .standard) ranges) ∧
      sortForOpening (registry.compare .standard) ranges =
        [⟨0, 0, 6, 1⟩, ⟨2, 0, 6, 0⟩, ⟨0, 1, 3, 2⟩, ⟨1, 1, 3, 3⟩, ⟨1, 6, 8, 4⟩] := by
  intro registry ranges
  have hlinear : LinearBelow (registry.compare .standard) registry.size :=
    (Registry.sound_ofMarks _).linearBelow_ofRank Priority.tierRank
  have hthree : registry.size = 3 := by
    unfold registry
    cbv
  refine ⟨untangle_of_laminar registry .standard hlinear (by rw [hthree]; decide) (by decide)
    (by decide) (by decide), ?_⟩
  unfold registry ranges
  cbv

end RichDoc
