import RichDoc.Proofs.Range.Coverage

/-!
# Only the marks at hand are compared

Untangling compares no marks but those of its ranges. So two orders that
agree on these cut the ranges in the same way, and it does not matter what
else has been registered by the time the ranges are untangled.
-/

namespace RichDoc

/-- Two orders give the same answers for the marks of some ranges. -/
def AgreeOn (order order' : Nat → Nat → Ordering) (ranges : List MarkRange) : Prop :=
  ∀ a ∈ ranges, ∀ b ∈ ranges, order a.mark b.mark = order' a.mark b.mark

variable {order order' : Nat → Nat → Ordering} {ranges out : List MarkRange}

/-- Ranges cut from others have no marks but theirs. -/
theorem AgreeOn.of_cutFrom {parts : List MarkRange} (h : AgreeOn order order' ranges)
    (hparts : ∀ part ∈ parts, ∃ range ∈ ranges, part.CutFrom range) :
    AgreeOn order order' parts := by
  intro a ha b hb
  obtain ⟨source, hsource, hcut⟩ := hparts a ha
  obtain ⟨source', hsource', hcut'⟩ := hparts b hb
  rw [hcut.mark, hcut'.mark]
  exact h source hsource source' hsource'

namespace Sweep

variable {sweep next final : Sweep}

theorem turn_of_agreeOn (turn : Turn order sweep next) (h : AgreeOn order order' sweep.ranges) :
    Turn order' sweep next := by
  cases turn with
  | enter fits => exact .enter fits
  | leave ended => exact .leave ended
  | trim outlives same => exact .trim outlives same
  | @yield range queue top outer closed n k outlives differ lower =>
      refine .yield outlives differ ?_
      rw [← h top.range (by simp [Sweep.ranges]) range (by simp [Sweep.ranges])]
      exact lower
  | @shorten range queue top outer closed n k outlives differ stays =>
      refine .shorten outlives differ ?_
      rw [← h top.range (by simp [Sweep.ranges]) range (by simp [Sweep.ranges])]
      exact stays

theorem turns_of_agreeOn (turns : Turns order sweep final) (htidy : sweep.Tidy)
    (hcut : ∀ part ∈ sweep.ranges, ∃ range ∈ ranges, part.CutFrom range)
    (h : AgreeOn order order' ranges) : Turns order' sweep final := by
  induction turns with
  | refl => exact .refl
  | head turn _ ih =>
      exact .head (turn_of_agreeOn turn (h.of_cutFrom hcut))
        (ih (htidy.turn turn) ((recut_of_turn turn htidy).cutFrom hcut))

end Sweep

theorem sortForOpening_of_agreeOn (h : AgreeOn order order' ranges) :
    sortForOpening order ranges = sortForOpening order' ranges := by
  have hsame : ∀ a ∈ ranges, ∀ b ∈ ranges, openingOrder order a b = openingOrder order' a b := by
    intro a ha b hb
    unfold openingOrder
    rw [h a ha b hb]
  have hsort := @List.map_mergeSort _ _ (fun a b => openingOrder order a b != .gt)
    (fun a b => openingOrder order' a b != .gt) id ranges fun a ha b hb => by
      rw [hsame a ha b hb]
      rfl
  rwa [List.map_id, List.map_id] at hsort

/-- Orders that agree on the marks of the ranges cut them in the same way. -/
theorem untangle_of_agreeOn (hne : ∀ range ∈ ranges, range.start < range.stop)
    (h : AgreeOn order order' ranges) (hout : untangle order ranges = .ok out) :
    untangle order' ranges = .ok out := by
  unfold untangle at hout ⊢
  cases hrun : (Sweep.ofRanges ranges).run order (cutBudget ranges) with
  | error cause =>
      rw [hrun] at hout
      cases hout
  | ok final =>
      rw [hrun] at hout
      cases hout
      obtain ⟨turns, hq⟩ := Sweep.turns_of_run hrun
      have htidy := Sweep.tidy_ofRanges hne
      have hinit : ∀ part ∈ (Sweep.ofRanges ranges).ranges, ∃ range ∈ ranges, part.CutFrom range :=
        fun part hp => by
          have hmem := (Sweep.perm_ranges_ofRanges ranges).mem_iff.mp hp
          exact ⟨part, hmem, .refl (hne part hmem)⟩
      have hturns := Sweep.turns_of_agreeOn turns htidy hinit h
      have hbudget := Sweep.resolutions_le_of_run hrun (Nat.zero_le _)
      have hpieces : AgreeOn order order' final.pieces := h.of_cutFrom fun part hp =>
        Sweep.cutFrom_of_turns turns htidy hinit part
          ((Sweep.perm_pieces_of_finished hq).mem_iff.mp hp)
      rw [Sweep.run_of_turns hturns hq hbudget]
      exact congrArg Except.ok (sortForOpening_of_agreeOn hpieces).symm

end RichDoc
