import Mathlib
import RichDoc.Proofs.Range.Whole

/-!
# Where ranges are cut

A range is only ever cut at an end of a range of a higher mark. The one
that cuts is itself a piece most of the time, and what looks like its end
may be the place where a third range cut it before. So the ends of all
pieces are followed through the sweep (`Bounded`): each of them is the end
of the range that the piece is from, or the end of a range that is higher,
and of two that are higher one after the other the first is higher than
the piece.
-/

namespace RichDoc

/-- A range of a higher mark starts or ends at the position. -/
def HigherEnd (order : Nat → Nat → Ordering) (ranges : List MarkRange) (mark position : Nat) :
    Prop :=
  ∃ range ∈ ranges, order range.mark mark = .gt ∧
    (position = range.start ∨ position = range.stop)

/-- Each end of the part is that end of the range, or one of a range of a higher mark. -/
structure Bounded (order : Nat → Nat → Ordering) (ranges : List MarkRange)
    (part range : MarkRange) : Prop where
  mark : part.mark = range.mark
  origin : part.origin = range.origin
  left : part.start = range.start ∨ HigherEnd order ranges part.mark part.start
  right : part.stop = range.stop ∨ HigherEnd order ranges part.mark part.stop

namespace Bounded

variable {order : Nat → Nat → Ordering} {size : Nat} {ranges : List MarkRange}
  {part range cutter : MarkRange} {x : Nat}

theorem refl (range : MarkRange) : Bounded order ranges range range :=
  ⟨rfl, rfl, .inl rfl, .inl rfl⟩

/-- An end of a higher part is an end of a higher range. -/
theorem higherEnd (hlinear : LinearBelow order size) (hsize : ∀ r ∈ ranges, r.mark < size)
    (h : Bounded order ranges cutter range) (hr : range ∈ ranges) {mark : Nat} (hmark : mark < size)
    (higher : order cutter.mark mark = .gt) (hx : x = cutter.start ∨ x = cutter.stop) :
    HigherEnd order ranges mark x := by
  have hcutter : cutter.mark < size := by
    rw [h.mark]
    exact hsize range hr
  -- a range that is higher than the cutter is higher than what the cutter cuts
  have further (hend : HigherEnd order ranges cutter.mark x) : HigherEnd order ranges mark x := by
    obtain ⟨other, hother, hgt, hat⟩ := hend
    exact ⟨other, hother,
      hlinear.trans _ (hsize other hother) _ hcutter _ hmark hgt higher, hat⟩
  have own (hat : x = range.start ∨ x = range.stop) : HigherEnd order ranges mark x :=
    ⟨range, hr, h.mark ▸ higher, hat⟩
  rcases hx with rfl | rfl
  · rcases h.left with hleft | hleft
    · exact own (.inl hleft)
    · exact further hleft
  · rcases h.right with hright | hright
    · exact own (.inr hright)
    · exact further hright

/-- Where a part is cut at a higher end, both of what is left of it are bounded. -/
theorem cut (h : Bounded order ranges part range) (hx : HigherEnd order ranges part.mark x) :
    Bounded order ranges { part with stop := x } range ∧
      Bounded order ranges { part with start := x } range :=
  ⟨⟨h.mark, h.origin, h.left, .inr hx⟩, ⟨h.mark, h.origin, .inr hx, h.right⟩⟩

end Bounded

namespace Sweep

/-- Everything in the sweep is bounded by one of the ranges that it began with. -/
def Bounds (order : Nat → Nat → Ordering) (ranges : List MarkRange) (sweep : Sweep) : Prop :=
  ∀ part ∈ sweep.ranges, ∃ range ∈ ranges, Bounded order ranges part range

variable {order : Nat → Nat → Ordering} {size : Nat} {ranges : List MarkRange}
  {sweep next final : Sweep}

/-- A cut at an end of a higher part keeps everything bounded. -/
theorem bounds_of_cut (hlinear : LinearBelow order size) (hsize : ∀ r ∈ ranges, r.mark < size)
    (h : sweep.Bounds order ranges) {cutter part : MarkRange} {rest : List MarkRange} {x : Nat}
    (hcutter : cutter ∈ sweep.ranges) (higher : order cutter.mark part.mark = .gt)
    (hx : x = cutter.start ∨ x = cutter.stop) (before : sweep.ranges.Perm (part :: rest))
    (after : next.ranges.Perm ({ part with stop := x } :: { part with start := x } :: rest)) :
    next.Bounds order ranges := by
  obtain ⟨range, hr, hpart⟩ := h part (before.mem_iff.mpr (List.mem_cons_self ..))
  obtain ⟨source, hsource, hbounded⟩ := h cutter hcutter
  have hmark : part.mark < size := by
    rw [hpart.mark]
    exact hsize range hr
  obtain ⟨hleft, hright⟩ :=
    hpart.cut (hbounded.higherEnd hlinear hsize hsource hmark higher hx)
  intro piece hp
  rcases List.mem_cons.mp (after.mem_iff.mp hp) with rfl | hp
  · exact ⟨range, hr, hleft⟩
  · rcases List.mem_cons.mp hp with rfl | hp
    · exact ⟨range, hr, hright⟩
    · exact h piece (before.mem_iff.mpr (List.mem_cons_of_mem _ hp))

theorem Orderly.bounds_turn (hlinear : LinearBelow order size)
    (hsize : ∀ r ∈ ranges, r.mark < size) (turn : Turn order sweep next)
    (ho : sweep.Orderly order ranges) (h : sweep.Bounds order ranges) :
    next.Bounds order ranges := by
  cases turn with
  | @enter range queue opened closed n k fits =>
      exact fun part hp => h part ((perm_opened queue ⟨n, range⟩ opened closed).mem_iff.mp hp)
  | leave ended =>
      exact fun part hp => h part (((perm_closed ..).trans (perm_opened ..).symm).mem_iff.mp hp)
  | @trim range queue top outer closed n k outlives same =>
      have hne := Nat.lt_trans outlives.1 outlives.2
      have hmem : top.range ∈ queue ++ (closed ++ top :: outer).map Piece.range := by simp
      have hreached := ho.tidy.reached top (List.mem_cons_self ..) range (List.mem_cons_self ..)
      exact absurd outlives.1 (ho.disjointed.not_inside (.refl _) hne hmem same hreached)
  | @yield range queue top outer closed n k outlives differ lower =>
      have htop := ho.mark_lt hsize (mem_ranges.mpr (.inr (.inr ⟨top, List.mem_cons_self .., rfl⟩)))
      have hrange : range ∈ Sweep.ranges ⟨range :: queue, top :: outer, closed, n, k⟩ :=
        mem_ranges.mpr (.inl (List.mem_cons_self ..))
      exact bounds_of_cut hlinear hsize h hrange
        (hlinear.gt_of_lt htop (ho.mark_lt hsize hrange) lower) (.inl rfl) (perm_opened ..)
        (perm_yielded ..)
  | @shorten range queue top outer closed n k outlives differ stays =>
      have htop : top.range ∈ Sweep.ranges ⟨range :: queue, top :: outer, closed, n, k⟩ :=
        mem_ranges.mpr (.inr (.inr ⟨top, List.mem_cons_self .., rfl⟩))
      have hrange := ho.mark_lt hsize (mem_ranges.mpr (.inl (List.mem_cons_self ..)))
      let short : Piece := ⟨n, { range with stop := top.range.stop }⟩
      exact bounds_of_cut hlinear hsize h htop
        (hlinear.gt_of_ne (ho.mark_lt hsize htop) hrange differ stays) (.inr rfl) (.refl _)
        (perm_shortened queue short (top :: outer) closed _)

end Sweep

/-- **Cuts are made at the ends of higher ranges.** Under a priority that orders the registered
marks linearly, and for ranges with origins of their own that have nothing in common where their
marks agree, every untangled range starts where the one range with its origin starts, or else at an
end of a range of a higher mark, and it stops where that range stops, or at such an end. -/
theorem ends_untangle (registry : Registry) (priority : Priority)
    (hlinear : LinearBelow (registry.compare priority) registry.size)
    {ranges out : List MarkRange} (hsize : ∀ range ∈ ranges, range.mark < registry.size)
    (hne : ∀ range ∈ ranges, range.start < range.stop)
    (ho : (ranges.map MarkRange.origin).Nodup)
    (hapart : ranges.Pairwise fun a b => a.mark = b.mark → a.Apart b)
    (h : untangle (registry.compare priority) ranges = .ok out) :
    ∀ part ∈ out, ∃ range, withOrigin part.origin ranges = [range] ∧ part.mark = range.mark ∧
      (part.start = range.start ∨
        HigherEnd (registry.compare priority) ranges part.mark part.start) ∧
      (part.stop = range.stop ∨
        HigherEnd (registry.compare priority) ranges part.mark part.stop) := by
  obtain ⟨final, hfinal, -, hout⟩ := Sweep.exists_final_of_untangle hlinear hsize hne
    (disjointed_of_pairwise hapart) (fun turn hs => hs.bounds_turn hlinear hsize turn)
    (fun part hp => ⟨part, (Sweep.perm_ranges_ofRanges ranges).mem_iff.mp hp, .refl part⟩) h
  intro part hp
  obtain ⟨range, hr, hmark, horigin, hleft, hright⟩ := hfinal part ((hout part).mp hp)
  exact ⟨range, horigin ▸ withOrigin_of_nodup ho hr, hmark, hleft, hright⟩

/-- A strong range runs into a link, and both into a citation. The link is cut where the citation
starts, and the strong range there too and where the link starts. -/
theorem ends_untangle_three :
    let registry := Registry.ofMarks [⟨"strong", []⟩, ⟨"link", []⟩, ⟨"citation", []⟩]
    let ranges : List MarkRange := [⟨0, 0, 6, 0⟩, ⟨1, 2, 7, 1⟩, ⟨2, 4, 8, 2⟩]
    let out : List MarkRange :=
      [⟨0, 0, 2, 0⟩, ⟨0, 2, 4, 0⟩, ⟨1, 2, 4, 1⟩, ⟨2, 4, 8, 2⟩, ⟨1, 4, 7, 1⟩, ⟨0, 4, 6, 0⟩]
    untangle (registry.compare .standard) ranges = .ok out ∧
      ∀ part ∈ out, ∃ range, withOrigin part.origin ranges = [range] ∧ part.mark = range.mark ∧
        (part.start = range.start ∨
          HigherEnd (registry.compare .standard) ranges part.mark part.start) ∧
        (part.stop = range.stop ∨
          HigherEnd (registry.compare .standard) ranges part.mark part.stop) := by
  intro registry ranges out
  have hrun : untangle (registry.compare .standard) ranges = .ok out := by
    unfold registry ranges out
    cbv
  have hlinear : LinearBelow (registry.compare .standard) registry.size :=
    (Registry.sound_ofMarks _).linearBelow_ofRank Priority.tierRank
  have hthree : registry.size = 3 := by
    unfold registry
    cbv
  exact ⟨hrun, ends_untangle registry .standard hlinear (by rw [hthree]; decide) (by decide)
    (by decide) (by decide) hrun⟩

end RichDoc
