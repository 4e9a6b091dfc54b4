import Mathlib
import RichDoc.Proofs.Range.Whole

/-!
# Cuts that leave nothing

The limit on cuts counts on every piece having a position. Only one kind of
cut breaks that: an open piece that yields to a range that starts with it is
closed where it starts (`Sweep.CutsAtStart`). Whether some untangled range is
empty is therefore the question whether the sweep comes to such a cut.

The piece must be the shorter of the two and open already, though longer
ranges are visited first. So it was shortened when it was opened, at the end
of a range that started before it. Under a linear order of marks that range
and the one that cuts are both higher than the piece, and of two marks
(`Overlain`): it takes three marks on one position to leave an empty piece.
What the limit needs does hold of the pieces that are not empty: no range
has more of them than positions.
-/

namespace RichDoc

variable {order : Nat → Nat → Ordering} {sweep next mid final : Sweep}

theorem Turns.trans (turns : Turns order sweep mid) (more : Turns order mid final) :
    Turns order sweep final := by
  induction turns with
  | refl => exact more
  | head turn _ ih => exact .head turn (ih more)

namespace Sweep

/-- The next range is higher than the innermost open piece, outlives it and starts with it. -/
def CutsAtStart (order : Nat → Nat → Ordering) (sweep : Sweep) : Prop :=
  match sweep.queue, sweep.opened with
  | range :: _, top :: _ =>
    Outlives range top ∧ top.range.start = range.start ∧ top.range.mark ≠ range.mark ∧
      order top.range.mark range.mark = .lt
  | _, _ => False

/-! ## Where empty pieces come from -/

/-- A turn leaves an empty piece just when it cuts one at its start. -/
theorem emptied_lt_iff (turn : Turn order sweep next) (h : sweep.Tidy) :
    sweep.emptied < next.emptied ↔ sweep.CutsAtStart order := by
  cases turn with
  | @enter range queue opened closed n k fits =>
      refine iff_of_false (Nat.lt_irrefl _) ?_
      cases opened with
      | nil => exact id
      | cons top outer =>
          rintro ⟨outlives, -⟩
          exact Nat.not_le.mpr outlives.2 (fits top rfl).2
  | @leave range queue top outer closed n k ended =>
      have hfull : top.range.isEmpty = false :=
        decide_eq_false (Nat.not_le.mpr (h.opened top (List.mem_cons_self ..)))
      simp only [emptied, List.countP_cons, hfull, Bool.false_eq_true, if_false, Nat.add_zero]
      refine iff_of_false (Nat.lt_irrefl _) ?_
      rintro ⟨outlives, -⟩
      exact Nat.not_le.mpr outlives.1 ended
  | @trim range queue top outer closed n k outlives same =>
      refine iff_of_false (Nat.lt_irrefl _) ?_
      rintro ⟨-, -, differ, -⟩
      exact differ same
  | @yield range queue top outer closed n k outlives differ lower =>
      have hreached := h.reached top (List.mem_cons_self ..) range (List.mem_cons_self ..)
      simp only [emptied, List.countP_cons, MarkRange.isEmpty, decide_eq_true_eq]
      constructor
      · intro hlt
        have hempty : range.start ≤ top.range.start := by
          by_contra hcut
          rw [if_neg hcut] at hlt
          exact Nat.lt_irrefl _ hlt
        exact ⟨outlives, Nat.le_antisymm hreached hempty, differ, lower⟩
      · rintro ⟨-, hstart, -⟩
        rw [if_pos (Nat.le_of_eq hstart.symm)]
        exact Nat.lt_succ_self _
  | @shorten range queue top outer closed n k outlives differ stays =>
      refine iff_of_false (Nat.lt_irrefl _) ?_
      rintro ⟨-, -, -, lower⟩
      exact stays lower

theorem emptied_le (turn : Turn order sweep next) : sweep.emptied ≤ next.emptied := by
  cases turn with
  | enter | trim | shorten => exact Nat.le_refl _
  | leave | yield =>
      simp only [emptied, List.countP_cons]
      exact Nat.le_add_right _ _

/-- A sweep leaves empty pieces just when it comes to a cut at the start of a piece. -/
theorem emptied_lt_iff_of_turns (turns : Turns order sweep final) (h : sweep.Tidy) :
    sweep.emptied < final.emptied ↔
      ∃ mid next, Turns order sweep mid ∧ mid.CutsAtStart order ∧ Turn order mid next ∧
        Turns order next final := by
  have hle {s t : Sweep} (turns : Turns order s t) : s.emptied ≤ t.emptied := by
    induction turns with
    | refl => exact Nat.le_refl _
    | head turn _ ih => exact Nat.le_trans (emptied_le turn) ih
  constructor
  · intro hlt
    induction turns with
    | refl => exact absurd hlt (Nat.lt_irrefl _)
    | @head sweep next final turn rest ih =>
        by_cases hcuts : sweep.CutsAtStart order
        · exact ⟨sweep, next, .refl, hcuts, turn, rest⟩
        · have hsame : next.emptied ≤ sweep.emptied :=
            Nat.not_lt.mp (mt (emptied_lt_iff turn h).mp hcuts)
          obtain ⟨mid, after, before, hmid⟩ :=
            ih (h.turn turn) (Nat.lt_of_le_of_lt hsame hlt)
          exact ⟨mid, after, .head turn before, hmid⟩
  · rintro ⟨mid, next, before, hcuts, turn, rest⟩
    have hmid := (emptied_lt_iff turn (tidy_of_turns before h)).mpr hcuts
    exact Nat.lt_of_le_of_lt (hle before) (Nat.lt_of_lt_of_le hmid (hle rest))

/-- Wherever a sweep is, it goes on to its end. -/
theorem turns_to_final (turns : Turns order sweep final) (hq : final.queue = []) (h : sweep.Tidy)
    (before : Turns order sweep mid) : Turns order mid final := by
  obtain ⟨final', hrun⟩ :=
    @exists_run_of_credit_le order _ _ (tidy_of_turns before h) (Nat.le_refl _)
  obtain ⟨rest, hq'⟩ := turns_of_run hrun
  rwa [final_unique turns hq (before.trans rest) hq']

/-- At the end of a sweep the empty pieces are closed ones. -/
theorem exists_empty_pieces_iff (h : sweep.Tidy) :
    (∃ piece ∈ sweep.pieces, piece.stop ≤ piece.start) ↔ 0 < sweep.emptied := by
  rw [emptied, List.countP_pos_iff]
  constructor
  · rintro ⟨_, hpiece, hempty⟩
    rw [(perm_pieces sweep).mem_iff, List.mem_map] at hpiece
    obtain ⟨piece, hpiece, rfl⟩ := hpiece
    rcases List.mem_append.mp hpiece with hclosed | hopened
    · exact ⟨piece, hclosed, decide_eq_true hempty⟩
    · exact absurd hempty (Nat.not_le.mpr (h.opened piece hopened))
  · rintro ⟨piece, hclosed, hempty⟩
    refine ⟨piece.range, ?_, of_decide_eq_true hempty⟩
    rw [(perm_pieces sweep).mem_iff]
    exact List.mem_map_of_mem (List.mem_append_left _ hclosed)

end Sweep

/-! ## What an empty piece takes -/

/-- At the start of the piece there are two ranges of higher marks: one that started before it, and
one of another mark that outlives that one. -/
def Overlain (order : Nat → Nat → Ordering) (ranges : List MarkRange) (piece : MarkRange) : Prop :=
  ∃ around ∈ ranges, ∃ cutter ∈ ranges,
    around.start < piece.start ∧ piece.start < around.stop ∧
    cutter.start ≤ piece.start ∧ around.stop < cutter.stop ∧
    order around.mark piece.mark = .gt ∧ order cutter.mark piece.mark = .gt ∧
    around.mark ≠ cutter.mark

namespace Sweep

variable {size : Nat} {ranges : List MarkRange}

theorem overlain_of_cut (hlinear : LinearBelow order size) (hsize : ∀ r ∈ ranges, r.mark < size)
    (hd : Disjointed ranges) {range : MarkRange} {queue : List MarkRange} {top : Piece}
    {outer closed : List Piece} {n k : Nat}
    (h : Orderly order ranges ⟨range :: queue, top :: outer, closed, n, k⟩)
    (outlives : Outlives range top) (lower : order top.range.mark range.mark = .lt)
    (hstart : range.start ≤ top.range.start) :
    Overlain order ranges { top.range with stop := range.start } := by
  have hreached := h.tidy.reached top (List.mem_cons_self ..) range (List.mem_cons_self ..)
  have htop := h.mark_lt hsize (mem_ranges.mpr (.inr (.inr ⟨top, List.mem_cons_self .., rfl⟩)))
  have hrange : range ∈ Sweep.ranges ⟨range :: queue, top :: outer, closed, n, k⟩ :=
    mem_ranges.mpr (.inl (List.mem_cons_self ..))
  have hexposed : exposed (range :: queue) top = true :=
    exposed_iff.mpr ⟨range, List.mem_cons_self .., hstart, outlives.2⟩
  obtain ⟨around, haround, hstop, hbefore, hhigher⟩ :=
    h.rooted.cropped top (List.mem_cons_self ..) hexposed
  obtain ⟨cutter, hcutter, hcut⟩ := h.cutFrom range hrange
  have hinside : top.range.start < around.stop := by
    rw [hstop]
    exact h.tidy.opened top (List.mem_cons_self ..)
  have houtlives : around.stop < cutter.stop := by
    rw [hstop]
    exact Nat.lt_of_lt_of_le outlives.2 hcut.right
  have hcutterStart : cutter.start ≤ top.range.start := Nat.le_trans hcut.left hstart
  refine ⟨around, haround, cutter, hcutter, hbefore, hinside, hcutterStart, houtlives, hhigher,
    ?_, fun hsame => ?_⟩
  · rw [← hcut.mark]
    exact hlinear.gt_of_lt htop (h.mark_lt hsize hrange) lower
  · -- both of them cover the start of the piece
    have hperm := List.perm_cons_erase haround
    have hother : cutter ∈ ranges.erase around :=
      (List.mem_erase_of_ne fun heq => absurd (heq ▸ houtlives) (Nat.lt_irrefl _)).mpr hcutter
    rcases Nat.le_total cutter.start around.start with hle | hle
    · exact hd.not_inside hperm (by omega) hother hsame.symm hle (by omega)
    · have hperm' := List.perm_cons_erase hcutter
      have hother' : around ∈ ranges.erase cutter :=
        (List.mem_erase_of_ne fun heq => absurd (heq ▸ houtlives) (Nat.lt_irrefl _)).mpr haround
      exact hd.not_inside hperm' (by omega) hother' hsame hle (by omega)

/-- Every closed piece that is empty was overlain where it starts. -/
def Accounted (order : Nat → Nat → Ordering) (ranges : List MarkRange) (sweep : Sweep) : Prop :=
  ∀ p ∈ sweep.closed, p.range.stop ≤ p.range.start → Overlain order ranges p.range

theorem Accounted.turn (hlinear : LinearBelow order size) (hsize : ∀ r ∈ ranges, r.mark < size)
    (hd : Disjointed ranges) (turn : Turn order sweep next) (ho : sweep.Orderly order ranges)
    (h : sweep.Accounted order ranges) : next.Accounted order ranges := by
  cases turn with
  | enter | trim | shorten => exact h
  | @leave range queue top outer closed n k ended =>
      refine List.forall_mem_cons.mpr ⟨fun hempty => ?_, h⟩
      exact absurd hempty (Nat.not_le.mpr (ho.tidy.opened top (List.mem_cons_self ..)))
  | @yield range queue top outer closed n k outlives differ lower =>
      refine List.forall_mem_cons.mpr ⟨fun hempty => ?_, h⟩
      exact overlain_of_cut hlinear hsize hd ho outlives lower hempty

end Sweep

/-! ## How many parts a range has -/

/-- Ranges that have positions, and none in common, are no more than the positions around them. -/
theorem length_le_of_apart {l : List MarkRange} {start stop : Nat}
    (hne : ∀ part ∈ l, part.start < part.stop) (hapart : l.Pairwise MarkRange.Apart)
    (hin : ∀ part ∈ l, start ≤ part.start ∧ part.stop ≤ stop) : l.length ≤ stop - start := by
  have hstarts : (l.map MarkRange.start).Nodup := by
    refine List.pairwise_map.mpr (hapart.imp_of_mem ?_)
    intro a b ha hb hab heq
    have := hne a ha
    have := hne b hb
    unfold MarkRange.Apart at hab
    omega
  have hsubset : l.map MarkRange.start ⊆ List.range' start (stop - start) := by
    refine List.forall_mem_map.mpr fun part hp => ?_
    have := hne part hp
    have := hin part hp
    rw [List.mem_range'_1]
    omega
  have hlength := (hstarts.subperm hsubset).length_le
  rwa [List.length_map, List.length_range'] at hlength

theorem length_partsOf_untangle_le {ranges out : List MarkRange}
    (hne : ∀ range ∈ ranges, range.start < range.stop)
    (hapart : ranges.Pairwise fun a b => a.mark = b.mark → a.Apart b)
    (ho : (ranges.map MarkRange.origin).Nodup) (h : untangle order ranges = .ok out)
    {range : MarkRange} (hr : range ∈ ranges) :
    (partsOf range.origin out).length ≤ range.len := by
  have hcount (position : Nat) : coverings (ofOrigin range.origin) position out ≤ 1 := by
    rw [coverings_untangle hne (disjointed_of_pairwise hapart) h, coverings_ofOrigin ho hr]
    split <;> omega
  refine length_le_of_apart (fun part hp => (mem_partsOf.mp hp).2.2)
    (pairwise_apart_partsOf hcount) fun part hp => ?_
  obtain ⟨hmem, horigin, -⟩ := mem_partsOf.mp hp
  obtain ⟨source, hsource, hcut⟩ := cutFrom_untangle hne h part hmem
  obtain rfl : source = range :=
    List.inj_on_of_nodup_map ho hsource hr (hcut.origin.symm.trans horigin)
  exact ⟨hcut.left, hcut.right⟩

/-- **When an untangled range is empty.** Some untangled range is empty if and only if the sweep
comes to a piece that has to yield to a range that starts with it. Where ranges of one mark have
nothing in common, that takes two ranges of different higher marks at the start of the piece, one
of which started before it and ends before the other; and the parts of a range that are not empty
are no more than it has positions. -/
theorem exists_empty_untangle_iff (registry : Registry) (priority : Priority)
    (hlinear : LinearBelow (registry.compare priority) registry.size)
    {ranges out : List MarkRange} (hsize : ∀ range ∈ ranges, range.mark < registry.size)
    (hne : ∀ range ∈ ranges, range.start < range.stop)
    (h : untangle (registry.compare priority) ranges = .ok out) :
    ((∃ piece ∈ out, piece.stop ≤ piece.start) ↔
      ∃ sweep, Turns (registry.compare priority) (Sweep.ofRanges ranges) sweep ∧
        sweep.CutsAtStart (registry.compare priority)) ∧
    (ranges.Pairwise (fun a b => a.mark = b.mark → a.Apart b) →
      (∀ piece ∈ out, piece.stop ≤ piece.start →
        Overlain (registry.compare priority) ranges piece) ∧
      ((ranges.map MarkRange.origin).Nodup →
        ∀ range ∈ ranges, (partsOf range.origin out).length ≤ range.len)) := by
  obtain ⟨final, turns, hq, hout⟩ := turns_of_untangle h
  have htidy := Sweep.tidy_ofRanges hne
  have hfinal := Sweep.tidy_of_turns turns htidy
  have hperm : out.Perm final.pieces := hout ▸ perm_sortForOpening _ _
  refine ⟨?_, fun hapart => ⟨fun piece hp hempty => ?_, fun ho range hr => ?_⟩⟩
  · have hpieces : (∃ piece ∈ out, piece.stop ≤ piece.start) ↔ 0 < final.emptied := by
      simp only [hperm.mem_iff]
      exact Sweep.exists_empty_pieces_iff hfinal
    have hnone : (Sweep.ofRanges ranges).emptied = 0 := rfl
    rw [hpieces, ← hnone, Sweep.emptied_lt_iff_of_turns turns htidy]
    constructor
    · rintro ⟨sweep, -, before, hcuts, -⟩
      exact ⟨sweep, before, hcuts⟩
    · rintro ⟨sweep, before, hcuts⟩
      -- a sweep that still has a range to visit is not at its end
      cases Sweep.turns_to_final turns hq htidy before with
      | refl =>
          rw [Sweep.CutsAtStart, hq] at hcuts
          cases hcuts
      | head turn rest => exact ⟨sweep, _, before, hcuts, turn, rest⟩
  · have hd := disjointed_of_pairwise hapart
    have haccounted := (turns.keep
      (I := fun sweep => sweep.Orderly (registry.compare priority) ranges ∧
        sweep.Accounted (registry.compare priority) ranges)
      (fun turn hs => ⟨hs.1.turn hlinear hsize turn,
        hs.2.turn hlinear hsize hd turn hs.1⟩) ⟨.ofRanges hne hd, nofun⟩).2
    rw [hperm.mem_iff, (Sweep.perm_pieces final).mem_iff, List.mem_map] at hp
    obtain ⟨p, hp, rfl⟩ := hp
    rcases List.mem_append.mp hp with hclosed | hopened
    · exact haccounted p hclosed hempty
    · exact absurd hempty (Nat.not_le.mpr (hfinal.opened p hopened))
  · exact length_partsOf_untangle_le hne hapart ho h hr

/-- A citation, and two marks that start inside it and outlive it. The lower of the two leaves an
empty piece at its start. -/
theorem exists_empty_untangle_iff_three :
    let registry := Registry.ofMarks [⟨"citation", []⟩, ⟨"strong", []⟩, ⟨"link", []⟩]
    let ranges : List MarkRange := [⟨0, 0, 2, 0⟩, ⟨1, 1, 4, 1⟩, ⟨2, 1, 3, 2⟩]
    let out : List MarkRange :=
      [⟨0, 0, 2, 0⟩, ⟨1, 1, 2, 1⟩, ⟨2, 1, 2, 2⟩, ⟨1, 1, 1, 1⟩, ⟨1, 2, 4, 1⟩, ⟨2, 2, 3, 2⟩]
    untangle (registry.compare .standard) ranges = .ok out ∧
      (∃ sweep, Turns (registry.compare .standard) (Sweep.ofRanges ranges) sweep ∧
        sweep.CutsAtStart (registry.compare .standard)) ∧
      Overlain (registry.compare .standard) ranges ⟨1, 1, 1, 1⟩ ∧
      ∀ range ∈ ranges, (partsOf range.origin out).length ≤ range.len := by
  intro registry ranges out
  have hrun : untangle (registry.compare .standard) ranges = .ok out := by
    unfold registry ranges out
    cbv
  have hlinear : LinearBelow (registry.compare .standard) registry.size :=
    (Registry.sound_ofMarks _).linearBelow_ofRank Priority.tierRank
  have hthree : registry.size = 3 := by
    unfold registry
    cbv
  obtain ⟨hiff, hparts⟩ := exists_empty_untangle_iff registry .standard hlinear
    (by rw [hthree]; decide) (by decide) hrun
  obtain ⟨hoverlain, hlength⟩ := hparts (by decide)
  exact ⟨hrun, hiff.mp ⟨⟨1, 1, 1, 1⟩, by decide, by decide⟩,
    hoverlain ⟨1, 1, 1, 1⟩ (by decide) (by decide), hlength (by decide)⟩

end RichDoc
