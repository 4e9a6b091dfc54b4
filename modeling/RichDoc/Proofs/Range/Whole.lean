import Mathlib
import RichDoc.Proofs.Mark.Linear
import RichDoc.Proofs.Range.Budget

/-!
# Ranges that stay whole

A range that crosses no range of a higher mark is never cut. The sweep
does not compare ranges as they came but pieces, so this takes two
invariants. `Sweep.Rooted` traces every end in the sweep back to a range:
where a piece ends, a range ends that is no lower and starts no later, and
a piece that something longer waits to cut at its own start was shortened
by a higher range that started before it. `Sweep.Keeps` follows the range
itself: as long as it is not closed, nothing higher that waits starts
inside it and outlives it.
-/

namespace RichDoc

/-- Where the piece ends, a range ends that is no lower and starts no later. -/
def Rests (order : Nat → Nat → Ordering) (ranges : List MarkRange) (piece : MarkRange) : Prop :=
  ∃ range ∈ ranges, range.stop = piece.stop ∧ range.start ≤ piece.start ∧
    (range.mark = piece.mark ∨ order range.mark piece.mark = .gt)

/-- Where the piece ends, a higher range ends that starts before it. -/
def Cropped (order : Nat → Nat → Ordering) (ranges : List MarkRange) (piece : MarkRange) : Prop :=
  ∃ range ∈ ranges, range.stop = piece.stop ∧ range.start < piece.start ∧
    order range.mark piece.mark = .gt

namespace Rests

variable {order : Nat → Nat → Ordering} {ranges : List MarkRange} {piece : MarkRange}

theorem of_mem (h : piece ∈ ranges) : Rests order ranges piece :=
  ⟨piece, h, rfl, Nat.le_refl _, .inl rfl⟩

/-- A piece may lose its beginning. -/
theorem later {start : Nat} (h : Rests order ranges piece) (hs : piece.start ≤ start) :
    Rests order ranges { piece with start := start } := by
  obtain ⟨range, hr, hstop, hstart, hmark⟩ := h
  exact ⟨range, hr, hstop, Nat.le_trans hstart hs, hmark⟩

end Rests

theorem Cropped.rests {order : Nat → Nat → Ordering} {ranges : List MarkRange} {piece : MarkRange}
    (h : Cropped order ranges piece) : Rests order ranges piece := by
  obtain ⟨range, hr, hstop, hstart, hgt⟩ := h
  exact ⟨range, hr, hstop, Nat.le_of_lt hstart, .inr hgt⟩

/-! ## The ranges of one origin -/

/-- The ranges with the origin. -/
def withOrigin (origin : Nat) (parts : List MarkRange) : List MarkRange :=
  parts.filter fun part => part.origin == origin

section WithOrigin

variable {range : MarkRange} {ranges : List MarkRange}

theorem withOrigin_perm {origin : Nat} {l l' : List MarkRange} (h : l'.Perm l)
    (hw : withOrigin origin l = [range]) : withOrigin origin l' = [range] :=
  List.perm_singleton.mp (hw ▸ h.filter _)

/-- What is cut is not the range, so no part of it has the range's origin. -/
theorem withOrigin_cut {origin : Nat} {l l' rest : List MarkRange} {part left right : MarkRange}
    (hw : withOrigin origin l = [range]) (hother : part.origin ≠ origin)
    (hleft : left.origin = part.origin) (hright : right.origin = part.origin)
    (before : l.Perm (part :: rest)) (after : l'.Perm (left :: right :: rest)) :
    withOrigin origin l' = [range] := by
  have hskip {x : MarkRange} (hx : x.origin = part.origin) (l : List MarkRange) :
      withOrigin origin (x :: l) = withOrigin origin l :=
    List.filter_cons_of_neg (by simpa [hx] using hother)
  have hrest := withOrigin_perm before.symm hw
  rw [hskip rfl] at hrest
  refine withOrigin_perm after ?_
  rw [hskip hleft, hskip hright, hrest]

theorem withOrigin_of_nodup (ho : (ranges.map MarkRange.origin).Nodup) (hr : range ∈ ranges) :
    withOrigin range.origin ranges = [range] := by
  induction ranges with
  | nil => cases hr
  | cons first rest ih =>
      obtain ⟨hfirst, hrest⟩ := List.nodup_cons.mp ho
      rcases List.mem_cons.mp hr with rfl | hr
      · have hnone : withOrigin range.origin rest = [] := List.filter_eq_nil_iff.mpr fun r hr heq =>
          hfirst (beq_iff_eq.mp heq ▸ List.mem_map_of_mem hr)
        rw [withOrigin, List.filter_cons_of_pos (by simp)]
        exact congrArg _ hnone
      · have hother : first.origin ≠ range.origin := fun heq =>
          hfirst (heq ▸ List.mem_map_of_mem hr)
        rw [withOrigin, List.filter_cons_of_neg (by simpa using hother)]
        exact ih hrest hr

end WithOrigin

namespace Sweep

/-- Every end in the sweep is the end of one of the ranges it began with. -/
structure Rooted (order : Nat → Nat → Ordering) (ranges : List MarkRange) (sweep : Sweep) :
    Prop where
  queued : ∀ r ∈ sweep.queue, Rests order ranges r
  opened : ∀ p ∈ sweep.opened, Rests order ranges p.range
  cropped : ∀ p ∈ sweep.opened, exposed sweep.queue p = true → Cropped order ranges p.range

/-- A sweep over ranges that have nothing in common where their marks agree. -/
structure Orderly (order : Nat → Nat → Ordering) (ranges : List MarkRange) (sweep : Sweep) :
    Prop where
  tidy : sweep.Tidy
  settled : sweep.Settled
  disjointed : Disjointed sweep.ranges
  cutFrom : ∀ part ∈ sweep.ranges, ∃ range ∈ ranges, part.CutFrom range
  rooted : sweep.Rooted order ranges

variable {order : Nat → Nat → Ordering} {size : Nat} {ranges : List MarkRange}
  {sweep next final : Sweep} {range : MarkRange} {queue : List MarkRange} {top : Piece}
  {outer closed : List Piece} {n k : Nat}

theorem mem_ranges {part : MarkRange} :
    part ∈ sweep.ranges ↔
      part ∈ sweep.queue ∨ (∃ p ∈ sweep.closed, p.range = part) ∨
        ∃ p ∈ sweep.opened, p.range = part := by
  simp [Sweep.ranges]

namespace Orderly

/-- The marks of a sweep are those of the ranges. -/
theorem mark_lt (h : sweep.Orderly order ranges) (hsize : ∀ r ∈ ranges, r.mark < size)
    {part : MarkRange} (hp : part ∈ sweep.ranges) : part.mark < size := by
  obtain ⟨source, hsource, hcut⟩ := h.cutFrom part hp
  rw [hcut.mark]
  exact hsize source hsource

/-- What crosses an open piece that stays is cut at the end of a higher range around its start. -/
theorem cropped_of_stays (hlinear : LinearBelow order size) (hsize : ∀ r ∈ ranges, r.mark < size)
    (h : Orderly order ranges ⟨range :: queue, top :: outer, closed, n, k⟩)
    (outlives : Outlives range top) (differ : top.range.mark ≠ range.mark)
    (stays : order top.range.mark range.mark ≠ .lt) :
    Cropped order ranges { range with stop := top.range.stop } := by
  have htop : top.range.mark < size :=
    h.mark_lt hsize (mem_ranges.mpr (.inr (.inr ⟨top, List.mem_cons_self .., rfl⟩)))
  have hrange : range.mark < size := h.mark_lt hsize (mem_ranges.mpr (.inl (List.mem_cons_self ..)))
  have hhigher : order top.range.mark range.mark = .gt := hlinear.gt_of_ne htop hrange differ stays
  have hreached := h.tidy.reached top (List.mem_cons_self ..) range (List.mem_cons_self ..)
  obtain ⟨source, hsource, hstop, hstart, hmark⟩ := h.rooted.opened top (List.mem_cons_self ..)
  have hgt {other : MarkRange} (ho : other ∈ ranges)
      (hmark : other.mark = top.range.mark ∨ order other.mark top.range.mark = .gt) :
      order other.mark range.mark = .gt := by
    rcases hmark with heq | hgt
    · rw [heq]
      exact hhigher
    · exact hlinear.trans _ (hsize other ho) _ htop _ hrange hgt hhigher
  rcases Nat.lt_or_ge source.start range.start with hlt | hge
  · exact ⟨source, hsource, hstop, hlt, hgt hsource hmark⟩
  · -- both start together, so the piece is exposed and was cropped itself
    have hexposed : exposed (range :: queue) top = true :=
      exposed_iff.mpr ⟨range, List.mem_cons_self .., Nat.le_trans hge hstart, outlives.2⟩
    obtain ⟨other, hother, hstop, hstart, hmark⟩ :=
      h.rooted.cropped top (List.mem_cons_self ..) hexposed
    exact ⟨other, hother, hstop, Nat.lt_of_lt_of_le hstart hreached, hgt hother (.inr hmark)⟩

theorem rooted_turn (hlinear : LinearBelow order size) (hsize : ∀ r ∈ ranges, r.mark < size)
    (turn : Turn order sweep next) (h : sweep.Orderly order ranges) :
    next.Rooted order ranges := by
  have hexposed {p : Piece} (hopen : p ∈ sweep.opened) (hstill : p ∈ next.opened)
      (he : exposed next.queue p = true) : Cropped order ranges p.range :=
    h.rooted.cropped p hopen (exposed_of_turn turn h.tidy hopen hstill he)
  cases turn with
  | @enter range queue opened closed n k fits =>
      obtain ⟨hrange, hqueue⟩ := List.forall_mem_cons.mp h.rooted.queued
      refine ⟨hqueue, List.forall_mem_cons.mpr ⟨hrange, h.rooted.opened⟩,
        List.forall_mem_cons.mpr ⟨fun he => ?_, fun p hp => ?_⟩⟩
      · rw [exposed_eq_false_of_first h.tidy.sorted] at he
        cases he
      · exact hexposed hp (List.mem_cons_of_mem _ hp)
  | leave ended =>
      refine ⟨h.rooted.queued, (List.forall_mem_cons.mp h.rooted.opened).2, ?_⟩
      intro p hp
      exact hexposed (List.mem_cons_of_mem _ hp) hp
  | @trim range queue top outer closed n k outlives same =>
      obtain ⟨hrange, hqueue⟩ := List.forall_mem_cons.mp h.rooted.queued
      refine ⟨forall_mem_enqueue.mpr ⟨hrange.later (Nat.le_of_lt outlives.1), hqueue⟩,
        h.rooted.opened, ?_⟩
      intro p hp
      exact hexposed hp hp
  | @yield range queue top outer closed n k outlives differ lower =>
      obtain ⟨hrange, hqueue⟩ := List.forall_mem_cons.mp h.rooted.queued
      obtain ⟨htop, houter⟩ := List.forall_mem_cons.mp h.rooted.opened
      have hreached := h.tidy.reached top (List.mem_cons_self ..) range (List.mem_cons_self ..)
      refine ⟨List.forall_mem_cons.mpr ⟨hrange, forall_mem_enqueue.mpr
        ⟨htop.later hreached, hqueue⟩⟩, houter, ?_⟩
      intro p hp
      exact hexposed (List.mem_cons_of_mem _ hp) hp
  | @shorten range queue top outer closed n k outlives differ stays =>
      obtain ⟨hrange, hqueue⟩ := List.forall_mem_cons.mp h.rooted.queued
      have hcropped := h.cropped_of_stays hlinear hsize outlives differ stays
      refine ⟨forall_mem_enqueue.mpr ⟨hrange.later (Nat.le_of_lt outlives.1), hqueue⟩,
        List.forall_mem_cons.mpr ⟨hcropped.rests, h.rooted.opened⟩,
        List.forall_mem_cons.mpr ⟨fun _ => hcropped, fun p hp => ?_⟩⟩
      exact hexposed hp (List.mem_cons_of_mem _ hp)

theorem turn (hlinear : LinearBelow order size) (hsize : ∀ r ∈ ranges, r.mark < size)
    (turn : Turn order sweep next) (h : sweep.Orderly order ranges) :
    next.Orderly order ranges := by
  have hrecut := recut_of_turn turn h.tidy
  have hdisjointed : Disjointed next.ranges := fun mark position => by
    rw [hrecut.coverings_eq h.disjointed]
    exact h.disjointed mark position
  exact ⟨h.tidy.turn turn, h.settled.turn turn h.tidy, hdisjointed, hrecut.cutFrom h.cutFrom,
    h.rooted_turn hlinear hsize turn⟩

theorem ofRanges (hne : ∀ r ∈ ranges, r.start < r.stop) (hd : Disjointed ranges) :
    (Sweep.ofRanges ranges).Orderly order ranges := by
  have hperm := perm_ranges_ofRanges ranges
  refine ⟨tidy_ofRanges hne, settled_ofRanges ranges, ?disjointed, ?cutFrom, ?queued, ?_, ?_⟩
  case disjointed =>
      intro mark position
      rw [coverings_perm hperm]
      exact hd mark position
  case cutFrom =>
      intro part hp
      have hmem := hperm.mem_iff.mp hp
      exact ⟨part, hmem, .refl (hne part hmem)⟩
  case queued =>
      intro r hr
      exact .of_mem ((perm_queue_ofRanges ranges).mem_iff.mp hr)
  · simp [Sweep.ofRanges]
  · simp [Sweep.ofRanges]

end Orderly

/-- What an orderly sweep keeps at every turn holds at its end, where the pieces are all there
is. -/
theorem exists_final_of_untangle (hlinear : LinearBelow order size)
    (hsize : ∀ r ∈ ranges, r.mark < size) (hne : ∀ r ∈ ranges, r.start < r.stop)
    (hd : Disjointed ranges) {I : Sweep → Prop}
    (step : ∀ {s t}, Turn order s t → s.Orderly order ranges → I s → I t)
    (start : I (Sweep.ofRanges ranges)) {out : List MarkRange}
    (h : untangle order ranges = .ok out) :
    ∃ final, I final ∧ final.queue = [] ∧ ∀ part, part ∈ out ↔ part ∈ final.ranges := by
  obtain ⟨final, turns, hq, rfl⟩ := turns_of_untangle h
  have hfinal := (turns.keep (I := fun sweep => sweep.Orderly order ranges ∧ I sweep)
    (fun turn hs => ⟨hs.1.turn hlinear hsize turn, step turn hs.1 hs.2⟩)
    ⟨.ofRanges hne hd, start⟩).2
  exact ⟨final, hfinal, hq, fun part =>
    (perm_sortForOpening _ _).mem_iff.trans (perm_pieces_of_finished hq).mem_iff⟩

/-! ## One range through the sweep -/

/-- The range is there as it was, nothing else was cut from it, and nothing is about to cut it. -/
structure Keeps (order : Nat → Nat → Ordering) (range : MarkRange) (sweep : Sweep) : Prop where
  whole : withOrigin range.origin sweep.ranges = [range]
  unexposed : ∀ p ∈ sweep.opened, p.range = range → exposed sweep.queue p = false
  clear : ∀ r ∈ sweep.queue, range.start < r.start → r.start < range.stop → range.stop < r.stop →
    order r.mark range.mark ≠ .gt

namespace Keeps

variable {kept : MarkRange}

theorem eq_of_origin (h : sweep.Keeps order kept) {part : MarkRange} (hp : part ∈ sweep.ranges)
    (ho : part.origin = kept.origin) : part = kept := by
  have hmem : part ∈ withOrigin kept.origin sweep.ranges :=
    List.mem_filter.mpr ⟨hp, beq_iff_eq.mpr ho⟩
  rw [h.whole] at hmem
  exact List.mem_singleton.mp hmem

theorem mem (h : sweep.Keeps order kept) : kept ∈ sweep.ranges := by
  have hmem : kept ∈ withOrigin kept.origin sweep.ranges := by
    rw [h.whole]
    exact List.mem_singleton_self _
  exact (List.mem_filter.mp hmem).1

/-- The open piece that yields is not the range. -/
theorem origin_ne_of_yield (hlinear : LinearBelow order size) (hsize : ∀ r ∈ ranges, r.mark < size)
    (ho : Orderly order ranges ⟨range :: queue, top :: outer, closed, n, k⟩)
    (h : Keeps order kept ⟨range :: queue, top :: outer, closed, n, k⟩)
    (outlives : Outlives range top) (lower : order top.range.mark range.mark = .lt) :
    top.range.origin ≠ kept.origin := by
  intro heq
  have htop : top.range ∈ Sweep.ranges ⟨range :: queue, top :: outer, closed, n, k⟩ :=
    mem_ranges.mpr (.inr (.inr ⟨top, List.mem_cons_self .., rfl⟩))
  have hrange : range ∈ Sweep.ranges ⟨range :: queue, top :: outer, closed, n, k⟩ :=
    mem_ranges.mpr (.inl (List.mem_cons_self ..))
  obtain rfl : top.range = kept := h.eq_of_origin htop heq
  have hgt := hlinear.gt_of_lt (ho.mark_lt hsize htop) (ho.mark_lt hsize hrange) lower
  have hreached := ho.tidy.reached top (List.mem_cons_self ..) range (List.mem_cons_self ..)
  rcases Nat.lt_or_ge top.range.start range.start with hlt | hge
  · exact h.clear range (List.mem_cons_self ..) hlt outlives.1 outlives.2 hgt
  · have hexposed : exposed (range :: queue) top = true :=
      exposed_iff.mpr ⟨range, List.mem_cons_self .., hge, outlives.2⟩
    rw [h.unexposed top (List.mem_cons_self ..) rfl] at hexposed
    cases hexposed

/-- A range that crosses nothing higher is not opened shorter than it is. -/
theorem origin_ne_of_shorten (hlinear : LinearBelow order size)
    (hsize : ∀ r ∈ ranges, r.mark < size)
    (hfree : ∀ r ∈ ranges, order r.mark kept.mark = .gt → ¬ r.Crosses kept)
    (ho : Orderly order ranges ⟨range :: queue, top :: outer, closed, n, k⟩)
    (h : Keeps order kept ⟨range :: queue, top :: outer, closed, n, k⟩)
    (outlives : Outlives range top) (differ : top.range.mark ≠ range.mark)
    (stays : order top.range.mark range.mark ≠ .lt) : range.origin ≠ kept.origin := by
  intro heq
  obtain rfl : range = kept :=
    h.eq_of_origin (mem_ranges.mpr (.inl (List.mem_cons_self ..))) heq
  obtain ⟨source, hsource, hstop, hstart, hgt⟩ :=
    ho.cropped_of_stays hlinear hsize outlives differ stays
  refine hfree source hsource hgt ⟨hstart, ?_, ?_⟩
  · rw [hstop]
    exact outlives.1
  · rw [hstop]
    exact outlives.2

/-- What an open piece that yields leaves to be visited does not outlive the range from inside. -/
theorem stop_le_of_yield
    (ho : Orderly order ranges ⟨range :: queue, top :: outer, closed, n, k⟩)
    (h : Keeps order kept ⟨range :: queue, top :: outer, closed, n, k⟩)
    (hother : top.range.origin ≠ kept.origin) (hin : kept.start < range.start)
    (hbefore : range.start < kept.stop) : top.range.stop ≤ kept.stop := by
  -- the range has been visited and is not closed, so the piece is inside it
  rcases mem_ranges.mp h.mem with hq | ⟨p, hp, rfl⟩ | ⟨p, hp, rfl⟩
  · rcases List.mem_cons.mp hq with rfl | hq
    · exact absurd hin (Nat.lt_irrefl _)
    · exact absurd hin (Nat.not_lt.mpr (ho.tidy.start_le kept hq))
  · exact absurd hbefore (Nat.not_lt.mpr (ho.settled.passed p hp range (List.mem_cons_self ..)))
  · rcases List.mem_cons.mp hp with rfl | hp
    · exact absurd rfl hother
    · exact ((List.pairwise_cons.mp ho.tidy.nested).1 p hp).2

/-- What is cut off the next range does not outlive the range from inside, if it is higher. -/
theorem clear_of_shorten (hlinear : LinearBelow order size) (hsize : ∀ r ∈ ranges, r.mark < size)
    (hfree : ∀ r ∈ ranges, order r.mark kept.mark = .gt → ¬ r.Crosses kept)
    (ho : Orderly order ranges ⟨range :: queue, top :: outer, closed, n, k⟩)
    (h : Keeps order kept ⟨range :: queue, top :: outer, closed, n, k⟩)
    (outlives : Outlives range top) (differ : top.range.mark ≠ range.mark)
    (stays : order top.range.mark range.mark ≠ .lt) (hother : range.origin ≠ kept.origin)
    (hin : kept.start < top.range.stop) (hbefore : top.range.stop < kept.stop)
    (hout : kept.stop < range.stop) : order range.mark kept.mark ≠ .gt := by
  intro hhigher
  rcases mem_ranges.mp h.mem with hq | ⟨p, hp, rfl⟩ | ⟨p, hp, rfl⟩
  · -- the range waits still, and the higher range that ends with the piece would cross it
    have hstart : range.start ≤ kept.start := by
      rcases List.mem_cons.mp hq with rfl | hq
      · exact absurd rfl hother
      · exact ho.tidy.start_le kept hq
    obtain ⟨source, hsource, hstop, hlt, hgt⟩ :=
      ho.cropped_of_stays hlinear hsize outlives differ stays
    have hmarks := ho.mark_lt hsize (mem_ranges.mpr (.inl (List.mem_cons_self ..)))
    have hsourceHigher := hlinear.trans _ (hsize source hsource) _ hmarks _
      (ho.mark_lt hsize h.mem) hgt hhigher
    refine hfree source hsource hsourceHigher ⟨Nat.lt_of_lt_of_le hlt hstart, ?_, ?_⟩
    · rw [hstop]
      exact hin
    · rw [hstop]
      exact hbefore
  · have hpassed := ho.settled.passed p hp range (List.mem_cons_self ..)
    exact absurd (Nat.lt_of_le_of_lt hpassed outlives.1) (Nat.lt_asymm hbefore)
  · -- the range is open, and the next range starts in it
    have hreached := ho.tidy.reached p hp range (List.mem_cons_self ..)
    rcases Nat.lt_or_ge p.range.start range.start with hlt | hge
    · exact h.clear range (List.mem_cons_self ..) hlt (Nat.lt_trans outlives.1 hbefore) hout
        hhigher
    · have hexposed : exposed (range :: queue) p = true :=
        exposed_iff.mpr ⟨range, List.mem_cons_self .., hge, hout⟩
      rw [h.unexposed p hp rfl] at hexposed
      cases hexposed

theorem turn (hlinear : LinearBelow order size) (hsize : ∀ r ∈ ranges, r.mark < size)
    (hfree : ∀ r ∈ ranges, order r.mark kept.mark = .gt → ¬ r.Crosses kept)
    (turn : Turn order sweep next) (ho : sweep.Orderly order ranges)
    (h : sweep.Keeps order kept) : next.Keeps order kept := by
  have hexposed {p : Piece} (hopen : p ∈ sweep.opened) (hstill : p ∈ next.opened)
      (hp : p.range = kept) : exposed next.queue p = false := by
    refine Bool.eq_false_iff.mpr fun he => ?_
    have := exposed_of_turn turn ho.tidy hopen hstill he
    rw [h.unexposed p hopen hp] at this
    cases this
  cases turn with
  | @enter range queue opened closed n k fits =>
      exact ⟨withOrigin_perm (perm_opened queue ⟨n, range⟩ opened closed) h.whole,
        List.forall_mem_cons.mpr ⟨fun _ => exposed_eq_false_of_first ho.tidy.sorted,
          fun p hp => hexposed hp (List.mem_cons_of_mem _ hp)⟩,
        (List.forall_mem_cons.mp h.clear).2⟩
  | leave ended =>
      exact ⟨withOrigin_perm ((perm_closed ..).trans (perm_opened ..).symm) h.whole,
        fun p hp => hexposed (List.mem_cons_of_mem _ hp) hp, h.clear⟩
  | @trim range queue top outer closed n k outlives same =>
      have hne := Nat.lt_trans outlives.1 outlives.2
      have hmem : top.range ∈ queue ++ (closed ++ top :: outer).map Piece.range := by simp
      have hreached := ho.tidy.reached top (List.mem_cons_self ..) range (List.mem_cons_self ..)
      exact absurd outlives.1 (ho.disjointed.not_inside (.refl _) hne hmem same hreached)
  | @yield range queue top outer closed n k outlives differ lower =>
      have hother := h.origin_ne_of_yield hlinear hsize ho outlives lower
      obtain ⟨hrange, hqueue⟩ := List.forall_mem_cons.mp h.clear
      refine ⟨withOrigin_cut h.whole hother ?_ ?_ (perm_opened ..) (perm_yielded ..),
        fun p hp => hexposed (List.mem_cons_of_mem _ hp) hp,
        List.forall_mem_cons.mpr ⟨hrange, forall_mem_enqueue.mpr ⟨?_, hqueue⟩⟩⟩
      · rfl
      · rfl
      · intro hin hbefore hout
        exact absurd (h.stop_le_of_yield ho hother hin hbefore) (Nat.not_le.mpr hout)
  | @shorten range queue top outer closed n k outlives differ stays =>
      have hother := h.origin_ne_of_shorten hlinear hsize hfree ho outlives differ stays
      obtain ⟨-, hqueue⟩ := List.forall_mem_cons.mp h.clear
      let short : Piece := ⟨n, { range with stop := top.range.stop }⟩
      have hshort : short.range ≠ kept := by
        rintro rfl
        exact hother rfl
      refine ⟨withOrigin_cut h.whole hother ?_ ?_ (.refl _)
          (perm_shortened queue short (top :: outer) closed _),
        List.forall_mem_cons.mpr ⟨fun heq => absurd heq hshort, fun p hp =>
          hexposed hp (List.mem_cons_of_mem _ hp)⟩,
        forall_mem_enqueue.mpr ⟨?_, hqueue⟩⟩
      · rfl
      · rfl
      · intro hin hbefore hout
        have hlow : order range.mark kept.mark ≠ .gt :=
          h.clear_of_shorten hlinear hsize hfree ho outlives differ stays hother hin hbefore hout
        exact hlow

theorem ofRanges (ho : (ranges.map MarkRange.origin).Nodup) (hmem : kept ∈ ranges)
    (hfree : ∀ r ∈ ranges, order r.mark kept.mark = .gt → ¬ kept.Crosses r) :
    (Sweep.ofRanges ranges).Keeps order kept := by
  refine ⟨withOrigin_perm (perm_ranges_ofRanges ranges) (withOrigin_of_nodup ho hmem), ?_, ?_⟩
  · simp [Sweep.ofRanges]
  · intro r hr hin hbefore hout hgt
    exact hfree r ((perm_queue_ofRanges ranges).mem_iff.mp hr) hgt ⟨hin, hbefore, hout⟩

end Keeps

end Sweep

/-- **What crosses nothing higher stays whole.** Under a priority that orders the registered marks
linearly, and for ranges that have nothing in common where their marks agree and that have origins
of their own, a range that crosses no range of a higher mark is among the untangled ranges just as
it was, once, and none of the others was cut from it. -/
theorem withOrigin_untangle (registry : Registry) (priority : Priority)
    (hlinear : LinearBelow (registry.compare priority) registry.size)
    {ranges out : List MarkRange} (hsize : ∀ range ∈ ranges, range.mark < registry.size)
    (hne : ∀ range ∈ ranges, range.start < range.stop)
    (ho : (ranges.map MarkRange.origin).Nodup)
    (hapart : ranges.Pairwise fun a b => a.mark = b.mark → a.Apart b)
    (h : untangle (registry.compare priority) ranges = .ok out) :
    ∀ range ∈ ranges,
      (∀ other ∈ ranges, registry.compare priority other.mark range.mark = .gt →
        ¬ other.Crosses range ∧ ¬ range.Crosses other) →
      withOrigin range.origin out = [range] := by
  intro range hr hfree
  obtain ⟨final, turns, hq, rfl⟩ := turns_of_untangle h
  have horderly : (Sweep.ofRanges ranges).Orderly (registry.compare priority) ranges :=
    .ofRanges hne (disjointed_of_pairwise hapart)
  have hkeeps := Sweep.Keeps.ofRanges ho hr fun other hother hgt => (hfree other hother hgt).2
  have hfinal := (turns.keep
    (I := fun sweep => sweep.Orderly (registry.compare priority) ranges ∧
      sweep.Keeps (registry.compare priority) range)
    (fun turn hs => ⟨hs.1.turn hlinear hsize turn,
      hs.2.turn hlinear hsize (fun other hother hgt => (hfree other hother hgt).1) turn hs.1⟩)
    ⟨horderly, hkeeps⟩).2
  refine withOrigin_perm ?_ hfinal.whole
  exact (perm_sortForOpening _ _).trans (Sweep.perm_pieces_of_finished hq)

/-- A citation crosses two lower marks. Both are cut at its end, and one at the other's start. -/
theorem withOrigin_untangle_three :
    let registry := Registry.ofMarks [⟨"strong", []⟩, ⟨"link", []⟩, ⟨"citation", []⟩]
    let ranges : List MarkRange := [⟨0, 1, 6, 0⟩, ⟨1, 3, 8, 1⟩, ⟨2, 0, 4, 2⟩]
    let out : List MarkRange :=
      [⟨2, 0, 4, 2⟩, ⟨0, 1, 3, 0⟩, ⟨0, 3, 4, 0⟩, ⟨1, 3, 4, 1⟩, ⟨1, 4, 8, 1⟩, ⟨0, 4, 6, 0⟩]
    untangle (registry.compare .standard) ranges = .ok out ∧
      withOrigin 2 out = [⟨2, 0, 4, 2⟩] := by
  intro registry ranges out
  have hrun : untangle (registry.compare .standard) ranges = .ok out := by
    unfold registry ranges out
    cbv
  have hlinear : LinearBelow (registry.compare .standard) registry.size :=
    (Registry.sound_ofMarks _).linearBelow_ofRank Priority.tierRank
  have hthree : registry.size = 3 := by
    unfold registry
    cbv
  have hbelow : ∀ range ∈ ranges, range.mark < 3 := by decide
  -- the citation is the highest mark
  have hlow (mark : Nat) (hmark : mark < 3) : registry.compare .standard mark 2 ≠ .gt := by
    unfold registry
    obtain rfl | rfl | rfl : mark = 0 ∨ mark = 1 ∨ mark = 2 := by omega
    · cbv; simp
    · cbv; simp
    · cbv; simp
  exact ⟨hrun, withOrigin_untangle registry .standard hlinear (by rwa [hthree]) (by decide)
    (by decide) (by decide) hrun ⟨2, 0, 4, 2⟩ (by decide) fun other hother hgt =>
      absurd hgt (hlow other.mark (hbelow other hother))⟩

end RichDoc
