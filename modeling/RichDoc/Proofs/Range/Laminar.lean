import RichDoc.Proofs.Range.Turn

/-!
# The pieces of a sweep nest

Two invariants of a sweep, neither of which asks anything of the order of
marks. `Sweep.Tidy` is about what is still to come: the queue is sorted,
the open pieces nest with the innermost first, and nothing in the queue
or open is empty. `Sweep.Settled` is about what is done: a closed piece
ends before anything that is still to come, and it crosses no piece that
is closed or open. At the end of the queue the second one says that the
pieces are laminar.
-/

namespace RichDoc

theorem forall_mem_enqueue {P : MarkRange → Prop} {range : MarkRange} {queue : List MarkRange} :
    (∀ r ∈ enqueue range queue, P r) ↔ P range ∧ ∀ r ∈ queue, P r := by
  simp only [mem_enqueue, forall_eq_or_imp]

namespace Sweep

/-- Everything that is open reaches the next range, in layers. -/
structure Tidy (sweep : Sweep) : Prop where
  sorted : sweep.queue.Pairwise VisitedBefore
  queued : ∀ r ∈ sweep.queue, r.start < r.stop
  opened : ∀ p ∈ sweep.opened, p.range.start < p.range.stop
  nested : sweep.opened.Pairwise fun inner outer =>
    outer.range.start ≤ inner.range.start ∧ inner.range.stop ≤ outer.range.stop
  reached : ∀ p ∈ sweep.opened, ∀ r ∈ sweep.queue, p.range.start ≤ r.start

/-- The two pieces nest or have nothing in common. -/
def Uncrossed (a b : Piece) : Prop := ¬ a.range.Crosses b.range ∧ ¬ b.range.Crosses a.range

/-- Nothing that is still to come touches a closed piece. -/
structure Settled (sweep : Sweep) : Prop where
  passed : ∀ p ∈ sweep.closed, ∀ r ∈ sweep.queue, p.range.stop ≤ r.start
  around : ∀ p ∈ sweep.closed, ∀ q ∈ sweep.opened, Uncrossed p q
  closed : sweep.closed.Pairwise Uncrossed

variable {order : Nat → Nat → Ordering} {sweep next final : Sweep}

theorem tidy_ofRanges {ranges : List MarkRange} (h : ∀ r ∈ ranges, r.start < r.stop) :
    (ofRanges ranges).Tidy where
  sorted := pairwise_queue_ofRanges ranges
  queued := fun r hr => h r ((perm_queue_ofRanges ranges).mem_iff.mp hr)
  opened := by simp [ofRanges]
  nested := .nil
  reached := by simp [ofRanges]

theorem settled_ofRanges (ranges : List MarkRange) : (ofRanges ranges).Settled where
  passed := by simp [ofRanges]
  around := by simp [ofRanges]
  closed := .nil

namespace Tidy

variable {range : MarkRange} {queue : List MarkRange} {top : Piece} {outer closed : List Piece}
  {n k : Nat}

/-- The next range starts no later than the others. -/
theorem start_le (h : Tidy ⟨range :: queue, top :: outer, closed, n, k⟩) :
    ∀ r ∈ queue, range.start ≤ r.start :=
  fun r hr => ((List.pairwise_cons.mp h.sorted).1 r hr).start_le

/-- What is cut from the next range starts behind every open piece. -/
theorem mem_of_mem_enqueue (h : Tidy ⟨range :: queue, top :: outer, closed, n, k⟩)
    {x : Nat} (hx : range.start < x) {r : MarkRange}
    (hr : r ∈ RichDoc.enqueue { range with start := x } queue) {p : Piece}
    (hp : p ∈ top :: outer) (hs : r.start ≤ p.range.start) : r ∈ queue := by
  rcases mem_enqueue.mp hr with rfl | hr
  · have hreached := h.reached p hp range (List.mem_cons_self ..)
    exact absurd (Nat.le_trans hs hreached) (Nat.not_le.mpr hx)
  · exact hr

/-- A range that the next one is cut to may be put back if it starts no earlier. -/
theorem enqueue (h : Tidy ⟨range :: queue, top :: outer, closed, n, k⟩) {r : MarkRange}
    (hs : range.start ≤ r.start) (hne : r.start < r.stop) (k' : Nat) :
    Tidy ⟨RichDoc.enqueue r queue, top :: outer, closed, n, k'⟩ where
  sorted := pairwise_enqueue (List.pairwise_cons.mp h.sorted).2
  queued := forall_mem_enqueue.mpr ⟨hne, (List.forall_mem_cons.mp h.queued).2⟩
  opened := h.opened
  nested := h.nested
  reached := fun p hp => by
    obtain ⟨hrange, hqueue⟩ := List.forall_mem_cons.mp (h.reached p hp)
    exact forall_mem_enqueue.mpr ⟨Nat.le_trans hrange hs, hqueue⟩

theorem turn (turn : Turn order sweep next) (h : sweep.Tidy) : next.Tidy := by
  cases turn with
  | @enter range queue opened closed n k fits =>
      obtain ⟨hfirst, hsorted⟩ := List.pairwise_cons.mp h.sorted
      obtain ⟨hne, hqueued⟩ := List.forall_mem_cons.mp h.queued
      -- the range fits into the innermost piece, and so into all of them
      have hinside : ∀ p ∈ opened, range.stop ≤ p.range.stop := by
        intro p hp
        cases opened with
        | nil => cases hp
        | cons top outer =>
            have htop : range.stop ≤ top.range.stop := (fits top rfl).2
            rcases List.mem_cons.mp hp with rfl | hp
            · exact htop
            · exact Nat.le_trans htop ((List.pairwise_cons.mp h.nested).1 p hp).2
      refine ⟨hsorted, hqueued, List.forall_mem_cons.mpr ⟨hne, h.opened⟩, ?nested, ?reached⟩
      case nested =>
          refine List.pairwise_cons.mpr ⟨?_, h.nested⟩
          intro p hp
          exact ⟨h.reached p hp range (List.mem_cons_self ..), hinside p hp⟩
      case reached =>
          refine List.forall_mem_cons.mpr ⟨fun r hr => (hfirst r hr).start_le, ?_⟩
          intro p hp r hr
          exact h.reached p hp r (List.mem_cons_of_mem _ hr)
  | leave ended =>
      exact ⟨h.sorted, h.queued, (List.forall_mem_cons.mp h.opened).2,
        (List.pairwise_cons.mp h.nested).2, (List.forall_mem_cons.mp h.reached).2⟩
  | @trim range queue top outer closed n k outlives same =>
      exact h.enqueue (Nat.le_of_lt outlives.1) outlives.2 (k + 1)
  | @yield range queue top outer closed n k outlives differ lower =>
      -- the piece that is put back is shorter than the range that stays in front of it
      have hput := h.enqueue (r := { top.range with start := range.start })
        (Nat.le_refl _) outlives.1 k
      have hfirst : ∀ r ∈ queue, VisitedBefore range r := (List.pairwise_cons.mp h.sorted).1
      have hback : VisitedBefore range { top.range with start := range.start } :=
        visitOrder_ne_gt.mpr (.inr ⟨rfl, .inl outlives.2⟩)
      have hne : range.start < range.stop := h.queued range (List.mem_cons_self ..)
      refine ⟨?sorted, List.forall_mem_cons.mpr ⟨hne, hput.queued⟩,
        (List.forall_mem_cons.mp h.opened).2, (List.pairwise_cons.mp h.nested).2, ?reached⟩
      case sorted =>
          exact List.pairwise_cons.mpr ⟨forall_mem_enqueue.mpr ⟨hback, hfirst⟩, hput.sorted⟩
      case reached =>
          intro p hp
          have hp : p ∈ top :: outer := List.mem_cons_of_mem _ hp
          exact List.forall_mem_cons.mpr
            ⟨h.reached p hp range (List.mem_cons_self ..), hput.reached p hp⟩
  | @shorten range queue top outer closed n k outlives differ stays =>
      have hput := h.enqueue (r := { range with start := top.range.stop })
        (Nat.le_of_lt outlives.1) outlives.2 k
      have hstart := h.reached top (List.mem_cons_self ..) range (List.mem_cons_self ..)
      refine ⟨hput.sorted, hput.queued, List.forall_mem_cons.mpr ⟨outlives.1, h.opened⟩,
        ?nested, ?reached⟩
      case nested =>
          refine List.pairwise_cons.mpr ⟨?_, h.nested⟩
          intro p hp
          rcases List.mem_cons.mp hp with rfl | hp
          · exact ⟨hstart, Nat.le_refl _⟩
          · exact ⟨h.reached p (List.mem_cons_of_mem _ hp) range (List.mem_cons_self ..),
              ((List.pairwise_cons.mp h.nested).1 p hp).2⟩
      case reached =>
          refine List.forall_mem_cons.mpr ⟨?_, hput.reached⟩
          exact forall_mem_enqueue.mpr ⟨Nat.le_of_lt outlives.1, h.start_le⟩

end Tidy

namespace Uncrossed

variable {a b : Piece}

theorem symm (h : Uncrossed a b) : Uncrossed b a := ⟨h.2, h.1⟩

theorem of_apart (h : a.range.stop ≤ b.range.start) : Uncrossed a b := by
  unfold Uncrossed MarkRange.Crosses
  omega

theorem of_inside (hs : b.range.start ≤ a.range.start) (he : a.range.stop ≤ b.range.stop) :
    Uncrossed a b := by
  unfold Uncrossed MarkRange.Crosses
  omega

/-- Ending a piece earlier crosses nothing that has ended by then. -/
theorem cut {stop : Nat} (h : Uncrossed a b) (hb : b.range.stop ≤ stop)
    (ha : stop ≤ a.range.stop) : Uncrossed { a with range.stop := stop } b := by
  unfold Uncrossed MarkRange.Crosses at *
  dsimp only
  omega

end Uncrossed

theorem Settled.turn (turn : Turn order sweep next) (ht : sweep.Tidy) (h : sweep.Settled) :
    next.Settled := by
  cases turn with
  | enter fits =>
      refine ⟨?passed, ?around, h.closed⟩
      case passed =>
          intro p hp
          exact (List.forall_mem_cons.mp (h.passed p hp)).2
      case around =>
          intro p hp
          refine List.forall_mem_cons.mpr ⟨?_, h.around p hp⟩
          exact .of_apart (h.passed p hp _ (List.mem_cons_self ..))
  | @leave range queue top outer closed n k ended =>
      refine ⟨List.forall_mem_cons.mpr ⟨?passed, h.passed⟩,
        List.forall_mem_cons.mpr ⟨?inside, ?around⟩, List.pairwise_cons.mpr ⟨?closed, h.closed⟩⟩
      case passed =>
          refine List.forall_mem_cons.mpr ⟨ended, ?_⟩
          intro r hr
          exact Nat.le_trans ended (ht.start_le r hr)
      case inside =>
          intro q hq
          obtain ⟨hs, he⟩ := (List.pairwise_cons.mp ht.nested).1 q hq
          exact .of_inside hs he
      case around =>
          intro p hp
          exact (List.forall_mem_cons.mp (h.around p hp)).2
      case closed =>
          intro p hp
          exact (h.around p hp top (List.mem_cons_self ..)).symm
  | @trim range queue top outer closed n k outlives same =>
      refine ⟨?_, h.around, h.closed⟩
      intro p hp
      obtain ⟨hr, hq⟩ := List.forall_mem_cons.mp (h.passed p hp)
      exact forall_mem_enqueue.mpr ⟨Nat.le_trans hr (Nat.le_of_lt outlives.1), hq⟩
  | @yield range queue top outer closed n k outlives differ lower =>
      refine ⟨List.forall_mem_cons.mpr ⟨?passed, ?before⟩,
        List.forall_mem_cons.mpr ⟨?inside, ?around⟩, List.pairwise_cons.mpr ⟨?closed, h.closed⟩⟩
      case passed =>
          exact List.forall_mem_cons.mpr ⟨Nat.le_refl _,
            forall_mem_enqueue.mpr ⟨Nat.le_refl _, ht.start_le⟩⟩
      case before =>
          intro p hp
          obtain ⟨hr, hq⟩ := List.forall_mem_cons.mp (h.passed p hp)
          exact List.forall_mem_cons.mpr ⟨hr, forall_mem_enqueue.mpr ⟨hr, hq⟩⟩
      case inside =>
          intro q hq
          obtain ⟨hs, he⟩ := (List.pairwise_cons.mp ht.nested).1 q hq
          exact .of_inside hs (Nat.le_trans (Nat.le_of_lt outlives.1) he)
      case around =>
          intro p hp
          exact (List.forall_mem_cons.mp (h.around p hp)).2
      case closed =>
          intro p hp
          have htop := (List.forall_mem_cons.mp (h.around p hp)).1
          have hpassed := h.passed p hp range (List.mem_cons_self ..)
          exact htop.symm.cut hpassed (Nat.le_of_lt outlives.1)
  | @shorten range queue top outer closed n k outlives differ stays =>
      refine ⟨?passed, ?around, h.closed⟩
      case passed =>
          intro p hp
          obtain ⟨hr, hq⟩ := List.forall_mem_cons.mp (h.passed p hp)
          exact forall_mem_enqueue.mpr ⟨Nat.le_trans hr (Nat.le_of_lt outlives.1), hq⟩
      case around =>
          intro p hp
          refine List.forall_mem_cons.mpr ⟨?_, h.around p hp⟩
          exact .of_apart (h.passed p hp range (List.mem_cons_self ..))

/-! ## Whole sweeps -/

theorem tidy_of_turns (turns : Turns order sweep final) (h : sweep.Tidy) : final.Tidy :=
  turns.keep Tidy.turn h

theorem settled_of_turns (turns : Turns order sweep final) (ht : sweep.Tidy) (h : sweep.Settled) :
    final.Settled :=
  (turns.keep (I := fun s => s.Tidy ∧ s.Settled)
    (fun turn h => ⟨h.1.turn turn, h.2.turn turn h.1⟩) ⟨ht, h⟩).2

theorem perm_pieces (sweep : Sweep) :
    sweep.pieces.Perm ((sweep.closed ++ sweep.opened).map Piece.range) :=
  (List.mergeSort_perm _ _).map _

/-- The pieces of a sweep that is tidy and settled do not cross. -/
theorem laminar_pieces (ht : sweep.Tidy) (h : sweep.Settled) : Laminar sweep.pieces := by
  refine Laminar.perm (l := (sweep.closed ++ sweep.opened).map Piece.range) ?_
    (perm_pieces sweep).symm
  refine List.pairwise_map.mpr (List.pairwise_append.mpr ⟨h.closed, ?_, h.around⟩)
  exact ht.nested.imp fun hn => Uncrossed.of_inside hn.1 hn.2

end Sweep

/-- What an untangling that is not stopped consists of: a sweep to the end of its queue. -/
theorem turns_of_untangle {order : Nat → Nat → Ordering} {ranges out : List MarkRange}
    (h : untangle order ranges = .ok out) :
    ∃ final, Turns order (Sweep.ofRanges ranges) final ∧ final.queue = [] ∧
      out = sortForOpening order final.pieces := by
  unfold untangle at h
  cases hrun : (Sweep.ofRanges ranges).run order (cutBudget ranges) with
  | error cause => rw [hrun] at h; cases h
  | ok final =>
      rw [hrun] at h
      cases h
      obtain ⟨turns, hq⟩ := Sweep.turns_of_run hrun
      exact ⟨final, turns, hq, rfl⟩

end RichDoc
