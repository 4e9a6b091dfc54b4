import Mathlib
import RichDoc.Proofs.Range.Turn

/-!
# Untangling forgets the order of its ranges

The queue of a sweep is sorted, and no two different ranges are visited at
the same time, so the order in which ranges came to it is not there any
more. Nothing in this depends on how the queue is kept. A heap, or any
other store, may arrange what waits as it likes, and put back what it gets
wherever it likes, as long as the one that it gives out is visited before
all others (`Sweep.Reaches`). Such a sweep makes the same turns as the one
over the sorted queue, and comes to the same end or is stopped in the same
place.
-/

namespace RichDoc

/-! ## One order of visits -/

theorem VisitedBefore.antisymm {a b : MarkRange} (hab : VisitedBefore a b)
    (hba : VisitedBefore b a) : a = b := by
  obtain ⟨mark, start, stop, origin⟩ := a
  obtain ⟨mark', start', stop', origin'⟩ := b
  simp only [VisitedBefore, visitOrder_ne_gt] at hab hba
  simp only [MarkRange.mk.injEq]
  omega

/-- There is one way to put ranges in the order of visits. -/
theorem eq_of_perm_of_sorted {queue queue' : List MarkRange}
    (h : queue.Pairwise VisitedBefore) (h' : queue'.Pairwise VisitedBefore)
    (hperm : queue'.Perm queue) : queue' = queue :=
  hperm.eq_of_pairwise (fun _ _ _ _ => VisitedBefore.antisymm) h' h

theorem perm_enqueue_congr (range : MarkRange) {queue queue' : List MarkRange}
    (h : queue'.Perm queue) : (enqueue range queue').Perm (enqueue range queue) :=
  (perm_enqueue range queue').trans ((h.cons range).trans (perm_enqueue range queue).symm)

theorem cutBudget_perm {ranges ranges' : List MarkRange} (h : ranges'.Perm ranges) :
    cutBudget ranges' = cutBudget ranges := by
  induction h with
  | nil => rfl
  | cons range _ ih => rw [cutBudget, cutBudget, ih]
  | swap a b l =>
      simp only [cutBudget]
      omega
  | trans _ _ ih₁ ih₂ => exact ih₁.trans ih₂

namespace Sweep

variable {order : Nat → Nat → Ordering} {budget : Nat} {sweep other sorted next : Sweep}
  {result : Except Diverged Sweep}

/-- A turn leaves the queue in the order of visits. -/
theorem sorted_of_turn (turn : Turn order sweep next) (h : sweep.queue.Pairwise VisitedBefore) :
    next.queue.Pairwise VisitedBefore := by
  cases turn with
  | enter fits => exact (List.pairwise_cons.mp h).2
  | leave ended => exact h
  | trim outlives same => exact pairwise_enqueue (List.pairwise_cons.mp h).2
  | @yield range queue top outer closed n k outlives differ lower =>
      obtain ⟨hfirst, hrest⟩ := List.pairwise_cons.mp h
      -- what is put back starts with the next range and is shorter
      have hback : VisitedBefore range { top.range with start := range.start } :=
        visitOrder_ne_gt.mpr (.inr ⟨rfl, .inl outlives.2⟩)
      refine List.pairwise_cons.mpr ⟨fun r hr => ?_, pairwise_enqueue hrest⟩
      rcases mem_enqueue.mp hr with rfl | hr
      · exact hback
      · exact hfirst r hr
  | shorten outlives differ stays => exact pairwise_enqueue (List.pairwise_cons.mp h).2

/-! ## Queues that are arranged in another way -/

/-- The same state of a sweep, with what waits arranged in another way. -/
structure Rearranged (sweep other : Sweep) : Prop where
  queue : other.queue.Perm sweep.queue
  opened : other.opened = sweep.opened
  closed : other.closed = sweep.closed
  emitted : other.emitted = sweep.emitted
  resolutions : other.resolutions = sweep.resolutions

theorem Rearranged.refl (sweep : Sweep) : sweep.Rearranged sweep :=
  ⟨.refl _, rfl, rfl, rfl, rfl⟩

theorem Rearranged.trans {last : Sweep} (h : sweep.Rearranged other) (h' : other.Rearranged last) :
    sweep.Rearranged last :=
  ⟨h'.queue.trans h.queue, h'.opened.trans h.opened, h'.closed.trans h.closed,
    h'.emitted.trans h.emitted, h'.resolutions.trans h.resolutions⟩

theorem Rearranged.symm (h : sweep.Rearranged other) : other.Rearranged sweep :=
  ⟨h.queue.symm, h.opened.symm, h.closed.symm, h.emitted.symm, h.resolutions.symm⟩

/-- The next range is visited before everything else that waits. -/
def InFront (sweep : Sweep) : Prop :=
  ∀ range ∈ sweep.queue.head?, ∀ r ∈ sweep.queue, VisitedBefore range r

theorem inFront_of_sorted (h : sweep.queue.Pairwise VisitedBefore) : sweep.InFront := by
  intro range hr r hmem
  cases hq : sweep.queue with
  | nil =>
      rw [hq] at hr
      cases hr
  | cons first rest =>
      rw [hq] at h hr hmem
      obtain rfl := Option.some.inj hr
      rcases List.mem_cons.mp hmem with rfl | hmem
      · exact (VisitedBefore.total r r).elim id id
      · exact (List.pairwise_cons.mp h).1 r hmem

/-- The two moves are the same, up to the arrangement of what waits after them. -/
inductive SameMove : Move → Move → Prop where
  | finished : SameMove .finished .finished
  | diverged (cause : Diverged) : SameMove (.diverged cause) (.diverged cause)
  | next {sweep other : Sweep} (same : sweep.Rearranged other) :
      SameMove (.next sweep) (.next other)

/-- A step looks at the next range, and of the others only at how many there are. -/
theorem sameMove_step (range : MarkRange) {queue queue' : List MarkRange}
    (h : queue'.Perm queue) (opened closed : List Piece) (n k : Nat) :
    SameMove (step order budget ⟨range :: queue, opened, closed, n, k⟩)
      (step order budget ⟨range :: queue', opened, closed, n, k⟩) := by
  cases opened with
  | nil => exact .next ⟨h, rfl, rfl, rfl, rfl⟩
  | cons top outer =>
      unfold step
      dsimp only
      split
      · exact .next ⟨h.cons range, rfl, rfl, rfl, rfl⟩
      split
      · exact .next ⟨h, rfl, rfl, rfl, rfl⟩
      split
      · rw [h.length_eq]
        exact .diverged _
      · unfold resolve
        dsimp only
        split
        · exact .next ⟨perm_enqueue_congr _ h, rfl, rfl, rfl, rfl⟩
        split
        · exact .next ⟨(perm_enqueue_congr _ h).cons range, rfl, rfl, rfl, rfl⟩
        · exact .next ⟨perm_enqueue_congr _ h, rfl, rfl, rfl, rfl⟩

/-- Two arrangements with the right range in front make the same move. -/
theorem Rearranged.sameMove (h : sweep.Rearranged other) (front : sweep.InFront)
    (front' : other.InFront) :
    SameMove (sweep.step order budget) (other.step order budget) := by
  obtain ⟨queue, opened, closed, n, k⟩ := sweep
  obtain ⟨queue', opened', closed', n', k'⟩ := other
  obtain ⟨hqueue, hopened, hclosed, hn, hk⟩ := h
  dsimp only at hqueue hopened hclosed hn hk
  subst hopened hclosed hn hk
  cases queue with
  | nil =>
      obtain rfl := hqueue.eq_nil
      exact .finished
  | cons range rest =>
      cases queue' with
      | nil => exact absurd hqueue.symm.eq_nil (List.cons_ne_nil _ _)
      | cons range' rest' =>
          have hmem : range' ∈ range :: rest := hqueue.mem_iff.mp (List.mem_cons_self ..)
          have hmem' : range ∈ range' :: rest' := hqueue.mem_iff.mpr (List.mem_cons_self ..)
          obtain rfl : range' = range :=
            (front' _ rfl range hmem').antisymm (front _ rfl range' hmem)
          exact sameMove_step range' hqueue.cons_inv opened' closed' n' k'

/-! ## Sweeps over a store without an order -/

/-- What a sweep may come to, when nothing is asked of the store of what waits but that a range
that it gives out is visited before all others. -/
inductive Reaches (order : Nat → Nat → Ordering) (budget : Nat) :
    Sweep → Except Diverged Sweep → Prop where
  | finished {sweep arranged : Sweep} (same : sweep.Rearranged arranged)
      (front : arranged.InFront) (step : arranged.step order budget = .finished) :
      Reaches order budget sweep (.ok arranged)
  | diverged {sweep arranged : Sweep} {cause : Diverged} (same : sweep.Rearranged arranged)
      (front : arranged.InFront) (step : arranged.step order budget = .diverged cause) :
      Reaches order budget sweep (.error cause)
  | next {sweep arranged next : Sweep} {result : Except Diverged Sweep}
      (same : sweep.Rearranged arranged) (front : arranged.InFront)
      (step : arranged.step order budget = .next next) (rest : Reaches order budget next result) :
      Reaches order budget sweep result

theorem Reaches.rearranged (h : Reaches order budget other result)
    (same : sweep.Rearranged other) : Reaches order budget sweep result := by
  cases h with
  | finished same' front step => exact .finished (same.trans same') front step
  | diverged same' front step => exact .diverged (same.trans same') front step
  | next same' front step rest => exact .next (same.trans same') front step rest

/-- Two finished sweeps with the same pieces are the same. -/
theorem Rearranged.eq_of_finished (h : sweep.Rearranged other) (hq : sweep.queue = []) :
    other = sweep := by
  obtain ⟨queue, opened, closed, n, k⟩ := sweep
  obtain ⟨queue', opened', closed', n', k'⟩ := other
  obtain ⟨hqueue, rfl, rfl, rfl, rfl⟩ := h
  obtain rfl : queue = [] := hq
  obtain rfl := hqueue.eq_nil
  rfl

theorem run_of_step (order : Nat → Nat → Ordering) (budget : Nat) (sweep : Sweep) :
    sweep.run order budget = match sweep.step order budget with
      | .finished => .ok sweep
      | .diverged cause => .error cause
      | .next next => next.run order budget := by
  rw [run]
  split <;> simp_all

/-- However it is kept, what waits is swept as it is from the sorted queue. -/
theorem run_of_reaches (h : Reaches order budget sweep result) (same : sweep.Rearranged sorted)
    (hs : sorted.queue.Pairwise VisitedBefore) : sorted.run order budget = result := by
  have hmove {arranged : Sweep} (same' : sweep.Rearranged arranged) (front : arranged.InFront) :
      SameMove (arranged.step order budget) (sorted.step order budget) :=
    (same'.symm.trans same).sameMove front (inFront_of_sorted hs)
  induction h generalizing sorted with
  | finished same' front step =>
      have hmove := hmove same' front
      rw [step] at hmove
      rw [run_of_step]
      generalize hm : sorted.step order budget = move at hmove
      cases hmove
      exact congrArg Except.ok ((same'.symm.trans same).eq_of_finished (step_eq_finished.mp step))
  | diverged same' front step =>
      have hmove := hmove same' front
      rw [step] at hmove
      rw [run_of_step]
      generalize hm : sorted.step order budget = move at hmove
      cases hmove
      rfl
  | next same' front step rest ih =>
      have hmove := hmove same' front
      rw [step] at hmove
      rw [run_of_step]
      generalize hm : sorted.step order budget = move at hmove
      cases hmove with
      | next hnext =>
          have hsorted := sorted_of_turn (turn_of_step hm).1 hs
          exact ih hnext hsorted fun same' front =>
            (same'.symm.trans hnext).sameMove front (inFront_of_sorted hsorted)

/-- The sorted queue is one way to keep what waits. -/
theorem reaches_run (order : Nat → Nat → Ordering) (budget : Nat)
    (hs : sweep.queue.Pairwise VisitedBefore) :
    Reaches order budget sweep (sweep.run order budget) := by
  fun_induction run order budget sweep with
  | case1 sweep step => exact .finished (.refl sweep) (inFront_of_sorted hs) step
  | case2 sweep cause step => exact .diverged (.refl sweep) (inFront_of_sorted hs) step
  | case3 sweep next step _ ih =>
      exact .next (.refl sweep) (inFront_of_sorted hs) step
        (ih (sorted_of_turn (turn_of_step step).1 hs))

/-- A sweep over a store comes to one end, that of the sweep over the sorted queue. -/
theorem reaches_iff (same : sweep.Rearranged sorted)
    (hs : sorted.queue.Pairwise VisitedBefore) :
    Reaches order budget sweep result ↔ sorted.run order budget = result := by
  constructor
  · intro h
    exact run_of_reaches h same hs
  · rintro rfl
    exact (reaches_run order budget hs).rearranged same

/-- The queue of a sweep does not tell in which order the ranges came. -/
theorem ofRanges_perm {ranges ranges' : List MarkRange} (h : ranges'.Perm ranges) :
    ofRanges ranges' = ofRanges ranges := by
  have hqueue : (ofRanges ranges').queue = (ofRanges ranges).queue :=
    eq_of_perm_of_sorted (pairwise_queue_ofRanges ranges) (pairwise_queue_ofRanges ranges')
      ((perm_queue_ofRanges ranges').trans (h.trans (perm_queue_ofRanges ranges).symm))
  exact congrArg (fun queue => ({ queue } : Sweep)) hqueue

end Sweep

/-- **The order of the ranges does not matter**, whatever the order of their marks is: untangling
gives the same result, or is stopped in the same place, when the ranges come in another order. It
does not matter either how what waits is kept. A sweep that starts with the ranges as they came,
and takes from them any range that is visited before the others, can come to this end and to no
other. -/
theorem untangle_perm (order : Nat → Nat → Ordering) {ranges ranges' : List MarkRange}
    (h : ranges'.Perm ranges) :
    untangle order ranges' = untangle order ranges ∧
      (∃ result, Sweep.Reaches order (cutBudget ranges') { queue := ranges' } result) ∧
      ∀ result, Sweep.Reaches order (cutBudget ranges') { queue := ranges' } result →
        untangle order ranges = result.map fun sweep => sortForOpening order sweep.pieces := by
  have hbudget := cutBudget_perm h
  have hsweep := Sweep.ofRanges_perm h
  have hstore : Sweep.Rearranged { queue := ranges' } (Sweep.ofRanges ranges) :=
    ⟨(perm_queue_ofRanges ranges).trans h.symm, rfl, rfl, rfl, rfl⟩
  have hreaches (result : Except Diverged Sweep) :
      Sweep.Reaches order (cutBudget ranges') { queue := ranges' } result ↔
        (Sweep.ofRanges ranges).run order (cutBudget ranges) = result := by
    rw [hbudget]
    exact Sweep.reaches_iff hstore (pairwise_queue_ofRanges ranges)
  refine ⟨?_, ⟨_, (hreaches _).mpr rfl⟩, fun result hresult => ?_⟩
  · rw [untangle, untangle, hbudget, hsweep]
  · rw [untangle, (hreaches result).mp hresult]

/-- Three crossing ranges from left to right and from right to left. -/
theorem untangle_perm_three :
    let order : Nat → Nat → Ordering := fun a b => compare a b
    let ranges : List MarkRange := [⟨0, 0, 4, 0⟩, ⟨1, 2, 6, 1⟩, ⟨2, 3, 7, 2⟩]
    untangle order ranges.reverse = untangle order ranges ∧
      ∃ final, Sweep.Reaches order (cutBudget ranges.reverse) { queue := ranges.reverse }
          (.ok final) ∧
        sortForOpening order final.pieces =
          [⟨0, 0, 2, 0⟩, ⟨0, 2, 3, 0⟩, ⟨1, 2, 3, 1⟩, ⟨2, 3, 7, 2⟩, ⟨1, 3, 6, 1⟩, ⟨0, 3, 4, 0⟩] := by
  intro order ranges
  obtain ⟨hsame, ⟨result, hresult⟩, hend⟩ := untangle_perm order (List.reverse_perm ranges)
  have hrun : untangle order ranges = .ok
      [⟨0, 0, 2, 0⟩, ⟨0, 2, 3, 0⟩, ⟨1, 2, 3, 1⟩, ⟨2, 3, 7, 2⟩, ⟨1, 3, 6, 1⟩, ⟨0, 3, 4, 0⟩] := by
    cbv
  have hmap := hend result hresult
  rw [hrun] at hmap
  cases result with
  | error cause => cases hmap
  | ok final => exact ⟨hsame, final, hresult, (Except.ok.inj hmap).symm⟩

end RichDoc
