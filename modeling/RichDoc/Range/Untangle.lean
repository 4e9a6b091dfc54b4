import RichDoc.Range.Basic

/-!
# Untangling ranges

Marks may overlap in any way, containers have to nest. A sweep over the
ranges, in the order of their starts, keeps the ranges that are open,
innermost first. The next range either starts behind the innermost one,
which closes it, or fits into it and is opened, or crosses it. A crossing
is resolved by cutting the range of the lower mark where the other one
begins or ends; the piece that is cut off is visited later like any other
range. Of two crossing ranges of one mark only the part of the second
that the first does not cover is kept.

Each step of the sweep lowers `Sweep.work`, so the sweep ends. The number
of cuts is limited besides; a sweep that would need more is an error.
-/

namespace RichDoc

/-- The sweep needed more cuts than its input allows. -/
structure Diverged where
  resolutions : Nat
  ranges : Nat
deriving DecidableEq, Repr

/-- A range that has been opened, with its place among all that were. -/
structure Piece where
  serial : Nat
  range : MarkRange
deriving DecidableEq, Repr

/-- Puts a range in its place among those still to be visited. -/
def enqueue (range : MarkRange) : List MarkRange → List MarkRange
  | [] => [range]
  | next :: rest =>
    if visitOrder range next != .gt then range :: next :: rest else next :: enqueue range rest

@[simp]
theorem length_enqueue (range : MarkRange) (queue : List MarkRange) :
    (enqueue range queue).length = queue.length + 1 := by
  induction queue with
  | nil => rfl
  | cons next rest ih =>
    rw [enqueue]
    split
    · rfl
    · simp [ih]

structure Sweep where
  /-- What is still to be visited, in the order of visits. -/
  queue : List MarkRange
  /-- The open pieces, innermost first. -/
  opened : List Piece := []
  closed : List Piece := []
  /-- How many pieces have been opened. -/
  emitted : Nat := 0
  /-- How many crossings have been resolved. -/
  resolutions : Nat := 0
deriving Repr

namespace Sweep

/-- The start of a sweep over the given ranges. -/
def ofRanges (ranges : List MarkRange) : Sweep where
  queue := ranges.mergeSort fun a b => visitOrder a b != .gt

/-- Opens the range at the head of the queue. -/
def openNext (sweep : Sweep) (range : MarkRange) (queue : List MarkRange) : Sweep :=
  { sweep with
    queue := queue
    opened := ⟨sweep.emitted, range⟩ :: sweep.opened
    emitted := sweep.emitted + 1 }

/-- Closes the innermost open piece. -/
def closeTop (sweep : Sweep) (top : Piece) (outer : List Piece) : Sweep :=
  { sweep with opened := outer, closed := top :: sweep.closed }

/-- Resolves the crossing of the innermost open piece with the next range. -/
def resolve (sweep : Sweep) (order : Nat → Nat → Ordering) (top : Piece) (outer : List Piece)
    (range : MarkRange) (queue : List MarkRange) : Sweep :=
  let sweep := { sweep with resolutions := sweep.resolutions + 1 }
  if top.range.mark = range.mark then
    { sweep with queue := enqueue { range with start := top.range.stop } queue }
  else if order top.range.mark range.mark = .lt then
    { sweep with
      queue := range :: enqueue { top.range with start := range.start } queue
      opened := outer
      closed := { top with range.stop := range.start } :: sweep.closed }
  else
    sweep.openNext { range with stop := top.range.stop }
      (enqueue { range with start := top.range.stop } queue)

/-- What a sweep does next. -/
inductive Move where
  | finished
  | diverged (cause : Diverged)
  | next (sweep : Sweep)

def step (order : Nat → Nat → Ordering) (budget : Nat) (sweep : Sweep) : Move :=
  match sweep.queue, sweep.opened with
  | [], _ => .finished
  | range :: queue, [] => .next (sweep.openNext range queue)
  | range :: queue, top :: outer =>
    if top.range.stop ≤ range.start then .next (sweep.closeTop top outer)
    else if range.stop ≤ top.range.stop then .next (sweep.openNext range queue)
    else if budget ≤ sweep.resolutions then
      .diverged ⟨sweep.resolutions, sweep.emitted + queue.length⟩
    else .next (sweep.resolve order top outer range queue)

/-- A bound on the steps that are left: visiting a range costs two, one to
open it and one to close it, and every crossing may put a range back. -/
def work (budget : Nat) (sweep : Sweep) : Nat :=
  2 * (sweep.queue.length + (budget - sweep.resolutions)) + sweep.opened.length

theorem work_step {order : Nat → Nat → Ordering} {budget : Nat} {sweep next : Sweep}
    (h : sweep.step order budget = .next next) : next.work budget < sweep.work budget := by
  unfold step at h
  split at h
  · cases h
  · next range queue hq ho =>
    cases h
    simp only [work, openNext, hq, ho, List.length_cons, List.length_nil]
    omega
  · next range queue top outer hq ho =>
    split at h
    · cases h
      simp only [work, closeTop, hq, ho, List.length_cons]
      omega
    split at h
    · cases h
      simp only [work, openNext, hq, ho, List.length_cons]
      omega
    split at h
    · cases h
    · cases h
      unfold resolve
      split
      · simp only [work, length_enqueue, hq, ho, List.length_cons]
        omega
      split
      · simp only [work, length_enqueue, hq, ho, List.length_cons]
        omega
      · simp only [work, openNext, length_enqueue, hq, ho, List.length_cons]
        omega

/-- Sweeps to the end of the queue. -/
def run (order : Nat → Nat → Ordering) (budget : Nat) (sweep : Sweep) : Except Diverged Sweep :=
  match h : sweep.step order budget with
  | .finished => .ok sweep
  | .diverged cause => .error cause
  | .next next =>
    have := work_step h
    next.run order budget
termination_by sweep.work budget

/-- All pieces in the order in which they were opened. -/
def pieces (sweep : Sweep) : List MarkRange :=
  ((sweep.closed ++ sweep.opened).mergeSort fun a b => a.serial ≤ b.serial).map Piece.range

end Sweep

/-- As many cuts as there are chunks in all ranges, and one more for each range. -/
def cutBudget : List MarkRange → Nat
  | [] => 0
  | range :: rest => range.len + 1 + cutBudget rest

/-- Cuts ranges until no two of them cross, and sorts them for opening. -/
def untangle (order : Nat → Nat → Ordering) (ranges : List MarkRange) :
    Except Diverged (List MarkRange) :=
  ((Sweep.ofRanges ranges).run order (cutBudget ranges)).map fun sweep =>
    sortForOpening order sweep.pieces

end RichDoc
