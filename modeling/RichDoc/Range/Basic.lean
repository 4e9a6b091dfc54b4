/-!
# Mark ranges

A mark range says that a mark applies to the chunks from `start` up to,
but not including, `stop`. Two ranges cross when each holds chunks that
the other does not and they share some; a list of ranges is laminar when
no two of them cross, and then the ranges nest like brackets.
-/

namespace RichDoc

structure MarkRange where
  mark : Nat
  start : Nat
  stop : Nat
  /-- The collected range this one was cut from. -/
  origin : Nat := 0
deriving DecidableEq, Repr, Inhabited

namespace MarkRange

def len (range : MarkRange) : Nat := range.stop - range.start

def isEmpty (range : MarkRange) : Bool := range.stop ≤ range.start

/-- The position is one of the range's. -/
def Covers (range : MarkRange) (position : Nat) : Prop :=
  range.start ≤ position ∧ position < range.stop

instance (range : MarkRange) (position : Nat) : Decidable (range.Covers position) := by
  unfold Covers; infer_instance

/-- The second range starts inside the first and outlives it. -/
def Crosses (a b : MarkRange) : Prop :=
  a.start < b.start ∧ b.start < a.stop ∧ a.stop < b.stop

instance (a b : MarkRange) : Decidable (Crosses a b) := by
  unfold Crosses; infer_instance

end MarkRange

/-- No two ranges cross. -/
def Laminar (ranges : List MarkRange) : Prop :=
  ranges.Pairwise fun a b => ¬ a.Crosses b ∧ ¬ b.Crosses a

instance (ranges : List MarkRange) : Decidable (Laminar ranges) := by
  unfold Laminar; infer_instance

/-! ## Orders of ranges -/

/-- The order in which ranges are visited: by start, longer ones first,
and then by mark and origin, so that no two different ranges are equal. -/
def visitOrder (a b : MarkRange) : Ordering :=
  (compare a.start b.start).then
    ((compare b.stop a.stop).then ((compare a.mark b.mark).then (compare a.origin b.origin)))

/-- The order in which containers are opened: by start, longer ranges
first, and for equal extents the lower mark first, so that the higher one
is the inner container. -/
def openingOrder (order : Nat → Nat → Ordering) (a b : MarkRange) : Ordering :=
  (compare a.start b.start).then
    ((compare b.stop a.stop).then ((order a.mark b.mark).then (compare a.mark b.mark)))

/-- The ranges in the order in which their containers are opened. -/
def sortForOpening (order : Nat → Nat → Ordering) (ranges : List MarkRange) : List MarkRange :=
  ranges.mergeSort fun a b => openingOrder order a b != .gt

end RichDoc
