import Mathlib.Data.List.Basic
import RichDoc.Range.Untangle

/-!
# Ranges in order

A sweep visits ranges by `visitOrder`, and containers are opened by
`openingOrder`. The sweep needs three facts about the first: it is a
linear order, sorting and `enqueue` respect it, and the ranges they give
are the ones they were given. Of the second only the coarse part matters
for nesting: by start, and of two that start together the longer one
first (`OpensBefore`). That part holds of the sorted ranges whatever the
order of the marks is, even one without any laws.
-/

namespace RichDoc

/-! ## The order of visits -/

/-- The comparison of two numbers and what it is refined by, as one condition. -/
theorem compare_then_ne_gt {m n : Nat} {o : Ordering} :
    (compare m n).then o ≠ .gt ↔ m < n ∨ m = n ∧ o ≠ .gt := by
  rcases Nat.lt_trichotomy m n with h | rfl | h
  · simp [Nat.compare_eq_lt.mpr h, h]
  · simp
  · simp only [Nat.compare_eq_gt.mpr h, Ordering.then, ne_eq, not_true_eq_false, false_iff]
    omega

theorem visitOrder_ne_gt {a b : MarkRange} :
    visitOrder a b ≠ .gt ↔
      a.start < b.start ∨ a.start = b.start ∧
        (b.stop < a.stop ∨ b.stop = a.stop ∧
          (a.mark < b.mark ∨ a.mark = b.mark ∧ a.origin ≤ b.origin)) := by
  rw [visitOrder, compare_then_ne_gt, compare_then_ne_gt, compare_then_ne_gt, Nat.compare_ne_gt]

/-- The first range is visited no later than the second. -/
def VisitedBefore (a b : MarkRange) : Prop := visitOrder a b ≠ .gt

namespace VisitedBefore

variable {a b c : MarkRange}

theorem trans (hab : VisitedBefore a b) (hbc : VisitedBefore b c) : VisitedBefore a c := by
  rw [VisitedBefore, visitOrder_ne_gt] at *
  omega

theorem total (a b : MarkRange) : VisitedBefore a b ∨ VisitedBefore b a := by
  rw [VisitedBefore, VisitedBefore, visitOrder_ne_gt, visitOrder_ne_gt]
  omega

theorem start_le (h : VisitedBefore a b) : a.start ≤ b.start := by
  rw [VisitedBefore, visitOrder_ne_gt] at h
  omega

/-- Of two ranges that start together the longer one is visited first. -/
theorem stop_le (h : VisitedBefore a b) (hs : b.start ≤ a.start) : b.stop ≤ a.stop := by
  rw [VisitedBefore, visitOrder_ne_gt] at h
  omega

end VisitedBefore

/-! ## The queue -/

theorem perm_enqueue (range : MarkRange) (queue : List MarkRange) :
    (enqueue range queue).Perm (range :: queue) := by
  induction queue with
  | nil => exact .refl _
  | cons next rest ih =>
      rw [enqueue]
      split
      · exact .refl _
      · exact (ih.cons next).trans (.swap range next rest)

theorem mem_enqueue {r range : MarkRange} {queue : List MarkRange} :
    r ∈ enqueue range queue ↔ r = range ∨ r ∈ queue := by
  rw [(perm_enqueue range queue).mem_iff, List.mem_cons]

theorem pairwise_enqueue {range : MarkRange} {queue : List MarkRange}
    (h : queue.Pairwise VisitedBefore) : (enqueue range queue).Pairwise VisitedBefore := by
  induction queue with
  | nil => exact List.pairwise_singleton _ _
  | cons next rest ih =>
      obtain ⟨hnext, hrest⟩ := List.pairwise_cons.mp h
      rw [enqueue]
      split
      · next hle =>
        have hle : VisitedBefore range next := by simpa [VisitedBefore] using hle
        refine List.pairwise_cons.mpr ⟨fun r hr => ?_, h⟩
        rcases List.mem_cons.mp hr with rfl | hr
        · exact hle
        · exact hle.trans (hnext r hr)
      · next hle =>
        have hle : VisitedBefore next range :=
          (VisitedBefore.total next range).resolve_right (by simpa [VisitedBefore] using hle)
        refine List.pairwise_cons.mpr ⟨fun r hr => ?_, ih hrest⟩
        rcases mem_enqueue.mp hr with rfl | hr
        · exact hle
        · exact hnext r hr

theorem pairwise_queue_ofRanges (ranges : List MarkRange) :
    (Sweep.ofRanges ranges).queue.Pairwise VisitedBefore := by
  have trans (a b c : MarkRange) (hab : (visitOrder a b != .gt) = true)
      (hbc : (visitOrder b c != .gt) = true) : (visitOrder a c != .gt) = true :=
    bne_iff_ne.mpr (VisitedBefore.trans (bne_iff_ne.mp hab) (bne_iff_ne.mp hbc))
  have total (a b : MarkRange) : (visitOrder a b != .gt || visitOrder b a != .gt) = true := by
    simp only [Bool.or_eq_true, bne_iff_ne]
    exact VisitedBefore.total a b
  exact (List.pairwise_mergeSort trans total ranges).imp fun hab => bne_iff_ne.mp hab

theorem perm_queue_ofRanges (ranges : List MarkRange) :
    (Sweep.ofRanges ranges).queue.Perm ranges :=
  List.mergeSort_perm _ _

/-! ## The order of opening -/

/-- The first range starts before the second, or with it and ends no earlier. -/
def OpensBefore (a b : MarkRange) : Prop :=
  a.start < b.start ∨ a.start = b.start ∧ b.stop ≤ a.stop

namespace OpensBefore

variable {a b c : MarkRange}

theorem trans (hab : OpensBefore a b) (hbc : OpensBefore b c) : OpensBefore a c := by
  unfold OpensBefore at *
  omega

theorem start_le (h : OpensBefore a b) : a.start ≤ b.start := by
  unfold OpensBefore at h
  omega

theorem of_openingOrder {order : Nat → Nat → Ordering} (h : openingOrder order a b ≠ .gt) :
    OpensBefore a b := by
  rw [openingOrder, compare_then_ne_gt, compare_then_ne_gt] at h
  unfold OpensBefore
  omega

theorem of_openingOrder_eq_gt {order : Nat → Nat → Ordering} (h : openingOrder order a b = .gt) :
    OpensBefore b a := by
  have h := mt compare_then_ne_gt.mpr (not_not.mpr h)
  have h2 : ¬ (a.start = b.start ∧ b.stop < a.stop) := fun ⟨hs, hlt⟩ =>
    h (.inr ⟨hs, compare_then_ne_gt.mpr (.inl hlt)⟩)
  unfold OpensBefore
  omega

end OpensBefore

/-- Of two ranges with the same extent the lower mark is opened first. -/
theorem order_ne_gt_of_same_extent {order : Nat → Nat → Ordering} {a b : MarkRange}
    (h : openingOrder order a b ≠ .gt) (hs : a.start = b.start) (he : a.stop = b.stop) :
    order a.mark b.mark ≠ .gt := by
  intro hgt
  rw [openingOrder, compare_then_ne_gt, compare_then_ne_gt, hgt] at h
  rcases h with hlt | ⟨-, hlt | ⟨-, hne⟩⟩
  · exact absurd hs (Nat.ne_of_lt hlt)
  · exact absurd he.symm (Nat.ne_of_lt hlt)
  · exact hne rfl

/-! ## Sorting without laws

`List.pairwise_mergeSort` asks for a transitive and total comparison, and
an order of marks need be neither. It is enough that both answers of the
comparison agree with a transitive relation. -/

section MergeSort

variable {α : Type} {le : α → α → Bool} {R : α → α → Prop}

theorem pairwise_merge_of_agrees (trans : ∀ a b c, R a b → R b c → R a c)
    (yes : ∀ a b, le a b = true → R a b) (no : ∀ a b, le a b = false → R b a) :
    ∀ {l₁ l₂ : List α}, l₁.Pairwise R → l₂.Pairwise R → (List.merge l₁ l₂ le).Pairwise R
  | [], _, _, h₂ => by simpa using h₂
  | _ :: _, [], h₁, _ => by simpa using h₁
  | x :: xs, y :: ys, h₁, h₂ => by
      obtain ⟨hx, hxs⟩ := List.pairwise_cons.mp h₁
      obtain ⟨hy, hys⟩ := List.pairwise_cons.mp h₂
      rw [List.cons_merge_cons]
      split
      · next hle =>
        refine List.pairwise_cons.mpr
          ⟨fun z hz => ?_, pairwise_merge_of_agrees trans yes no hxs h₂⟩
        rcases List.mem_merge.mp hz with hz | hz
        · exact hx z hz
        · rcases List.mem_cons.mp hz with rfl | hz
          · exact yes x z hle
          · exact trans x y z (yes x y hle) (hy z hz)
      · next hle =>
        have hle : R y x := no x y (Bool.eq_false_iff.mpr hle)
        refine List.pairwise_cons.mpr
          ⟨fun z hz => ?_, pairwise_merge_of_agrees trans yes no h₁ hys⟩
        rcases List.mem_merge.mp hz with hz | hz
        · rcases List.mem_cons.mp hz with rfl | hz
          · exact hle
          · exact trans y x z hle (hx z hz)
        · exact hy z hz

theorem pairwise_mergeSort_of_agrees (trans : ∀ a b c, R a b → R b c → R a c)
    (yes : ∀ a b, le a b = true → R a b) (no : ∀ a b, le a b = false → R b a)
    (l : List α) : (l.mergeSort le).Pairwise R := by
  fun_induction List.mergeSort l le with
  | case1 => exact .nil
  | case2 => exact List.pairwise_singleton _ _
  | case3 _ _ _ _ _ _ _ ih₁ ih₂ =>
      exact pairwise_merge_of_agrees trans yes no (ih₁ yes no) (ih₂ yes no)

end MergeSort

theorem pairwise_sortForOpening (order : Nat → Nat → Ordering) (ranges : List MarkRange) :
    (sortForOpening order ranges).Pairwise OpensBefore :=
  pairwise_mergeSort_of_agrees (fun a b c => OpensBefore.trans (a := a) (b := b) (c := c))
    (fun _ _ h => .of_openingOrder (bne_iff_ne.mp h))
    (fun _ _ h => .of_openingOrder_eq_gt (by simpa using h)) ranges

theorem perm_sortForOpening (order : Nat → Nat → Ordering) (ranges : List MarkRange) :
    (sortForOpening order ranges).Perm ranges :=
  List.mergeSort_perm _ _

/-! ## Laminar lists -/

theorem Laminar.perm {l l' : List MarkRange} (h : Laminar l) (hp : l.Perm l') : Laminar l' :=
  hp.pairwise h fun hab => ⟨hab.2, hab.1⟩

end RichDoc
