import Mathlib.Data.List.Sort
import RichDoc.Proofs.Mark.Linear
import RichDoc.Proofs.Range.Order

/-!
# Sorting for opening under a linear order

`sortForOpening` compares by start, by stop and then by mark, and stops
there. When the marks are ordered linearly this is a preorder on the
ranges with registered marks, and it tells ranges apart unless they have
the same mark and the same extent. So the ranges come out in that order,
and where no two of them agree in all three it does not matter how they
came in.
-/

namespace RichDoc

variable {order : Nat → Nat → Ordering} {size a b c : Nat}

/-! ## Not higher -/

namespace LinearBelow

/-- Of two registered marks that are not the same one, the one that is not higher is lower. -/
theorem lt_of_ne (h : LinearBelow order size) (ha : a < size) (hb : b < size) (hne : a ≠ b)
    (hgt : order a b ≠ .gt) : order a b = .lt := by
  cases hab : order a b with
  | lt => rfl
  | eq => exact absurd (h.eq a ha b hb hab) hne
  | gt => exact absurd hab hgt

theorem ne_gt_trans (h : LinearBelow order size) (ha : a < size) (hb : b < size) (hc : c < size)
    (hab : order a b ≠ .gt) (hbc : order b c ≠ .gt) : order a c ≠ .gt := by
  intro hac
  rcases eq_or_ne a b with rfl | hne
  · exact hbc hac
  · rcases eq_or_ne b c with rfl | hne'
    · exact hab hac
    · -- going round from `c` to `a` and back, a mark would be higher than itself
      have hcb := h.gt_of_lt hb hc (h.lt_of_ne hb hc hne' hbc)
      have hba := h.gt_of_lt ha hb (h.lt_of_ne ha hb hne hab)
      have hca := h.trans c hc b hb a ha hcb hba
      rw [h.swap a ha c hc, hac] at hca
      cases hca

theorem ne_gt_total (h : LinearBelow order size) (ha : a < size) (hb : b < size) :
    order a b ≠ .gt ∨ order b a ≠ .gt := by
  rw [h.swap a ha b hb]
  cases order a b <;> simp

theorem eq_of_ne_gt (h : LinearBelow order size) (ha : a < size) (hb : b < size)
    (hab : order a b ≠ .gt) (hba : order b a ≠ .gt) : a = b := by
  by_contra hne
  exact hba (h.gt_of_lt ha hb (h.lt_of_ne ha hb hne hab))

/-- No mark is higher than itself. -/
theorem irrefl (h : LinearBelow order size) (ha : a < size) : order a a ≠ .gt := by
  intro hgt
  have hswap := h.swap a ha a ha
  rw [hgt] at hswap
  cases hswap

end LinearBelow

/-! ## The order of opening -/

theorem openingOrder_ne_gt (hlinear : LinearBelow order size) {a b : MarkRange}
    (ha : a.mark < size) (hb : b.mark < size) :
    openingOrder order a b ≠ .gt ↔
      a.start < b.start ∨ a.start = b.start ∧
        (b.stop < a.stop ∨ b.stop = a.stop ∧ order a.mark b.mark ≠ .gt) := by
  have hmark : (order a.mark b.mark).then (compare a.mark b.mark) ≠ .gt ↔
      order a.mark b.mark ≠ .gt := by
    cases hab : order a.mark b.mark with
    | eq => simp [hlinear.eq _ ha _ hb hab]
    | _ => simp
  rw [openingOrder, compare_then_ne_gt, compare_then_ne_gt, hmark]

theorem openingOrder_eq_lt (hlinear : LinearBelow order size) {a b : MarkRange}
    (ha : a.mark < size) (hb : b.mark < size) :
    openingOrder order a b = .lt ↔
      a.start < b.start ∨ a.start = b.start ∧
        (b.stop < a.stop ∨ b.stop = a.stop ∧ order a.mark b.mark = .lt) := by
  have hmark : (order a.mark b.mark).then (compare a.mark b.mark) = .lt ↔
      order a.mark b.mark = .lt := by
    cases hab : order a.mark b.mark with
    | eq => simp [hlinear.eq _ ha _ hb hab]
    | _ => simp
  rw [openingOrder, Ordering.then_eq_lt, Ordering.then_eq_lt, hmark, Nat.compare_eq_lt,
    Nat.compare_eq_eq, Nat.compare_eq_lt, Nat.compare_eq_eq]

/-- Of two ranges in the order of opening the second one is not opened before the first. -/
theorem openingOrder_ne_lt_of_ne_gt (hlinear : LinearBelow order size) {a b : MarkRange}
    (ha : a.mark < size) (hb : b.mark < size) (h : openingOrder order a b ≠ .gt) :
    openingOrder order b a ≠ .lt := by
  rw [openingOrder_ne_gt hlinear ha hb] at h
  intro hlt
  rw [openingOrder_eq_lt hlinear hb ha] at hlt
  have hgt := hlinear.gt_of_lt hb ha
  grind

/-- Ranges with registered marks. -/
abbrev RangeBelow (size : Nat) : Type := { range : MarkRange // range.mark < size }

variable {ranges ranges' : List MarkRange}

/-- Sorted ranges are in the order of opening, also where they have the same extent. -/
theorem pairwise_openingOrder_sortForOpening (hlinear : LinearBelow order size)
    (hsize : ∀ range ∈ ranges, range.mark < size) :
    (sortForOpening order ranges).Pairwise fun a b => openingOrder order a b ≠ .gt := by
  -- the comparison has its laws on registered marks only, so that is where the list is sorted
  let le (a b : RangeBelow size) : Bool := openingOrder order a.1 b.1 != .gt
  have trans (a b c : RangeBelow size) (hab : le a b = true) (hbc : le b c = true) :
      le a c = true := by
    rw [bne_iff_ne, openingOrder_ne_gt hlinear a.2 b.2] at hab
    rw [bne_iff_ne, openingOrder_ne_gt hlinear b.2 c.2] at hbc
    rw [bne_iff_ne, openingOrder_ne_gt hlinear a.2 c.2]
    have hmark := hlinear.ne_gt_trans a.2 b.2 c.2
    grind
  have total (a b : RangeBelow size) : (le a b || le b a) = true := by
    rw [Bool.or_eq_true, bne_iff_ne, bne_iff_ne, openingOrder_ne_gt hlinear a.2 b.2,
      openingOrder_ne_gt hlinear b.2 a.2]
    have hmark := hlinear.ne_gt_total a.2 b.2
    grind
  have hsorted := List.pairwise_mergeSort trans total (ranges.attachWith _ hsize)
  have hmap := @List.map_mergeSort _ _ le (fun a b => openingOrder order a b != .gt)
    Subtype.val (ranges.attachWith _ hsize) fun _ _ _ _ => rfl
  rw [List.attachWith_map_subtype_val] at hmap
  rw [sortForOpening, ← hmap]
  exact List.pairwise_map.mpr (hsorted.imp fun hab => bne_iff_ne.mp hab)

/-- Where no two ranges have both mark and extent in common, sorting forgets how they came. -/
theorem sortForOpening_perm (hlinear : LinearBelow order size)
    (hsize : ∀ range ∈ ranges, range.mark < size)
    (hdistinct : (ranges.map fun range => (range.mark, range.start, range.stop)).Nodup)
    (h : ranges'.Perm ranges) : sortForOpening order ranges' = sortForOpening order ranges := by
  have hmem {range : MarkRange} (hr : range ∈ sortForOpening order ranges') : range ∈ ranges :=
    h.mem_iff.mp ((perm_sortForOpening order ranges').mem_iff.mp hr)
  refine List.Perm.eq_of_pairwise ?_
    (pairwise_openingOrder_sortForOpening hlinear fun r hr => hsize r (h.mem_iff.mp hr))
    (pairwise_openingOrder_sortForOpening hlinear hsize)
    ((perm_sortForOpening order ranges').trans (h.trans (perm_sortForOpening order ranges).symm))
  intro a b ha hb hab hba
  have ha := hmem ha
  have hb := (perm_sortForOpening order ranges).mem_iff.mp hb
  rw [openingOrder_ne_gt hlinear (hsize a ha) (hsize b hb)] at hab
  rw [openingOrder_ne_gt hlinear (hsize b hb) (hsize a ha)] at hba
  have hstart : a.start = b.start := by grind
  have hstop : a.stop = b.stop := by grind
  have hmark : a.mark = b.mark :=
    hlinear.eq_of_ne_gt (hsize a ha) (hsize b hb) (by grind) (by grind)
  exact List.inj_on_of_nodup_map hdistinct ha hb (by rw [hmark, hstart, hstop])

end RichDoc
