import Mathlib
import RichDoc.Proofs.Export.Collection
import RichDoc.Proofs.Export.Spans
import RichDoc.Proofs.Range.Divided

/-!
# Parts of a range next to each other

A range is cut where its container would cross that of a higher mark, and
then the higher container is around one side of the cut and not around the
other. So it is in the tree as long as the higher range goes on behind the
part that it shares with the lower one. It may be cut itself though, at the
end of that part. Then its piece has the extent of the part, and of two
containers with one extent the lower one is around the higher. If nothing
else parts the two sides of the first cut, their containers follow each
other under the same parent, and the cut was for nothing.

This is the only way in which it comes to that (`followedBy_inlinesOf`). The
argument is about positions: neighbours have their leaves one behind the
other and the same containers around them (`FollowedBy.exists_spans`), and two
parts that meet are neighbours if they have (`followedBy_of_around`).
-/

namespace RichDoc

open Pandoc (Inline)

/-- Somewhere in the forest the first container is immediately followed by the second one. -/
inductive FollowedBy (a b : Opening) : List Nesting → Prop where
  | here {content content' rest} :
      FollowedBy a b (.container a content :: .container b content' :: rest)
  | within {opening content rest} (inner : FollowedBy a b content) :
      FollowedBy a b (.container opening content :: rest)
  | behind {nesting rest} (later : FollowedBy a b rest) : FollowedBy a b (nesting :: rest)

/-- The container of the range is around that of the part: it is opened before that, and holds its
start. -/
def Around (order : Nat → Nat → Ordering) (range part : MarkRange) : Prop :=
  openingOrder order range part = .lt ∧ range.Holds part.start

instance (order : Nat → Nat → Ordering) (range part : MarkRange) :
    Decidable (Around order range part) := by
  unfold Around; infer_instance

/-- The containers of the forest are opened in order, and have the leaves at the positions that
their ranges hold. -/
structure Arranged (order : Nat → Nat → Ordering) (position : Nat) (forest : List Nesting) :
    Prop where
  full : FullIn forest
  fits : ∀ span ∈ spansIn position forest, span.Fits
  irrefl : ∀ opening ∈ openingsIn forest, openingOrder order opening.range opening.range ≠ .lt
  sorted : (openingsIn forest).Pairwise fun outer inner =>
    openingOrder order inner.range outer.range ≠ .lt
  strict : (openingsIn forest).Pairwise fun outer inner =>
    inner.range.start < inner.range.stop → openingOrder order outer.range inner.range = .lt

variable {order : Nat → Nat → Ordering} {position : Nat} {a b opening : Opening}
  {nesting : Nesting} {forest rest content : List Nesting}

/-! ## Places of containers -/

theorem Span.Fits.place {span : Span} (h : span.Fits) (hpos : 0 < span.size) :
    span.opening.range.start = span.position ∧
      (span.opening.range.stop = span.position + span.size ∨
        span.opening.range.stop ≤ span.position ∧ span.size = 1) := by
  have hstart := (h span.opening.range.start).mp ⟨Nat.le_refl _, .inr rfl⟩
  have hfirst := (h span.position).mpr ⟨Nat.le_refl _, by omega⟩
  have hlast := (h (span.position + span.size - 1)).mpr (by omega)
  have hbehind := mt (h (span.position + span.size)).mp (by omega)
  unfold MarkRange.Holds at *
  omega

theorem MarkRange.not_holds_behind {range : MarkRange} {x : Nat} (hs : range.start < x)
    (he : range.stop ≤ x) : ¬ range.Holds x := by
  unfold Holds
  omega

theorem mem_openingsIn_container :
    a ∈ openingsIn (.container opening content :: rest) ↔
      a = opening ∨ a ∈ openingsIn content ∨ a ∈ openingsIn rest := by
  rw [openingsIn, Nesting.openings, List.cons_append, List.mem_cons, List.mem_append]

theorem FollowedBy.mem (h : FollowedBy a b forest) :
    a ∈ openingsIn forest ∧ b ∈ openingsIn forest := by
  induction h with
  | here => exact ⟨List.mem_cons_self .., List.mem_append_right _ (List.mem_cons_self ..)⟩
  | within _ ih =>
      exact ⟨mem_openingsIn_container.mpr (.inr (.inl ih.1)),
        mem_openingsIn_container.mpr (.inr (.inl ih.2))⟩
  | behind _ ih => exact ⟨List.mem_append_right _ ih.1, List.mem_append_right _ ih.2⟩

namespace Arranged

theorem inner (h : Arranged order position (.container opening content :: rest)) :
    Arranged order position content := by
  obtain ⟨hfull, hfits, hirrefl, hsorted, hstrict⟩ := h
  refine ⟨hfull.1.2, fun span hs => hfits span ?_, fun other ho => hirrefl other ?_, ?_, ?_⟩
  · exact List.mem_append_left _ (List.mem_cons_of_mem _ hs)
  · exact mem_openingsIn_container.mpr (.inr (.inl ho))
  · exact (List.pairwise_cons.mp (List.pairwise_append.mp hsorted).1).2
  · exact (List.pairwise_cons.mp (List.pairwise_append.mp hstrict).1).2

theorem behind (h : Arranged order position (nesting :: rest)) :
    Arranged order (position + nesting.size) rest := by
  obtain ⟨hfull, hfits, hirrefl, hsorted, hstrict⟩ := h
  refine ⟨hfull.2, fun span hs => hfits span ?_, fun other ho => hirrefl other ?_, ?_, ?_⟩
  · exact List.mem_append_right _ hs
  · exact List.mem_append_right _ ho
  · exact (List.pairwise_append.mp hsorted).2.1
  · exact (List.pairwise_append.mp hstrict).2.1

/-- A container has its leaves among those of the forest, where its range is. -/
theorem place (h : Arranged order position forest) {span : Span}
    (hs : span ∈ spansIn position forest) :
    position ≤ span.position ∧ 0 < span.size ∧
      span.position + span.size ≤ position + sizeIn forest ∧
      span.opening.range.start = span.position ∧
      (span.opening.range.stop = span.position + span.size ∨
        span.opening.range.stop ≤ span.position ∧ span.size = 1) := by
  have hpos := size_pos_of_mem_spansIn forest position h.full span hs
  obtain ⟨hle, hend⟩ := place_of_mem_spansIn forest position span hs
  exact ⟨hle, hpos, hend, (h.fits span hs).place hpos⟩

theorem bounds (h : Arranged order position forest) (ha : a ∈ openingsIn forest) :
    position ≤ a.range.start ∧ a.range.start < position + sizeIn forest ∧
      a.range.stop ≤ position + sizeIn forest := by
  rw [← map_opening_spansIn forest position] at ha
  obtain ⟨span, hs, rfl⟩ := List.mem_map.mp ha
  have hplace := h.place hs
  omega

/-- The first container has its leaves from the start on. -/
theorem first_fits (h : Arranged order position (.container opening content :: rest)) :
    Span.Fits ⟨opening, position, sizeIn content⟩ ∧ 0 < sizeIn content :=
  ⟨h.fits _ (List.mem_cons_self ..), sizeIn_pos content h.full.1.1 h.full.1.2⟩

/-- The first container is opened before any other. -/
theorem first_sorted (h : Arranged order position (.container opening content :: rest))
    (ha : a ∈ openingsIn content ∨ a ∈ openingsIn rest) :
    openingOrder order a.range opening.range ≠ .lt :=
  (List.pairwise_cons.mp h.sorted).1 a (List.mem_append.mpr ha)

/-- The containers of the first nesting end before those behind it start. -/
theorem first_bounds (h : Arranged order position (nesting :: rest)) (ha : a ∈ nesting.openings) :
    a.range.start < position + nesting.size ∧ a.range.stop ≤ position + nesting.size := by
  rw [← nesting.map_opening_spans position] at ha
  obtain ⟨span, hs, rfl⟩ := List.mem_map.mp ha
  have hpos := nesting.size_pos_of_mem_spans position h.full.1 span hs
  have hplace := nesting.place_of_mem_spans position span hs
  have hfits := (h.fits span (List.mem_append_left _ hs)).place hpos
  omega

/-- The first container is around each part in it that is not empty. -/
theorem first_around (h : Arranged order position (.container opening content :: rest))
    (ha : a ∈ openingsIn content) (hne : a.range.start < a.range.stop) :
    Around order opening.range a.range := by
  obtain ⟨hle, hlt, -⟩ := h.inner.bounds ha
  exact ⟨(List.pairwise_cons.mp h.strict).1 a (List.mem_append_left _ ha) hne,
    (h.first_fits.1 _).mpr ⟨hle, hlt⟩⟩

end Arranged

/-! ## From neighbours to ranges -/

theorem openingOrder_eq_lt_of_larger {range part : MarkRange}
    (h : range.start < part.start ∨ range.start = part.start ∧ part.stop < range.stop) :
    openingOrder order range part = .lt := by
  rw [openingOrder, Ordering.then_eq_lt, Ordering.then_eq_lt, Nat.compare_eq_lt,
    Nat.compare_eq_eq, Nat.compare_eq_lt]
  exact h.imp_right fun hlonger => ⟨hlonger.1, .inl hlonger.2⟩

/-- The leaves of neighbours stand one behind the other, and the same containers are around
them. -/
theorem FollowedBy.exists_spans (h : FollowedBy a b forest)
    (harr : Arranged order position forest) :
    ∃ first ∈ spansIn position forest, ∃ second ∈ spansIn position forest,
      first.opening = a ∧ second.opening = b ∧ second.position = first.position + first.size ∧
      ∀ other ∈ openingsIn forest,
        Around order other.range a.range ↔ Around order other.range b.range := by
  induction h generalizing position with
  | @here content content' rest =>
      have hnext : Arranged order (position + sizeIn content) (.container b content' :: rest) :=
        harr.behind
      have hstart := (hnext.first_fits.1.place hnext.first_fits.2).1
      dsimp only at hstart
      refine ⟨⟨a, position, sizeIn content⟩, List.mem_cons_self ..,
        ⟨b, position + sizeIn content, sizeIn content'⟩,
        List.mem_append_right _ (List.mem_cons_self ..), rfl, rfl, rfl, fun other ho => ?_⟩
      -- nothing in this forest is around either of them
      refine iff_of_false (fun haround => ?_) fun haround => ?_
      · rcases mem_openingsIn_container.mp ho with rfl | hother
        · exact harr.irrefl _ ho haround.1
        · exact harr.first_sorted hother haround.1
      · rcases List.mem_append.mp ho with ho | ho
        · have hbounds : other.range.start < position + sizeIn content ∧
              other.range.stop ≤ position + sizeIn content := harr.first_bounds ho
          exact MarkRange.not_holds_behind (by omega) (by omega) haround.2
        · rcases mem_openingsIn_container.mp ho with rfl | hother
          · exact hnext.irrefl _ ho haround.1
          · exact hnext.first_sorted hother haround.1
  | @within opening content rest inner ih =>
      obtain ⟨first, hfirst, second, hsecond, rfl, rfl, hnext, haround⟩ := ih harr.inner
      refine ⟨first, List.mem_append_left _ (List.mem_cons_of_mem _ hfirst), second,
        List.mem_append_left _ (List.mem_cons_of_mem _ hsecond), rfl, rfl, hnext, ?_⟩
      have hplace := harr.inner.place hfirst
      have hplace' := harr.inner.place hsecond
      obtain ⟨hfits, hsize⟩ := harr.first_fits
      have houter := hfits.place hsize
      dsimp only at houter
      intro other ho
      rcases mem_openingsIn_container.mp ho with rfl | ho | ho
      · -- the container around both has more leaves than the first
        refine iff_of_true ⟨openingOrder_eq_lt_of_larger (by omega), (hfits _).mpr ?_⟩
          ⟨openingOrder_eq_lt_of_larger (by omega), (hfits _).mpr ?_⟩
        · dsimp only
          omega
        · dsimp only
          omega
      · exact haround other ho
      · have hbounds : position + sizeIn content ≤ other.range.start := (harr.behind.bounds ho).1
        exact iff_of_false (fun haround => absurd haround.2.1 (by omega))
          fun haround => absurd haround.2.1 (by omega)
  | @behind nesting rest later ih =>
      obtain ⟨first, hfirst, second, hsecond, rfl, rfl, hnext, haround⟩ := ih harr.behind
      refine ⟨first, List.mem_append_right _ hfirst, second, List.mem_append_right _ hsecond,
        rfl, rfl, hnext, fun other ho => ?_⟩
      have hplace := harr.behind.place hfirst
      have hplace' := harr.behind.place hsecond
      rcases List.mem_append.mp ho with ho | ho
      · have hbounds := harr.first_bounds ho
        exact iff_of_false
          (fun haround => MarkRange.not_holds_behind (by omega) (by omega) haround.2)
          fun haround => MarkRange.not_holds_behind (by omega) (by omega) haround.2
      · exact haround other ho

/-! ## From ranges to neighbours -/

section Meet

variable (hne : a.range.start < a.range.stop) (hne' : b.range.start < b.range.stop)
  (htouch : a.range.stop = b.range.start)

include hne hne' htouch

/-- What starts where the first container ends follows it, if nothing else is around it. -/
theorem followedBy_of_touch (h : Arranged order position (.container a content :: rest))
    (hb : b ∈ openingsIn rest)
    (haround : ∀ other ∈ openingsIn (.container a content :: rest),
      Around order other.range b.range → Around order other.range a.range) :
    FollowedBy a b (.container a content :: rest) := by
  obtain ⟨hfits, hpos⟩ := h.first_fits
  obtain ⟨hstart, hstop⟩ := hfits.place hpos
  dsimp only at hstart hstop
  have hrest : Arranged order (position + sizeIn content) rest := h.behind
  cases rest with
  | nil => cases hb
  | cons next behind =>
      cases next with
      | leaf inline =>
          have hlate := (hrest.behind.bounds hb).1
          have hsize : (Nesting.leaf inline).size = 1 := rfl
          omega
      | container opening inner =>
          obtain ⟨hnext, hpos'⟩ := hrest.first_fits
          rcases mem_openingsIn_container.mp hb with rfl | hb | hb
          · exact .here
          · have hback := haround opening
              (mem_openingsIn_container.mpr (.inr (.inr (mem_openingsIn_container.mpr (.inl rfl)))))
              (hrest.first_around hb hne')
            have hearly := (hnext.place hpos').1
            have := hback.2.1
            dsimp only at hearly
            omega
          · have hlate := (hrest.behind.bounds hb).1
            have hsize : (Nesting.container opening inner).size = sizeIn inner := rfl
            omega

/-- Two parts that meet and have the same containers around them are neighbours. -/
theorem followedBy_of_around : ∀ (forest : List Nesting) (position : Nat),
    Arranged order position forest → a ∈ openingsIn forest → b ∈ openingsIn forest →
    (∀ other ∈ openingsIn forest,
      Around order other.range a.range ↔ Around order other.range b.range) →
    FollowedBy a b forest
  | [], _, _, ha, _, _ => nomatch ha
  | .leaf _ :: rest, position, h, ha, hb, haround =>
      .behind (followedBy_of_around rest _ h.behind ha hb haround)
  | .container opening content :: rest, position, h, ha, hb, haround => by
      obtain ⟨hfits, hpos⟩ := h.first_fits
      have hplace := hfits.place hpos
      have hrest : Arranged order (position + sizeIn content) rest := h.behind
      dsimp only at hplace
      rw [mem_openingsIn_container] at ha hb
      rcases ha with rfl | ha | ha
      · rcases hb with rfl | hb | hb
        · omega
        · have := h.inner.bounds hb
          omega
        · exact followedBy_of_touch hne hne' htouch h hb fun other ho => (haround other ho).mpr
      · have hina := h.inner.bounds ha
        rcases hb with rfl | hb | hb
        · omega
        · exact .within (followedBy_of_around content position h.inner ha hb fun other ho =>
            haround other (mem_openingsIn_container.mpr (.inr (.inl ho))))
        · -- the container around the one part would have to be around the other
          have hback := (haround opening (mem_openingsIn_container.mpr (.inl rfl))).mp
            (h.first_around ha hne)
          have hwithin := (hfits _).mp hback.2
          have := hrest.bounds hb
          dsimp only at hwithin
          omega
      · have hina := hrest.bounds ha
        rcases hb with rfl | hb | hb
        · omega
        · have := h.inner.bounds hb
          omega
        · exact .behind (followedBy_of_around rest _ h.behind ha hb fun other ho =>
            haround other (mem_openingsIn_container.mpr (.inr (.inr ho))))

end Meet

/-! ## Pieces that are arranged -/

section Pieces

variable {size : Nat} {pieces : List MarkRange} (hlinear : LinearBelow order size)
  (hsize : ∀ piece ∈ pieces, piece.mark < size)

include hlinear hsize

/-- Untangled ranges are in the order of opening, also where they have the same extent. -/
theorem pairwise_openingOrder_untangle {ranges : List MarkRange}
    (h : untangle order ranges = .ok pieces) :
    pieces.Pairwise fun a b => openingOrder order a b ≠ .gt := by
  obtain ⟨final, -, -, rfl⟩ := turns_of_untangle h
  exact pairwise_openingOrder_sortForOpening hlinear fun piece hp =>
    hsize piece ((perm_sortForOpening order final.pieces).mem_iff.mpr hp)

/-- Untangled ranges of which the containers have leaves where their ranges hold positions. -/
theorem arranged_of_sorted (hsorted : pieces.Pairwise fun a b => openingOrder order a b ≠ .gt)
    (hd : Disjointed pieces) (hfull : FullIn forest)
    (hfits : ∀ span ∈ spansIn position forest, span.Fits)
    (hranges : (openingsIn forest).map Opening.range = pieces) :
    Arranged order position forest := by
  have hmark {opening : Opening} (ho : opening ∈ openingsIn forest) :
      opening.range.mark < size :=
    hsize _ (hranges ▸ List.mem_map_of_mem ho)
  have hboth : (openingsIn forest).Pairwise fun outer inner =>
      openingOrder order outer.range inner.range ≠ .gt ∧
        (outer.range.mark = inner.range.mark → outer.range.start < outer.range.stop →
          inner.range.start < inner.range.stop → outer.range.Apart inner.range) := by
    rw [← hranges] at hsorted hd
    exact List.pairwise_map.mp (hsorted.and hd.pairwise)
  refine ⟨hfull, hfits, fun opening ho => ?_, ?_, ?_⟩
  · have := hmark ho
    exact openingOrder_ne_lt_of_ne_gt hlinear this this
      ((openingOrder_ne_gt hlinear this this).mpr
        (.inr ⟨rfl, .inr ⟨rfl, hlinear.irrefl this⟩⟩))
  · exact hboth.imp_of_mem fun ho hi h =>
      openingOrder_ne_lt_of_ne_gt hlinear (hmark ho) (hmark hi) h.1
  · refine hboth.imp_of_mem fun {outer inner} ho hi h hne => ?_
    obtain ⟨hle, hapart⟩ := h
    rw [openingOrder_ne_gt hlinear (hmark ho) (hmark hi)] at hle
    rw [openingOrder_eq_lt hlinear (hmark ho) (hmark hi)]
    -- two ranges of one mark with the same extent would have positions in common
    have hlower (hstart : outer.range.start = inner.range.start)
        (hstop : inner.range.stop = outer.range.stop)
        (hgt : order outer.range.mark inner.range.mark ≠ .gt) :
        order outer.range.mark inner.range.mark = .lt := by
      refine hlinear.lt_of_ne (hmark ho) (hmark hi) (fun heq => ?_) hgt
      have := hapart heq (by omega) hne
      unfold MarkRange.Apart at this
      omega
    grind

end Pieces

/-! ## Neighbours that are parts of one range -/

section Same

variable {size : Nat} {pieces : List MarkRange} (hd : Disjointed pieces)
  (hranges : (openingsIn forest).map Opening.range = pieces)

include hranges

/-- What an empty piece marks is marked by a piece that starts with it. -/
theorem exists_opening_of_empty (hu : Unpierced pieces)
    (hmarked : ∀ piece ∈ pieces, Marked pieces piece.mark piece.start)
    (ho : opening ∈ openingsIn forest) (hempty : opening.range.stop ≤ opening.range.start) :
    ∃ cover ∈ openingsIn forest, cover.range.mark = opening.range.mark ∧
      cover.range.start = opening.range.start ∧ opening.range.start < cover.range.stop := by
  have hmem : opening.range ∈ pieces := hranges ▸ List.mem_map_of_mem ho
  obtain ⟨cover, hcover, hmark, hle, hlt⟩ := hmarked _ hmem
  have hstart : cover.start = opening.range.start := by
    have := hu _ hmem hempty cover hcover hmark
    omega
  rw [← hranges, List.mem_map] at hcover
  obtain ⟨other, ho', rfl⟩ := hcover
  exact ⟨other, ho', hmark, hstart, hlt⟩

include hd

/-- Neighbours that were cut from one range meet. -/
theorem FollowedBy.meet (h : FollowedBy a b forest) (harr : Arranged order position forest)
    (hu : Unpierced pieces) (hmarked : ∀ piece ∈ pieces, Marked pieces piece.mark piece.start)
    (hmark : a.range.mark = b.range.mark) (horigin : a.range.origin = b.range.origin) :
    Meet a.range b.range := by
  obtain ⟨ha, hb⟩ := h.mem
  obtain ⟨first, hfirst, second, hsecond, rfl, rfl, hnext, haround⟩ := h.exists_spans harr
  have hplace := harr.place hfirst
  have hplace' := harr.place hsecond
  have hmem {opening : Opening} (ho : opening ∈ openingsIn forest) : opening.range ∈ pieces :=
    hranges ▸ List.mem_map_of_mem ho
  have hfull' : second.opening.range.start < second.opening.range.stop := by
    by_contra hempty
    obtain ⟨cover, hcover, -, hstart, hstop⟩ :=
      exists_opening_of_empty hranges hu hmarked hb (Nat.not_lt.mp hempty)
    -- it would be around the first one too, but starts behind that
    have hback := (haround cover hcover).mpr
      ⟨openingOrder_eq_lt_of_larger (by omega), by unfold MarkRange.Holds; omega⟩
    have := hback.2.1
    omega
  have hfull : first.opening.range.start < first.opening.range.stop := by
    by_contra hempty
    obtain ⟨cover, hcover, hsame, hstart, hstop⟩ :=
      exists_opening_of_empty hranges hu hmarked ha (Nat.not_lt.mp hempty)
    -- it would be around the second one too, and have a position in common with it
    have hon := (haround cover hcover).mp
      ⟨openingOrder_eq_lt_of_larger (by omega), by unfold MarkRange.Holds; omega⟩
    have hholds := hon.2
    unfold MarkRange.Holds at hholds
    have hapart := hd.apart_of_ne (hmem hcover) (hmem hb)
      (fun heq => by have := congrArg MarkRange.start heq; omega) (hsame.trans hmark)
      (by omega) hfull'
    unfold MarkRange.Apart at hapart
    omega
  exact ⟨hmark, horigin, hfull, hfull', by omega⟩

omit hd in
/-- What divides neighbours has just the extent of one of them. -/
theorem FollowedBy.extent (h : FollowedBy a b forest) (harr : Arranged order position forest)
    (hmeet : Meet a.range b.range) {piece : MarkRange} (hp : piece ∈ pieces)
    (hdivides : Divides order piece a.range b.range) :
    (piece.start = a.range.start ∧ piece.stop = a.range.stop) ∨
      (piece.start = b.range.start ∧ piece.stop = b.range.stop) := by
  obtain ⟨-, -, -, -, -, -, -, haround⟩ := h.exists_spans harr
  obtain ⟨-, -, hne, hne', htouch⟩ := hmeet
  rw [← hranges, List.mem_map] at hp
  obtain ⟨other, ho, rfl⟩ := hp
  rcases hdivides.2 with ⟨hstop, hstart⟩ | ⟨hstart, hstop⟩
  · refine .inl ⟨Nat.le_antisymm hstart (Nat.not_lt.mp fun hlt => ?_), hstop⟩
    -- if it started earlier it would be around the first part only
    have hon := (haround other ho).mp
      ⟨openingOrder_eq_lt_of_larger (.inl hlt), by unfold MarkRange.Holds; omega⟩
    have := hon.2
    unfold MarkRange.Holds at this
    omega
  · refine .inr ⟨hstart, Nat.le_antisymm (Nat.not_lt.mp fun hlt => ?_) hstop⟩
    have hback := (haround other ho).mpr
      ⟨openingOrder_eq_lt_of_larger (.inr ⟨hstart, hlt⟩), by unfold MarkRange.Holds; omega⟩
    have := hback.2.1
    omega

omit hd in
/-- Parts that meet are neighbours just if the same pieces are around them. -/
theorem followedBy_iff_around (harr : Arranged order position forest) (ha : a ∈ openingsIn forest)
    (hb : b ∈ openingsIn forest) (hmeet : Meet a.range b.range) :
    FollowedBy a b forest ↔
      ∀ piece ∈ pieces, Around order piece a.range ↔ Around order piece b.range := by
  rw [← hranges, List.forall_mem_map]
  constructor
  · intro h
    obtain ⟨-, -, -, -, -, -, -, haround⟩ := h.exists_spans harr
    exact haround
  · exact followedBy_of_around hmeet.first hmeet.second hmeet.touch forest position harr ha hb

end Same

namespace Export

variable {written : List Inline} {environment : Environment} {after : Progress}

/-- The tree of inlines that were converted is arranged, and the collected ranges are as untangling
wants them. -/
theorem exists_arranged_of_inlinesOf (rank : Entry → Nat)
    (hpriority : environment.priority = .ofRank rank) {known : List Mark} {citations : Nat}
    {path : List String} {nodes : List Node}
    (h : (inlinesOf nodes).runFrom environment ⟨.ofMarks known, citations, path⟩ =
      (.ok written, after)) :
    ∃ (chunks : List Chunk) (ranges pieces : List MarkRange) (collected : Progress)
      (forest : List Nesting),
      (collectOf nodes).runFrom environment ⟨.ofMarks known, citations, path⟩ =
        (.ok (chunks, ranges), collected) ∧
      untangle (collected.registry.compare (.ofRank rank)) ranges = .ok pieces ∧
      written = inlinesIn forest ∧ (openingsIn forest).map Opening.range = pieces ∧
      (∀ opening ∈ openingsIn forest,
        opening.container = collected.registry.containerAt opening.range.mark) ∧
      LinearBelow (collected.registry.compare (.ofRank rank)) collected.registry.size ∧
      (∀ range ∈ ranges, range.mark < collected.registry.size) ∧
      (∀ range ∈ ranges, range.start < range.stop) ∧
      (ranges.map MarkRange.origin).Nodup ∧ Disjointed ranges ∧
      Arranged (collected.registry.compare (.ofRank rank)) 0 forest := by
  obtain ⟨contributions, collected, pieces, forest, leaves, hcollect, hcontributes, hpieces,
    hgives, hwritten, hplaced, hranges, hcontained, hfull⟩ := exists_forest_of_inlinesOf h
  rw [hpriority] at hpieces
  have hnodup := hcontributes.nodup
  have hne := nonempty_of_mem_collectRanges hnodup
  have hd := disjointed_collectRanges hnodup
  have ho : ((collectRanges contributions).map MarkRange.origin).Nodup := by
    rw [(parted_collectRanges hnodup).1]
    exact List.nodup_range
  have hsound : collected.registry.Sound := by
    obtain ⟨marks, hregistry⟩ := ((steady_collect _).leads hcollect).registered
    rw [hregistry]
    exact (Registry.sound_ofMarks known).register marks
  have hlinear := hsound.linearBelow_ofRank rank
  have hsize : ∀ range ∈ collectRanges contributions, range.mark < collected.registry.size :=
    fun range hr => by
      obtain ⟨mark, hindex⟩ := exists_index?_of_mem_collectRanges hcontributes hnodup hr
      exact (Array.findIdx?_eq_some_iff_getElem.mp hindex).1
  have hfits : ∀ span ∈ spansIn 0 forest, span.Fits := by
    refine fits_of_placed hplaced fun opening hopening => ?_
    obtain ⟨range, hr, hpiece⟩ :=
      cutFrom_untangle hne hpieces opening.range (hranges ▸ List.mem_map_of_mem hopening)
    have hstop := stop_le_of_mem_collectRanges hnodup range hr
    rw [hgives.length_eq] at hstop
    exact ⟨Nat.lt_of_lt_of_le hpiece.inside hstop, Nat.le_trans hpiece.right hstop⟩
  have hpieceSize := mark_lt_untangle hne hpieces hsize
  exact ⟨_, _, pieces, collected, forest, hcollect, hpieces, hwritten, hranges, hcontained, hlinear,
    hsize, hne, ho, hd, arranged_of_sorted hlinear hpieceSize
      (pairwise_openingOrder_untangle hlinear hpieceSize hpieces)
      (disjointed_untangle hne hpieces hd) hfull hfits hranges⟩

/-- **When parts of a range stand next to each other.** If nodes convert under a priority by rank,
the inlines are what is left of a tree with a container for each of the untangled pieces. Where a
container is immediately followed by one that was cut from the same range, the two parts meet, and
there is a piece of a higher mark that has just the extent of one of them. Where two parts of a
range meet, some piece of a higher mark holds the whole of one of them and nothing of the other,
and their containers follow each other if and only if every piece is around both of them or
neither. -/
theorem followedBy_inlinesOf (settings : Settings) (rank : Entry → Nat) (known : List Mark)
    (citations : Nat) (path : List String) (nodes : List Node)
    (h : (inlinesOf nodes).runFrom ⟨settings, .ofRank rank⟩ ⟨.ofMarks known, citations, path⟩ =
      (.ok written, after)) :
    ∃ (chunks : List Chunk) (ranges pieces : List MarkRange) (collected : Progress)
      (forest : List Nesting),
      (collectOf nodes).runFrom ⟨settings, .ofRank rank⟩ ⟨.ofMarks known, citations, path⟩ =
        (.ok (chunks, ranges), collected) ∧
      untangle (collected.registry.compare (.ofRank rank)) ranges = .ok pieces ∧
      written = inlinesIn forest ∧ (openingsIn forest).map Opening.range = pieces ∧
      (∀ opening ∈ openingsIn forest,
        opening.container = collected.registry.containerAt opening.range.mark) ∧
      (∀ a b, FollowedBy a b forest → a.range.origin = b.range.origin →
        Meet a.range b.range ∧
        ∃ piece ∈ pieces,
          collected.registry.compare (.ofRank rank) piece.mark a.range.mark = .gt ∧
          ((piece.start = a.range.start ∧ piece.stop = a.range.stop) ∨
            (piece.start = b.range.start ∧ piece.stop = b.range.stop))) ∧
      ∀ a ∈ openingsIn forest, ∀ b ∈ openingsIn forest, Meet a.range b.range →
        (∃ piece ∈ pieces,
          Divides (collected.registry.compare (.ofRank rank)) piece a.range b.range) ∧
        (FollowedBy a b forest ↔ ∀ piece ∈ pieces,
          Around (collected.registry.compare (.ofRank rank)) piece a.range ↔
            Around (collected.registry.compare (.ofRank rank)) piece b.range) := by
  obtain ⟨chunks, ranges, pieces, collected, forest, hcollect, hpieces, hwritten, hranges,
    hcontained, hlinear, hsize, hne, ho, hd, harr⟩ := exists_arranged_of_inlinesOf rank rfl h
  have hmem {opening : Opening} (hopening : opening ∈ openingsIn forest) :
      opening.range ∈ pieces := hranges ▸ List.mem_map_of_mem hopening
  have hdivides {a b : MarkRange} (ha : a ∈ pieces) (hb : b ∈ pieces) (hmeet : Meet a b) :=
    exists_divides_untangle hlinear hsize hne ho hd hpieces ha hb hmeet
  refine ⟨chunks, ranges, pieces, collected, forest, hcollect, hpieces, hwritten, hranges,
    hcontained, fun a b hfollowed horigin => ?_, fun a ha b hb hmeet =>
      ⟨hdivides (hmem ha) (hmem hb) hmeet, followedBy_iff_around hranges harr ha hb hmeet⟩⟩
  obtain ⟨ha, hb⟩ := hfollowed.mem
  obtain ⟨source, hsource, hfirst⟩ := cutFrom_untangle hne hpieces a.range (hmem ha)
  obtain ⟨other, hother, hsecond⟩ := cutFrom_untangle hne hpieces b.range (hmem hb)
  obtain rfl : source = other := List.inj_on_of_nodup_map ho hsource hother
    (hfirst.origin.symm.trans (horigin.trans hsecond.origin))
  have hmeet := hfollowed.meet (disjointed_untangle hne hpieces hd) hranges harr
    (unpierced_untangle hne hpieces hlinear hsize hd) (marked_start_untangle hne hpieces)
    (hfirst.mark.trans hsecond.mark.symm) horigin
  obtain ⟨piece, hp, hpiece⟩ := hdivides (hmem ha) (hmem hb) hmeet
  exact ⟨hmeet, piece, hp, hpiece.1, hfollowed.extent hranges harr hmeet hp hpiece⟩

/-- A strong range runs into a link, and the link into a citation. The strong range is cut where the
link starts, and the link where the citation starts, which leaves a piece of it in the second part
of the strong range. So that part just follows the first one. -/
theorem followedBy_inlinesOf_four :
    let nodes : List Node :=
      [{ type := "text", text := some "a", marks := [⟨"strong", []⟩] },
       { type := "text", text := some "b", marks := [⟨"strong", []⟩, ⟨"link", []⟩] },
       { type := "text", text := some "c", marks := [⟨"link", []⟩, ⟨"citation", []⟩] },
       { type := "text", text := some "d", marks := [⟨"citation", []⟩] }]
    let written : List Inline :=
      [.strong [.str "a"], .strong [.link {} [.str "b"] ⟨"", ""⟩],
       .cite [] [.link {} [.str "c"] ⟨"", ""⟩, .str "d"]]
    ∃ (after : Progress) (forest : List Nesting) (a b : Opening),
      (inlinesOf nodes).runFrom {} ⟨.ofMarks [], 0, []⟩ = (.ok written, after) ∧
      written = inlinesIn forest ∧ FollowedBy a b forest ∧
      a.range = ⟨0, 0, 1, 0⟩ ∧ b.range = ⟨0, 1, 2, 0⟩ := by
  intro nodes written
  have hrun : ∃ after, (inlinesOf nodes).runFrom {} ⟨.ofMarks [], 0, []⟩ = (.ok written, after) :=
    ⟨_, by cbv⟩
  obtain ⟨after, hrun⟩ := hrun
  obtain ⟨chunks, ranges, pieces, collected, forest, hcollect, hpieces, hwritten, hranges, -,
    -, hmeet⟩ := followedBy_inlinesOf {} Priority.tierRank [] 0 [] nodes hrun
  have hcollected : collected = ((collectOf nodes).runFrom {} ⟨.ofMarks [], 0, []⟩).2 :=
    (congrArg Prod.snd hcollect).symm
  obtain rfl : ranges = [⟨0, 0, 2, 0⟩, ⟨1, 1, 3, 1⟩, ⟨2, 2, 4, 2⟩] := by
    have hvalue : ((collectOf nodes).runFrom {} ⟨.ofMarks [], 0, []⟩).1.map Prod.snd =
        .ok [⟨0, 0, 2, 0⟩, ⟨1, 1, 3, 1⟩, ⟨2, 2, 4, 2⟩] := by cbv
    exact Except.ok.inj ((congrArg (Except.map Prod.snd ∘ Prod.fst) hcollect).symm.trans hvalue)
  obtain rfl : pieces =
      [⟨0, 0, 1, 0⟩, ⟨0, 1, 2, 0⟩, ⟨1, 1, 2, 1⟩, ⟨2, 2, 4, 2⟩, ⟨1, 2, 3, 1⟩] := by
    rw [hcollected] at hpieces
    exact Except.ok.inj (hpieces.symm.trans (by cbv))
  have hopening {range : MarkRange} (hr : range ∈ (openingsIn forest).map Opening.range) :
      ∃ opening ∈ openingsIn forest, opening.range = range := List.mem_map.mp hr
  obtain ⟨a, ha, hfirst⟩ := @hopening ⟨0, 0, 1, 0⟩ (by rw [hranges]; decide)
  obtain ⟨b, hb, hsecond⟩ := @hopening ⟨0, 1, 2, 0⟩ (by rw [hranges]; decide)
  refine ⟨after, forest, a, b, hrun, hwritten, ?_, hfirst, hsecond⟩
  refine ((hmeet a ha b hb ?_).2).mpr ?_
  · rw [hfirst, hsecond]
    exact ⟨rfl, rfl, by decide, by decide, rfl⟩
  · rw [hfirst, hsecond, hcollected]
    refine of_decide_eq_true ?_
    cbv

end Export

end RichDoc
