import Mathlib.Data.List.Permutation
import RichDoc.Proofs.Range.Laminar

/-!
# What ranges cover, before and after

A turn does little to the ranges of a sweep taken together, whether they
wait in the queue, are open or are closed: it leaves them alone, or cuts
one of them in two, or takes from one what another range of its mark
covers already (`Recut`). A cut moves no mark at any position, so the
coverage of the pieces is that of the collected ranges. Where ranges of
one mark have nothing in common to begin with, the third case never
comes up, and the pieces of each range make up exactly that range.
-/

namespace RichDoc

/-! ## Coverage -/

/-- Some range puts the mark on the position. -/
def Marked (ranges : List MarkRange) (mark position : Nat) : Prop :=
  ∃ range ∈ ranges, range.mark = mark ∧ range.Covers position

/-- How many ranges cover the position, among those whose mark and origin are asked for. -/
def coverings (asked : Nat → Nat → Bool) (position : Nat) (ranges : List MarkRange) : Nat :=
  ranges.countP fun range => asked range.mark range.origin && decide (range.Covers position)

/-- Asks for a mark, whatever the origin is. -/
def ofMark (mark : Nat) : Nat → Nat → Bool := fun m _ => m == mark

/-- Asks for an origin, whatever the mark is. -/
def ofOrigin (origin : Nat) : Nat → Nat → Bool := fun _ o => o == origin

section Coverings

variable {asked : Nat → Nat → Bool} {position mark origin : Nat} {range : MarkRange}
  {l l' : List MarkRange}

theorem coverings_cons (asked : Nat → Nat → Bool) (position : Nat) (range : MarkRange)
    (l : List MarkRange) :
    coverings asked position (range :: l) =
      coverings asked position [range] + coverings asked position l :=
  @List.countP_append _ _ [range] l

theorem coverings_perm (h : l.Perm l') : coverings asked position l = coverings asked position l' :=
  h.countP_eq _

/-- A range that is cut covers what it covered, once. -/
theorem coverings_cut {x : Nat} (hs : range.start ≤ x) (he : x ≤ range.stop) :
    coverings asked position [{ range with stop := x }] +
      coverings asked position [{ range with start := x }] =
        coverings asked position [range] := by
  simp only [coverings, List.countP_singleton, MarkRange.Covers, Bool.and_eq_true]
  by_cases ha : asked range.mark range.origin = true
  · by_cases hx : position < x
    · have h1 : ¬ x ≤ position := by omega
      have h2 : position < range.stop := by omega
      simp [ha, hx, h1, h2]
    · have h1 : x ≤ position := by omega
      have h2 : range.start ≤ position := by omega
      simp [ha, hx, h1, h2]
  · simp [ha]

theorem coverings_pos_iff :
    0 < coverings asked position l ↔
      ∃ range ∈ l, asked range.mark range.origin = true ∧ range.Covers position := by
  simp [coverings, List.countP_pos_iff]

theorem marked_iff_coverings_pos :
    Marked l mark position ↔ 0 < coverings (ofMark mark) position l := by
  simp [Marked, coverings_pos_iff, ofMark]

end Coverings

/-! ## Recutting -/

/-- The range is a part of another that starts inside it, and may be empty. -/
structure MarkRange.CutFrom (part range : MarkRange) : Prop where
  mark : part.mark = range.mark
  origin : part.origin = range.origin
  left : range.start ≤ part.start
  inside : part.start < range.stop
  right : part.stop ≤ range.stop

theorem MarkRange.CutFrom.refl {range : MarkRange} (h : range.start < range.stop) :
    range.CutFrom range :=
  ⟨rfl, rfl, Nat.le_refl _, h, Nat.le_refl _⟩

/-- What a turn does to the ranges as a whole, up to their order. -/
inductive Recut : List MarkRange → List MarkRange → Prop where
  /-- The ranges stay as they are. -/
  | keep {l l'} (perm : l.Perm l') : Recut l l'
  /-- A range is cut in two, the first of which may be empty. -/
  | cut {l l' range x} (rest : List MarkRange) (left : range.start ≤ x) (right : x < range.stop)
      (before : l.Perm (range :: rest))
      (after : l'.Perm ({ range with stop := x } :: { range with start := x } :: rest)) :
      Recut l l'
  /-- A range loses its beginning, which another range of its mark covers. -/
  | trim {l l' range top} (rest : List MarkRange) (mem : top ∈ rest) (same : top.mark = range.mark)
      (start : top.start ≤ range.start) (inside : range.start < top.stop)
      (outlives : top.stop < range.stop) (before : l.Perm (range :: rest))
      (after : l'.Perm ({ range with start := top.stop } :: rest)) : Recut l l'

/-- No position carries a mark twice. -/
def Disjointed (ranges : List MarkRange) : Prop :=
  ∀ mark position, coverings (ofMark mark) position ranges ≤ 1

/-- Where nothing is in common, no range starts inside another one of its mark. -/
theorem Disjointed.not_inside {l rest : List MarkRange} {range top : MarkRange}
    (hd : Disjointed l) (hl : l.Perm (range :: rest)) (hne : range.start < range.stop)
    (mem : top ∈ rest) (same : top.mark = range.mark) (start : top.start ≤ range.start) :
    ¬ range.start < top.stop := by
  intro inside
  -- both ranges cover the start of the one inside
  have hone := hd range.mark range.start
  rw [coverings_perm hl, coverings_cons] at hone
  have hrange : 0 < coverings (ofMark range.mark) range.start [range] :=
    coverings_pos_iff.mpr ⟨range, List.mem_singleton_self _, by simp [ofMark], Nat.le_refl _, hne⟩
  have htop : 0 < coverings (ofMark range.mark) range.start rest :=
    coverings_pos_iff.mpr ⟨top, mem, by simp [ofMark, same], start, inside⟩
  omega

namespace Recut

variable {l l' : List MarkRange}

/-- What was cut from some ranges still is when it has been cut again. -/
theorem cutFrom {sources : List MarkRange} (h : Recut l l')
    (hl : ∀ part ∈ l, ∃ range ∈ sources, part.CutFrom range) :
    ∀ part ∈ l', ∃ range ∈ sources, part.CutFrom range := by
  intro part hp
  cases h with
  | keep perm => exact hl part (perm.mem_iff.mpr hp)
  | @cut range x rest left right before after =>
      obtain ⟨source, hsource, hcut⟩ := hl range (before.mem_iff.mpr (List.mem_cons_self ..))
      obtain ⟨hmark, horigin, hleft, hinside, hright⟩ := hcut
      rcases List.mem_cons.mp (after.mem_iff.mp hp) with rfl | hp
      · exact ⟨source, hsource, hmark, horigin, hleft, hinside,
          Nat.le_trans (Nat.le_of_lt right) hright⟩
      · rcases List.mem_cons.mp hp with rfl | hp
        · exact ⟨source, hsource, hmark, horigin, Nat.le_trans hleft left,
            Nat.lt_of_lt_of_le right hright, hright⟩
        · exact hl part (before.mem_iff.mpr (List.mem_cons_of_mem _ hp))
  | @trim range top rest mem same start inside outlives before after =>
      obtain ⟨source, hsource, hcut⟩ := hl range (before.mem_iff.mpr (List.mem_cons_self ..))
      obtain ⟨hmark, horigin, hleft, hinside, hright⟩ := hcut
      rcases List.mem_cons.mp (after.mem_iff.mp hp) with rfl | hp
      · exact ⟨source, hsource, hmark, horigin, Nat.le_trans hleft (Nat.le_of_lt inside),
          Nat.lt_of_lt_of_le outlives hright, hright⟩
      · exact hl part (before.mem_iff.mpr (List.mem_cons_of_mem _ hp))

/-- Recutting moves no mark. -/
theorem marked (h : Recut l l') (mark position : Nat) :
    Marked l' mark position ↔ Marked l mark position := by
  rw [marked_iff_coverings_pos, marked_iff_coverings_pos]
  cases h with
  | keep perm => rw [coverings_perm perm]
  | @cut range x rest left right before after =>
      rw [coverings_perm before, coverings_perm after, coverings_cons, coverings_cons _ _ _ rest,
        coverings_cons _ _ range, ← coverings_cut left (Nat.le_of_lt right)]
      omega
  | @trim range top rest mem same start inside outlives before after =>
      rw [coverings_perm before, coverings_perm after, coverings_cons, coverings_cons _ _ range,
        ← coverings_cut (Nat.le_of_lt inside) (Nat.le_of_lt outlives)]
      -- what the range loses, the range on top covers
      have hlost : 0 < coverings (ofMark mark) position [{ range with stop := top.stop }] →
          0 < coverings (ofMark mark) position rest := by
        rw [coverings_pos_iff, coverings_pos_iff]
        rintro ⟨lost, hlost, hmark, hcovers⟩
        obtain rfl := List.mem_singleton.mp hlost
        exact ⟨top, mem, by rw [same]; exact hmark, Nat.le_trans start hcovers.1, hcovers.2⟩
      omega

/-- Of ranges that have nothing in common, nothing is trimmed. -/
theorem coverings_eq (h : Recut l l') (hd : Disjointed l) (asked : Nat → Nat → Bool)
    (position : Nat) : coverings asked position l' = coverings asked position l := by
  cases h with
  | keep perm => rw [coverings_perm perm]
  | @cut range x rest left right before after =>
      rw [coverings_perm before, coverings_perm after, coverings_cons, coverings_cons _ _ _ rest,
        coverings_cons _ _ range, ← coverings_cut left (Nat.le_of_lt right)]
      omega
  | @trim range top rest mem same start inside outlives before after =>
      have hne := Nat.lt_trans inside outlives
      exact absurd inside (hd.not_inside before hne mem same start)

end Recut

namespace Sweep

/-- All ranges of a sweep: those that wait, and the pieces. -/
def ranges (sweep : Sweep) : List MarkRange :=
  sweep.queue ++ (sweep.closed ++ sweep.opened).map Piece.range

variable {order : Nat → Nat → Ordering} {sweep next final : Sweep}

/-! ## Turns recut -/

section Perm

variable (queue : List MarkRange) (range : MarkRange) (top : Piece) (outer closed : List Piece)

theorem perm_opened : (queue ++ (closed ++ top :: outer).map Piece.range).Perm
    (top.range :: (queue ++ (closed ++ outer).map Piece.range)) := by
  rw [List.map_append, List.map_cons, List.map_append, ← List.append_assoc, ← List.append_assoc]
  exact List.perm_middle

theorem perm_closed : (queue ++ (top :: closed ++ outer).map Piece.range).Perm
    (top.range :: (queue ++ (closed ++ outer).map Piece.range)) := by
  rw [List.cons_append, List.map_cons]
  exact List.perm_middle

theorem perm_enqueued (l : List MarkRange) : (enqueue range queue ++ l).Perm
    (range :: (queue ++ l)) :=
  (perm_enqueue range queue).append_right l

/-- An open piece that yields becomes a closed one and one that waits. -/
theorem perm_yielded (back : MarkRange) :
    (range :: enqueue back queue ++ (top :: closed ++ outer).map Piece.range).Perm
      (top.range :: back :: (range :: queue ++ (closed ++ outer).map Piece.range)) := by
  refine (perm_closed _ top outer closed).trans (.cons _ ?_)
  exact ((perm_enqueued queue back _).cons range).trans (.swap back range _)

/-- The next range becomes an open piece and one that waits. -/
theorem perm_shortened (back : MarkRange) :
    (enqueue back queue ++ (closed ++ top :: outer).map Piece.range).Perm
      (top.range :: back :: (queue ++ (closed ++ outer).map Piece.range)) :=
  (perm_opened _ top outer closed).trans (.cons _ (perm_enqueued queue back _))

end Perm

theorem recut_of_turn (turn : Turn order sweep next) (h : sweep.Tidy) :
    Recut sweep.ranges next.ranges := by
  cases turn with
  | @enter range queue opened closed n k fits =>
      exact .keep (perm_opened queue ⟨n, range⟩ opened closed).symm
  | leave ended => exact .keep ((perm_opened ..).trans (perm_closed ..).symm)
  | @trim range queue top outer closed n k outlives same =>
      refine .trim (queue ++ (closed ++ top :: outer).map Piece.range) ?_ same
        (h.reached top (List.mem_cons_self ..) range (List.mem_cons_self ..))
        outlives.1 outlives.2 (.refl _) (perm_enqueued ..)
      exact List.mem_append_right _ (List.mem_map_of_mem (List.mem_append_right _
        (List.mem_cons_self ..)))
  | yield outlives differ lower =>
      exact .cut _ (h.reached _ (List.mem_cons_self ..) _ (List.mem_cons_self ..)) outlives.1
        (perm_opened ..) (perm_yielded ..)
  | shorten outlives differ stays =>
      exact .cut _ (Nat.le_of_lt outlives.1) outlives.2 (.refl _) (perm_shortened ..)

/-! ## Whole sweeps -/

theorem marked_of_turns (turns : Turns order sweep final) (h : sweep.Tidy) (mark position : Nat) :
    Marked final.ranges mark position ↔ Marked sweep.ranges mark position := by
  induction turns with
  | refl => exact .rfl
  | head turn _ ih =>
      exact (ih (h.turn turn)).trans ((recut_of_turn turn h).marked mark position)

theorem cutFrom_of_turns {sources : List MarkRange} (turns : Turns order sweep final)
    (h : sweep.Tidy) (hs : ∀ part ∈ sweep.ranges, ∃ range ∈ sources, part.CutFrom range) :
    ∀ part ∈ final.ranges, ∃ range ∈ sources, part.CutFrom range := by
  induction turns with
  | refl => exact hs
  | head turn _ ih => exact ih (h.turn turn) ((recut_of_turn turn h).cutFrom hs)

theorem coverings_of_turns (turns : Turns order sweep final) (h : sweep.Tidy)
    (hd : Disjointed sweep.ranges) (asked : Nat → Nat → Bool) (position : Nat) :
    coverings asked position final.ranges = coverings asked position sweep.ranges := by
  induction turns with
  | refl => rfl
  | @head sweep next final turn _ ih =>
      have hstep := (recut_of_turn turn h).coverings_eq hd
      have hnext : Disjointed next.ranges := fun mark position =>
        Nat.le_trans (Nat.le_of_eq (hstep (ofMark mark) position)) (hd mark position)
      rw [ih (h.turn turn) hnext, hstep]

theorem perm_ranges_ofRanges (ranges : List MarkRange) : (ofRanges ranges).ranges.Perm ranges := by
  have h : (ofRanges ranges).ranges = (ofRanges ranges).queue := List.append_nil _
  rw [h]
  exact perm_queue_ofRanges ranges

/-- When nothing waits any more, the pieces are all there is. -/
theorem perm_pieces_of_finished (hq : sweep.queue = []) : sweep.pieces.Perm sweep.ranges := by
  rw [ranges, hq, List.nil_append]
  exact perm_pieces sweep

end Sweep

/-! ## The pieces of one range -/

/-- The two ranges have no position in common, one after the other. -/
def MarkRange.Apart (a b : MarkRange) : Prop := a.stop ≤ b.start ∨ b.stop ≤ a.start

instance (a b : MarkRange) : Decidable (a.Apart b) := by
  unfold MarkRange.Apart; infer_instance

/-- The ranges that were cut from one, without those that became empty. -/
def partsOf (origin : Nat) (ranges : List MarkRange) : List MarkRange :=
  ranges.filter fun range => range.origin == origin && decide (range.start < range.stop)

section Parts

variable {l ranges : List MarkRange} {origin : Nat} {range part : MarkRange}

theorem mem_partsOf :
    part ∈ partsOf origin l ↔ part ∈ l ∧ part.origin = origin ∧ part.start < part.stop := by
  simp [partsOf]

/-- Two ranges that are not apart cover the later of their starts. -/
theorem covers_of_not_apart {a b : MarkRange} (ha : a.start < a.stop) (hb : b.start < b.stop)
    (h : ¬ a.Apart b) :
    a.Covers (max a.start b.start) ∧ b.Covers (max a.start b.start) := by
  unfold MarkRange.Apart MarkRange.Covers at *
  omega

theorem pairwise_apart_partsOf
    (h : ∀ position, coverings (ofOrigin origin) position l ≤ 1) :
    (partsOf origin l).Pairwise MarkRange.Apart := by
  induction l with
  | nil => exact .nil
  | cons a rest ih =>
      have hrest : ∀ position, coverings (ofOrigin origin) position rest ≤ 1 := fun position => by
        have := h position
        rw [coverings_cons] at this
        omega
      by_cases ha : a.origin = origin ∧ a.start < a.stop
      · have hcons : partsOf origin (a :: rest) = a :: partsOf origin rest :=
          List.filter_cons_of_pos (by simpa using ha)
        rw [hcons]
        refine List.pairwise_cons.mpr ⟨fun b hb => ?_, ih hrest⟩
        obtain ⟨hmem, horigin, hne⟩ := mem_partsOf.mp hb
        by_contra hapart
        obtain ⟨hca, hcb⟩ := covers_of_not_apart ha.2 hne hapart
        have hone := h (max a.start b.start)
        rw [coverings_cons] at hone
        have h1 : 0 < coverings (ofOrigin origin) (max a.start b.start) [a] :=
          coverings_pos_iff.mpr ⟨a, List.mem_singleton_self a, by simp [ofOrigin, ha.1], hca⟩
        have h2 : 0 < coverings (ofOrigin origin) (max a.start b.start) rest :=
          coverings_pos_iff.mpr ⟨b, hmem, by simp [ofOrigin, horigin], hcb⟩
        omega
      · have hcons : partsOf origin (a :: rest) = partsOf origin rest :=
          List.filter_cons_of_neg (by simpa using ha)
        rw [hcons]
        exact ih hrest

/-- Ranges that are apart where their marks agree cover no position twice with a mark. -/
theorem disjointed_of_pairwise (h : ranges.Pairwise fun a b => a.mark = b.mark → a.Apart b) :
    Disjointed ranges := by
  intro mark position
  induction ranges with
  | nil => exact Nat.zero_le 1
  | cons a rest ih =>
      obtain ⟨ha, hrest⟩ := List.pairwise_cons.mp h
      rw [coverings_cons]
      rcases Nat.eq_zero_or_pos (coverings (ofMark mark) position rest) with hzero | hpos
      · rw [hzero]
        exact List.countP_le_length
      · obtain ⟨b, hb, hmark, hcovers⟩ := coverings_pos_iff.mp hpos
        have hnone : coverings (ofMark mark) position [a] = 0 := by
          by_contra hne
          obtain ⟨a', ha', hmark', hcovers'⟩ := coverings_pos_iff.mp (Nat.pos_of_ne_zero hne)
          obtain rfl := List.mem_singleton.mp ha'
          simp only [ofMark, beq_iff_eq] at hmark hmark'
          have := ha b hb (hmark'.trans hmark.symm)
          unfold MarkRange.Apart MarkRange.Covers at *
          omega
        rw [hnone, Nat.zero_add]
        exact ih hrest

/-- Where origins are distinct, only the range itself covers anything for its origin. -/
theorem coverings_ofOrigin (h : (ranges.map MarkRange.origin).Nodup) (hr : range ∈ ranges)
    (position : Nat) :
    coverings (ofOrigin range.origin) position ranges = if range.Covers position then 1 else 0 := by
  induction ranges with
  | nil => cases hr
  | cons a rest ih =>
      obtain ⟨ha, hrest⟩ := List.nodup_cons.mp h
      rw [coverings_cons]
      rcases List.mem_cons.mp hr with rfl | hr
      · have hnone : coverings (ofOrigin range.origin) position rest = 0 := by
          by_contra hne
          obtain ⟨b, hb, horigin, -⟩ := coverings_pos_iff.mp (Nat.pos_of_ne_zero hne)
          simp only [ofOrigin, beq_iff_eq] at horigin
          exact ha (horigin ▸ List.mem_map_of_mem hb)
        rw [hnone]
        simp [coverings, ofOrigin, List.countP_singleton]
      · have hother : a.origin ≠ range.origin := fun heq =>
          ha (heq ▸ List.mem_map_of_mem hr)
        have hnone : coverings (ofOrigin range.origin) position [a] = 0 := by
          simp [coverings, ofOrigin, hother]
        rw [hnone, Nat.zero_add]
        exact ih hrest hr

end Parts

/-! ## Untangled ranges -/

section Untangled

variable {order : Nat → Nat → Ordering} {ranges out : List MarkRange}

theorem marked_untangle (hne : ∀ range ∈ ranges, range.start < range.stop)
    (h : untangle order ranges = .ok out) (mark position : Nat) :
    Marked out mark position ↔ Marked ranges mark position := by
  obtain ⟨final, turns, hq, rfl⟩ := turns_of_untangle h
  have hout := perm_sortForOpening order final.pieces
  have hsweep := Sweep.marked_of_turns turns (Sweep.tidy_ofRanges hne) mark position
  rw [marked_iff_coverings_pos, marked_iff_coverings_pos] at hsweep ⊢
  rwa [coverings_perm (Sweep.perm_ranges_ofRanges ranges),
    ← coverings_perm (Sweep.perm_pieces_of_finished hq), ← coverings_perm hout] at hsweep

theorem coverings_untangle (hne : ∀ range ∈ ranges, range.start < range.stop)
    (hd : Disjointed ranges) (h : untangle order ranges = .ok out)
    (asked : Nat → Nat → Bool) (position : Nat) :
    coverings asked position out = coverings asked position ranges := by
  obtain ⟨final, turns, hq, rfl⟩ := turns_of_untangle h
  have hout := perm_sortForOpening order final.pieces
  have hinit := Sweep.perm_ranges_ofRanges ranges
  have hd' : Disjointed (Sweep.ofRanges ranges).ranges := fun mark position => by
    rw [coverings_perm hinit]
    exact hd mark position
  rw [coverings_perm hout, coverings_perm (Sweep.perm_pieces_of_finished hq),
    Sweep.coverings_of_turns turns (Sweep.tidy_ofRanges hne) hd', coverings_perm hinit]

theorem laminar_untangle (hne : ∀ range ∈ ranges, range.start < range.stop)
    (h : untangle order ranges = .ok out) : Laminar out := by
  obtain ⟨final, turns, -, rfl⟩ := turns_of_untangle h
  have hout := perm_sortForOpening order final.pieces
  have htidy := Sweep.tidy_ofRanges hne
  exact (Sweep.laminar_pieces (Sweep.tidy_of_turns turns htidy)
    (Sweep.settled_of_turns turns htidy (Sweep.settled_ofRanges ranges))).perm hout.symm

/-- Every untangled range was cut from one of the ranges. -/
theorem cutFrom_untangle (hne : ∀ range ∈ ranges, range.start < range.stop)
    (h : untangle order ranges = .ok out) :
    ∀ part ∈ out, ∃ range ∈ ranges, part.CutFrom range := by
  obtain ⟨final, turns, hq, rfl⟩ := turns_of_untangle h
  have hout := perm_sortForOpening order final.pieces
  have hinit := Sweep.perm_ranges_ofRanges ranges
  have hfinal : ∀ part ∈ final.ranges, ∃ range ∈ ranges, part.CutFrom range :=
    Sweep.cutFrom_of_turns turns (Sweep.tidy_ofRanges hne) fun range hr =>
      ⟨range, hinit.mem_iff.mp hr, .refl (hne range (hinit.mem_iff.mp hr))⟩
  intro part hp
  exact hfinal part ((Sweep.perm_pieces_of_finished hq).mem_iff.mp (hout.mem_iff.mp hp))

theorem pairwise_untangle (h : untangle order ranges = .ok out) : out.Pairwise OpensBefore := by
  obtain ⟨final, -, -, rfl⟩ := turns_of_untangle h
  exact pairwise_sortForOpening order final.pieces

/-- The parts of a range have its mark. -/
theorem mark_of_mem_partsOf_untangle (hne : ∀ range ∈ ranges, range.start < range.stop)
    (ho : (ranges.map MarkRange.origin).Nodup) (h : untangle order ranges = .ok out)
    {range part : MarkRange} (hr : range ∈ ranges) (hp : part ∈ partsOf range.origin out) :
    part.mark = range.mark := by
  obtain ⟨hmem, horigin, -⟩ := mem_partsOf.mp hp
  obtain ⟨source, hsource, hcut⟩ := cutFrom_untangle hne h part hmem
  obtain rfl : source = range :=
    List.inj_on_of_nodup_map ho hsource hr (hcut.origin.symm.trans horigin)
  exact hcut.mark

/-- **Untangled ranges nest and cover what they covered**, whatever the order of marks is: no
two of them cross, and every position has the marks it had. If ranges of one mark have nothing
in common and every range has an origin of its own, the parts of each range have its mark, have
nothing in common, and make up the range. -/
theorem laminar_and_covering_untangle (hne : ∀ range ∈ ranges, range.start < range.stop)
    (h : untangle order ranges = .ok out) :
    Laminar out ∧
      (∀ mark position, Marked out mark position ↔ Marked ranges mark position) ∧
      (ranges.Pairwise (fun a b => a.mark = b.mark → a.Apart b) →
        (ranges.map MarkRange.origin).Nodup →
        ∀ range ∈ ranges,
          (∀ part ∈ partsOf range.origin out, part.mark = range.mark) ∧
          (partsOf range.origin out).Pairwise MarkRange.Apart ∧
          ∀ position,
            (∃ part ∈ partsOf range.origin out, part.Covers position) ↔ range.Covers position) := by
  refine ⟨laminar_untangle hne h, marked_untangle hne h, ?_⟩
  intro hapart ho range hr
  have hd := disjointed_of_pairwise hapart
  have hcount (position : Nat) : coverings (ofOrigin range.origin) position out =
      if range.Covers position then 1 else 0 := by
    rw [coverings_untangle hne hd h, coverings_ofOrigin ho hr]
  refine ⟨?mark, pairwise_apart_partsOf ?apart, ?_⟩
  case mark =>
      intro part hp
      exact mark_of_mem_partsOf_untangle hne ho h hr hp
  case apart =>
      intro position
      rw [hcount]
      split <;> omega
  · intro position
    have hpos := @coverings_pos_iff (ofOrigin range.origin) position out
    rw [hcount] at hpos
    constructor
    · rintro ⟨part, hp, hcovers⟩
      obtain ⟨hmem, horigin, -⟩ := mem_partsOf.mp hp
      by_contra hnot
      have := hpos.mpr ⟨part, hmem, by simp [ofOrigin, horigin], hcovers⟩
      rw [if_neg hnot] at this
      exact Nat.lt_irrefl 0 this
    · intro hcovers
      rw [if_pos hcovers] at hpos
      obtain ⟨part, hmem, horigin, hcovers⟩ := hpos.mp Nat.one_pos
      refine ⟨part, mem_partsOf.mpr ⟨hmem, by simpa [ofOrigin] using horigin, ?_⟩, hcovers⟩
      exact Nat.lt_of_le_of_lt hcovers.1 hcovers.2

/-- The crossing ranges of three marks; the second is cut at its own start and leaves an empty
piece behind. -/
theorem laminar_and_covering_untangle_three :
    let order : Nat → Nat → Ordering := fun a b => compare [2, 0, 1][a]! [2, 0, 1][b]!
    let ranges : List MarkRange := [⟨0, 0, 2, 0⟩, ⟨1, 1, 4, 1⟩, ⟨2, 1, 3, 2⟩]
    let out : List MarkRange :=
      [⟨0, 0, 2, 0⟩, ⟨1, 1, 2, 1⟩, ⟨2, 1, 2, 2⟩, ⟨1, 1, 1, 1⟩, ⟨1, 2, 4, 1⟩, ⟨2, 2, 3, 2⟩]
    untangle order ranges = .ok out ∧ Laminar out ∧
      (∀ mark position, Marked out mark position ↔ Marked ranges mark position) ∧
      ∀ range ∈ ranges,
        (∀ part ∈ partsOf range.origin out, part.mark = range.mark) ∧
        (partsOf range.origin out).Pairwise MarkRange.Apart ∧
        ∀ position,
          (∃ part ∈ partsOf range.origin out, part.Covers position) ↔ range.Covers position := by
  intro order ranges out
  have hrun : untangle order ranges = .ok out := by cbv
  obtain ⟨hlaminar, hmarked, hparts⟩ := laminar_and_covering_untangle (by decide) hrun
  exact ⟨hrun, hlaminar, hmarked, hparts (by decide) (by decide)⟩

end Untangled

end RichDoc
