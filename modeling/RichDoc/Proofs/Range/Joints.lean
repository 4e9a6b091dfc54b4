import Mathlib
import RichDoc.Proofs.Range.Whole

/-!
# Where parts of a range meet

Two parts of a range meet where it was cut, and nowhere else, as ranges of
one mark have nothing in common. A turn that cuts a range in two makes one
new place where parts meet, and what meets anywhere else met there before,
or something did of which it is what is left (`Meet.of_cut`). A cut at the
start of a range leaves an empty part, but no other range of its mark is
around that (`Unpierced`).
-/

namespace RichDoc

/-- Two parts of one range that are not empty, the second of which starts where the first ends. -/
structure Meet (a b : MarkRange) : Prop where
  mark : a.mark = b.mark
  origin : a.origin = b.origin
  first : a.start < a.stop
  second : b.start < b.stop
  touch : a.stop = b.start

/-! ## Ranges that have nothing in common -/

section Disjointed

variable {l l' rest : List MarkRange} {range a b : MarkRange} {x : Nat}

theorem Disjointed.apart (hd : Disjointed l) (hl : l.Perm (a :: rest)) (hb : b ∈ rest)
    (hmark : a.mark = b.mark) (hne : a.start < a.stop) (hne' : b.start < b.stop) : a.Apart b := by
  rcases Nat.le_total b.start a.start with hle | hle
  · exact .inr (Nat.not_lt.mp (hd.not_inside hl hne hb hmark.symm hle))
  · obtain ⟨before, behind, rfl⟩ := List.append_of_mem hb
    have hl' : l.Perm (b :: a :: (before ++ behind)) :=
      hl.trans ((List.perm_middle.cons a).trans (.swap b a _))
    exact .inl (Nat.not_lt.mp (hd.not_inside hl' hne' (List.mem_cons_self ..) hmark hle))

theorem Disjointed.apart_of_ne (hd : Disjointed l) (ha : a ∈ l) (hb : b ∈ l) (hother : a ≠ b)
    (hmark : a.mark = b.mark) (hne : a.start < a.stop) (hne' : b.start < b.stop) : a.Apart b :=
  hd.apart (List.perm_cons_erase ha) ((List.mem_erase_of_ne hother.symm).mpr hb) hmark hne hne'

theorem Disjointed.pairwise (hd : Disjointed l) :
    l.Pairwise fun a b => a.mark = b.mark → a.start < a.stop → b.start < b.stop → a.Apart b := by
  induction l with
  | nil => exact .nil
  | cons range rest ih =>
      refine List.pairwise_cons.mpr ⟨fun other ho hmark hne hne' => ?_, ih fun mark x => ?_⟩
      · exact hd.apart (.refl _) ho hmark hne hne'
      · have := hd mark x
        rw [coverings_cons] at this
        omega

/-- A range that is not empty is there once. -/
theorem Disjointed.not_mem (hd : Disjointed l) (hl : l.Perm (a :: rest))
    (hne : a.start < a.stop) : a ∉ rest := by
  intro ha
  have := hd.apart hl ha rfl hne hne
  unfold MarkRange.Apart at this
  omega

/-- Cutting one range leaves the others. -/
theorem mem_of_cut (before : l.Perm (range :: rest))
    (after : l'.Perm ({ range with stop := x } :: { range with start := x } :: rest))
    (ha : a ∈ l) (hne : a ≠ range) : a ∈ l' := by
  rw [before.mem_iff, List.mem_cons] at ha
  rw [after.mem_iff, List.mem_cons, List.mem_cons]
  exact .inr (.inr (ha.resolve_left hne))

/-- The first of two parts that meet behind the cut, and what it was before. -/
def CutFirst (range : MarkRange) (x : Nat) (rest : List MarkRange) (a' a : MarkRange) : Prop :=
  a = a' ∧ a ∈ rest ∨ a' = range ∧ a = { range with start := x }

/-- The second one. A cut at the start of the range leaves it as it was. -/
def CutSecond (range : MarkRange) (x : Nat) (rest : List MarkRange) (b' b : MarkRange) : Prop :=
  b = b' ∧ b ∈ rest ∨ b' = range ∧ b = { range with stop := x } ∨
    b' = range ∧ b = range ∧ x = range.start

theorem CutFirst.grows {a' : MarkRange} (h : CutFirst range x rest a' a) (left : range.start ≤ x) :
    a.mark = a'.mark ∧ a'.start ≤ a.start ∧ a.stop = a'.stop := by
  rcases h with ⟨rfl, -⟩ | ⟨rfl, rfl⟩
  · exact ⟨rfl, Nat.le_refl _, rfl⟩
  · exact ⟨rfl, left, rfl⟩

theorem CutSecond.grows {b' : MarkRange} (h : CutSecond range x rest b' b)
    (right : x < range.stop) : b.mark = b'.mark ∧ b.start = b'.start ∧ b.stop ≤ b'.stop := by
  rcases h with ⟨rfl, -⟩ | ⟨rfl, rfl⟩ | ⟨rfl, rfl, -⟩
  · exact ⟨rfl, rfl, Nat.le_refl _⟩
  · exact ⟨rfl, rfl, Nat.le_of_lt right⟩
  · exact ⟨rfl, rfl, Nat.le_refl _⟩

/-- Two parts that meet behind a cut are the two sides of it, or they met before it. -/
theorem Meet.of_cut (hd : Disjointed l) (before : l.Perm (range :: rest))
    (after : l'.Perm ({ range with stop := x } :: { range with start := x } :: rest))
    (left : range.start ≤ x) (right : x < range.stop) (ha : a ∈ l') (hb : b ∈ l')
    (h : Meet a b) :
    (a = { range with stop := x } ∧ b = { range with start := x }) ∨
      ∃ a' ∈ l, ∃ b' ∈ l, Meet a' b' ∧ CutFirst range x rest a' a ∧
        CutSecond range x rest b' b := by
  obtain ⟨hmark, horigin, hfirst, hsecond, htouch⟩ := h
  have hne : range.start < range.stop := Nat.lt_of_le_of_lt left right
  have hrange : range ∈ l := before.mem_iff.mpr (List.mem_cons_self ..)
  have hrest {part : MarkRange} (hp : part ∈ rest) : part ∈ l :=
    before.mem_iff.mpr (List.mem_cons_of_mem _ hp)
  rw [after.mem_iff, List.mem_cons, List.mem_cons] at ha hb
  rcases ha with rfl | rfl | ha
  · rcases hb with rfl | rfl | hb
    · exact absurd htouch.symm (Nat.ne_of_lt hfirst)
    · exact .inl ⟨rfl, rfl⟩
    · -- the range that was cut holds the start of the other part
      have hapart := hd.apart before hb hmark hne hsecond
      unfold MarkRange.Apart at hapart
      dsimp only at htouch
      omega
  · rcases hb with rfl | rfl | hb
    · exact absurd htouch.symm (Nat.ne_of_lt hne)
    · exact absurd htouch.symm (Nat.ne_of_lt hfirst)
    · exact .inr ⟨range, hrange, b, hrest hb, ⟨hmark, horigin, hne, hsecond, htouch⟩,
        .inr ⟨rfl, rfl⟩, .inl ⟨rfl, hb⟩⟩
  · rcases hb with rfl | rfl | hb
    · exact .inr ⟨a, hrest ha, range, hrange, ⟨hmark, horigin, hfirst, hne, htouch⟩,
        .inl ⟨rfl, ha⟩, .inr (.inl ⟨rfl, rfl⟩)⟩
    · -- the first part ends where the range was cut, so that is where the range starts
      have hapart := hd.apart before ha hmark.symm hne hfirst
      obtain rfl : x = range.start := by
        unfold MarkRange.Apart at hapart
        dsimp only at htouch
        omega
      exact .inr ⟨a, hrest ha, range, hrange, ⟨hmark, horigin, hfirst, hne, htouch⟩,
        .inl ⟨rfl, ha⟩, .inr (.inr ⟨rfl, rfl, rfl⟩)⟩
    · exact .inr ⟨a, hrest ha, b, hrest hb, ⟨hmark, horigin, hfirst, hsecond, htouch⟩,
        .inl ⟨rfl, ha⟩, .inl ⟨rfl, hb⟩⟩

end Disjointed

/-! ## Empty ranges -/

/-- No empty range stands inside another range of its mark. -/
def Unpierced (l : List MarkRange) : Prop :=
  ∀ part ∈ l, part.stop ≤ part.start → ∀ range ∈ l, range.mark = part.mark →
    ¬ (range.start < part.start ∧ part.start < range.stop)

/-- A cut leaves an empty range only at a start, and nothing else of the mark is around that. -/
theorem Recut.unpierced {l l' : List MarkRange} (h : Recut l l') (hd : Disjointed l)
    (hu : Unpierced l) : Unpierced l' := by
  intro part hp hempty range' hr hmark ⟨hleft, hright⟩
  cases h with
  | keep perm =>
      exact hu part (perm.mem_iff.mpr hp) hempty range' (perm.mem_iff.mpr hr) hmark ⟨hleft, hright⟩
  | @cut range x rest left right before after =>
      have hne : range.start < range.stop := Nat.lt_of_le_of_lt left right
      have hrange : range ∈ l := before.mem_iff.mpr (List.mem_cons_self ..)
      have hrest {other : MarkRange} (ho : other ∈ rest) : other ∈ l :=
        before.mem_iff.mpr (List.mem_cons_of_mem _ ho)
      rw [after.mem_iff, List.mem_cons, List.mem_cons] at hp hr
      rcases hp with rfl | rfl | hp
      · dsimp only at hempty hleft hright hmark
        rcases hr with rfl | rfl | hr
        · exact absurd hleft (Nat.lt_irrefl _)
        · exact absurd hleft (Nat.not_lt.mpr left)
        · have hapart := hd.apart before hr hmark.symm hne (Nat.lt_trans hleft hright)
          unfold MarkRange.Apart at hapart
          omega
      · exact absurd hempty (Nat.not_le.mpr right)
      · rcases hr with rfl | rfl | hr
        · exact hu part (hrest hp) hempty range hrange hmark ⟨hleft, Nat.lt_trans hright right⟩
        · exact hu part (hrest hp) hempty range hrange hmark
            ⟨Nat.lt_of_le_of_lt left hleft, hright⟩
        · exact hu part (hrest hp) hempty range' (hrest hr) hmark ⟨hleft, hright⟩
  | @trim range top rest mem same start inside outlives before after =>
      exact absurd inside (hd.not_inside before (Nat.lt_trans inside outlives) mem same start)

/-! ## What is left of ranges -/

section Untangled

variable {order : Nat → Nat → Ordering} {size : Nat} {ranges out : List MarkRange}
  (hne : ∀ range ∈ ranges, range.start < range.stop) (h : untangle order ranges = .ok out)

include hne h

theorem mark_lt_untangle (hsize : ∀ range ∈ ranges, range.mark < size) :
    ∀ piece ∈ out, piece.mark < size := by
  intro piece hp
  obtain ⟨range, hr, hcut⟩ := cutFrom_untangle hne h piece hp
  rw [hcut.mark]
  exact hsize range hr

theorem disjointed_untangle (hd : Disjointed ranges) : Disjointed out := fun mark position => by
  rw [coverings_untangle hne hd h]
  exact hd mark position

/-- Also where an untangled range is empty its mark is on the position at which it starts. -/
theorem marked_start_untangle : ∀ piece ∈ out, Marked out piece.mark piece.start := by
  intro piece hp
  obtain ⟨range, hr, hcut⟩ := cutFrom_untangle hne h piece hp
  exact (marked_untangle hne h _ _).mpr ⟨range, hr, hcut.mark.symm, hcut.left, hcut.inside⟩

theorem unpierced_untangle (hlinear : LinearBelow order size)
    (hsize : ∀ range ∈ ranges, range.mark < size) (hd : Disjointed ranges) : Unpierced out := by
  obtain ⟨final, hfinal, -, hout⟩ := Sweep.exists_final_of_untangle hlinear hsize hne hd
    (I := fun sweep => Unpierced sweep.ranges)
    (fun turn hs hu => (Sweep.recut_of_turn turn hs.tidy).unpierced hs.disjointed hu)
    (fun part hp hempty =>
      absurd (hne part ((Sweep.perm_ranges_ofRanges ranges).mem_iff.mp hp)) (Nat.not_lt.mpr hempty))
    h
  intro part hp hempty range hr
  exact hfinal part ((hout part).mp hp) hempty range ((hout range).mp hr)

end Untangled

end RichDoc
