import Mathlib
import RichDoc.Proofs.Range.Joints
import RichDoc.Proofs.Range.Opening

/-!
# What stands between two parts of a range

Where a range was cut, two parts of it meet. It was cut for the sake of a
range of a higher mark, and in the end there is still a piece of a higher
mark that holds the whole of one of the parts and nothing of the other
(`Divides`). This need not be the range that made the cut: that may be cut
itself, where the part does not end, if a third one is higher than the two
and a fourth is higher still. So the invariant (`Sweep.Divided`) asks for
some piece that divides the parts, and knows four situations: the piece
holds the first part; it holds the second one, and nothing waits or is open
that could part them before the second one is opened; or one of the parts
is still open around the piece, which has been cut where the next range
starts, and the part is about to be cut there as well (`Sinking`).
-/

namespace RichDoc

/-- The range has a higher mark than the two parts, and holds the whole of one of them and nothing
of the other. -/
def Divides (order : Nat → Nat → Ordering) (range a b : MarkRange) : Prop :=
  order range.mark a.mark = .gt ∧
    (range.stop = a.stop ∧ range.start ≤ a.start ∨ range.start = b.start ∧ b.stop ≤ range.stop)

namespace Sweep

variable {order : Nat → Nat → Ordering} {size : Nat} {ranges : List MarkRange}
  {sweep next final : Sweep} {range part a b : MarkRange} {queue : List MarkRange} {top : Piece}
  {outer closed : List Piece} {n k : Nat}

/-! ## What waits without being in danger -/

/-- Nothing waits that starts before the range, and what is open goes on to its end or further. -/
structure Due (part : MarkRange) (sweep : Sweep) : Prop where
  queued : ∀ r ∈ sweep.queue, part.start ≤ r.start
  opened : ∀ p ∈ sweep.opened, part.stop ≤ p.range.stop

/-- What waits and is due stays so until it is opened. -/
theorem Due.turn (turn : Turn order sweep next) (ht : sweep.Tidy) (h : Due part sweep)
    (hnext : part ∈ next.queue) : Due part next := by
  cases turn with
  | @enter range queue opened closed n k fits =>
      obtain ⟨hrange, hqueue⟩ := List.forall_mem_cons.mp h.queued
      have hbefore := (List.pairwise_cons.mp ht.sorted).1 part hnext
      exact ⟨hqueue, List.forall_mem_cons.mpr ⟨hbefore.stop_le hrange, h.opened⟩⟩
  | leave ended => exact ⟨h.queued, (List.forall_mem_cons.mp h.opened).2⟩
  | @trim range queue top outer closed n k outlives same =>
      obtain ⟨hrange, hqueue⟩ := List.forall_mem_cons.mp h.queued
      exact ⟨forall_mem_enqueue.mpr ⟨Nat.le_trans hrange (Nat.le_of_lt outlives.1), hqueue⟩,
        h.opened⟩
  | @yield range queue top outer closed n k outlives differ lower =>
      obtain ⟨hrange, hqueue⟩ := List.forall_mem_cons.mp h.queued
      exact ⟨List.forall_mem_cons.mpr ⟨hrange, forall_mem_enqueue.mpr ⟨hrange, hqueue⟩⟩,
        (List.forall_mem_cons.mp h.opened).2⟩
  | @shorten range queue top outer closed n k outlives differ stays =>
      obtain ⟨hrange, hqueue⟩ := List.forall_mem_cons.mp h.queued
      exact ⟨forall_mem_enqueue.mpr ⟨Nat.le_trans hrange (Nat.le_of_lt outlives.1), hqueue⟩,
        List.forall_mem_cons.mpr ⟨(List.forall_mem_cons.mp h.opened).1, h.opened⟩⟩

/-- What an open piece leaves to be visited when it yields is due. -/
theorem due_of_yield {closed' : List Piece} {k' : Nat}
    (ht : Tidy ⟨range :: queue, top :: outer, closed, n, k⟩) (hstart : part.start = range.start)
    (hstop : part.stop = top.range.stop) :
    Due part
      ⟨range :: enqueue { top.range with start := range.start } queue, outer, closed', n, k'⟩ where
  queued := by
    rw [hstart]
    exact List.forall_mem_cons.mpr
      ⟨Nat.le_refl _, forall_mem_enqueue.mpr ⟨Nat.le_refl _, ht.start_le⟩⟩
  opened := by
    rw [hstop]
    exact fun p hp => ((List.pairwise_cons.mp ht.nested).1 p hp).2

/-! ## Pieces that are about to be cut -/

/-- The part is open, and will be cut where the next range starts, with all that is open in it. -/
structure Sinking (order : Nat → Nat → Ordering) (range part : MarkRange) (opened : List Piece) :
    Prop where
  start : part.start < range.start
  outlives : range.start < part.stop ∧ part.stop < range.stop
  inside : ∃ inner p outer, opened = inner ++ p :: outer ∧ p.range = part ∧
    ∀ q ∈ inner ++ [p], q.range.stop = part.stop ∧ order q.range.mark range.mark = .lt

namespace Sinking

theorem ne_nil {opened : List Piece} (h : Sinking order range part opened) : opened ≠ [] := by
  obtain ⟨inner, p, outer, rfl, -⟩ := h.inside
  exact List.append_ne_nil_of_right_ne_nil _ (List.cons_ne_nil _ _)

/-- The innermost open piece is the part, or it is cut and the part comes later. -/
theorem cases_top (h : Sinking order range part (top :: outer)) :
    top.range.stop = part.stop ∧ order top.range.mark range.mark = .lt ∧
      (top.range = part ∨ Sinking order range part outer) := by
  obtain ⟨inner, p, rest, hopened, hp, hall⟩ := h.inside
  cases inner with
  | nil =>
      obtain ⟨rfl, rfl⟩ := List.cons.inj hopened
      obtain ⟨hstop, hlower⟩ := hall top (List.mem_cons_self ..)
      exact ⟨hstop, hlower, .inl hp⟩
  | cons q inner =>
      obtain ⟨rfl, rfl⟩ := List.cons.inj hopened
      obtain ⟨⟨hstop, hlower⟩, hrest⟩ := List.forall_mem_cons.mp hall
      exact ⟨hstop, hlower, .inr ⟨h.start, h.outlives, inner, p, rest, rfl, hp, hrest⟩⟩

/-- A turn that leaves the innermost open piece as it is does not happen while a part sinks. -/
theorem outlives_top (h : Sinking order range part (top :: outer)) : Outlives range top := by
  obtain ⟨hstop, -, -⟩ := h.cases_top
  exact ⟨hstop ▸ h.outlives.1, hstop ▸ h.outlives.2⟩

end Sinking

/-- Of the pieces with one extent, either all of them down to a certain one yield to the next
range, or there is one that does not. -/
theorem sinking_or_exists (ht : Tidy ⟨range :: queue, top :: outer, closed, n, k⟩)
    (outlives : Outlives range top) {p : Piece} (hp : p ∈ outer)
    (hstart : p.range.start = top.range.start) (hstop : p.range.stop = top.range.stop)
    (hlt : top.range.start < range.start) :
    Sinking order range p.range outer ∨
      ∃ q ∈ outer, q.range.start = top.range.start ∧ q.range.stop = top.range.stop ∧
        order q.range.mark range.mark ≠ .lt := by
  obtain ⟨inner, rest, rfl⟩ := List.append_of_mem hp
  obtain ⟨hinside, hnested⟩ := List.pairwise_cons.mp ht.nested
  -- what is open between the two pieces has their extent
  have hsame : ∀ q ∈ inner ++ [p],
      q.range.start = top.range.start ∧ q.range.stop = top.range.stop := by
    intro q hq
    rcases List.mem_append.mp hq with hq | hq
    · obtain ⟨hs, he⟩ := hinside q (List.mem_append_left _ hq)
      obtain ⟨hs', he'⟩ := (List.pairwise_append.mp hnested).2.2 q hq p (List.mem_cons_self ..)
      omega
    · obtain rfl := List.mem_singleton.mp hq
      exact ⟨hstart, hstop⟩
  by_cases hall : ∀ q ∈ inner ++ [p], order q.range.mark range.mark = .lt
  · refine .inl ⟨by omega, ?_, inner, p, rest, rfl, rfl, fun q hq => ⟨?_, hall q hq⟩⟩
    · rw [hstop]
      exact outlives
    · rw [hstop]
      exact (hsame q hq).2
  · simp only [not_forall] at hall
    obtain ⟨q, hq, hstays⟩ := hall
    have hmem : q ∈ inner ++ p :: rest := by
      rw [List.append_cons]
      exact List.mem_append_left _ hq
    exact .inr ⟨q, hmem, (hsame q hq).1, (hsame q hq).2, hstays⟩

/-! ## The invariant -/

/-- A piece of a higher mark divides two parts that meet, or it does so as soon as one of them has
been cut. -/
inductive Parted (order : Nat → Nat → Ordering) (sweep : Sweep) (a b : MarkRange) : Prop where
  | first {u} (mem : u ∈ sweep.ranges) (higher : order u.mark a.mark = .gt) (stop : u.stop = a.stop)
      (start : u.start ≤ a.start)
  | second {u} (mem : u ∈ sweep.ranges) (higher : order u.mark a.mark = .gt)
      (start : u.start = b.start) (stop : b.stop ≤ u.stop) (due : b ∈ sweep.queue → Due b sweep)
  | sinkingFirst {u range} (mem : u ∈ sweep.ranges) (higher : order u.mark a.mark = .gt)
      (next : range ∈ sweep.queue.head?) (sinks : Sinking order range a sweep.opened)
      (start : u.start = range.start) (stop : u.stop = a.stop)
  | sinkingSecond {u range} (mem : u ∈ sweep.ranges) (higher : order u.mark a.mark = .gt)
      (next : range ∈ sweep.queue.head?) (sinks : Sinking order range b sweep.opened)
      (start : u.start = b.start) (stop : u.stop = range.start)

/-- Of open pieces that start together, an inner one that is shorter is not exposed. -/
def Stepped (sweep : Sweep) : Prop :=
  sweep.opened.Pairwise fun inner outer =>
    outer.range.start = inner.range.start → inner.range.stop < outer.range.stop →
      exposed sweep.queue inner = false

structure Divided (order : Nat → Nat → Ordering) (sweep : Sweep) : Prop where
  stepped : sweep.Stepped
  waiting : ∀ a ∈ sweep.ranges, ∀ b ∈ sweep.ranges, Meet a b → a ∈ sweep.queue → Due a sweep
  parted : ∀ a ∈ sweep.ranges, ∀ b ∈ sweep.ranges, Meet a b → Parted order sweep a b

/-- Where a range crosses the innermost piece, what starts with it and is open ends no later. -/
theorem Stepped.stop_le (h : Stepped ⟨range :: queue, top :: outer, closed, n, k⟩)
    (ht : Tidy ⟨range :: queue, top :: outer, closed, n, k⟩) (outlives : Outlives range top)
    {p : Piece} (hp : p ∈ top :: outer) (hstart : p.range.start = range.start) :
    p.range.stop ≤ top.range.stop := by
  by_contra hlonger
  rcases List.mem_cons.mp hp with rfl | hp
  · exact hlonger (Nat.le_refl _)
  · have hreached := ht.reached top (List.mem_cons_self ..) range (List.mem_cons_self ..)
    have hnested := ((List.pairwise_cons.mp ht.nested).1 p hp).1
    have hexposed : exposed (range :: queue) top = true :=
      exposed_iff.mpr ⟨range, List.mem_cons_self .., by omega, outlives.2⟩
    have hnot := (List.pairwise_cons.mp h).1 p hp (by omega) (Nat.not_le.mp hlonger)
    rw [hnot] at hexposed
    cases hexposed

theorem Stepped.turn (turn : Turn order sweep next) (ht : sweep.Tidy) (h : sweep.Stepped) :
    next.Stepped := by
  have hkeep {p : Piece} (hopen : p ∈ sweep.opened) (hstill : p ∈ next.opened)
      (hnot : exposed sweep.queue p = false) : exposed next.queue p = false := by
    refine Bool.eq_false_iff.mpr fun he => ?_
    rw [exposed_of_turn turn ht hopen hstill he] at hnot
    cases hnot
  have hstay {kept : List Piece} (hopen : ∀ p ∈ kept, p ∈ sweep.opened)
      (hstill : ∀ p ∈ kept, p ∈ next.opened)
      (hkept : kept.Pairwise fun inner outer => outer.range.start = inner.range.start →
        inner.range.stop < outer.range.stop → exposed sweep.queue inner = false) :
      kept.Pairwise fun inner outer => outer.range.start = inner.range.start →
        inner.range.stop < outer.range.stop → exposed next.queue inner = false :=
    hkept.imp_of_mem fun hinner _ hnot hs he =>
      hkeep (hopen _ hinner) (hstill _ hinner) (hnot hs he)
  cases turn with
  | @enter range queue opened closed n k fits =>
      refine List.pairwise_cons.mpr ⟨fun p _ _ _ => exposed_eq_false_of_first ht.sorted, ?_⟩
      exact hstay (fun _ hp => hp) (fun _ hp => List.mem_cons_of_mem _ hp) h
  | leave ended =>
      exact hstay (fun _ hp => List.mem_cons_of_mem _ hp) (fun _ hp => hp)
        (List.pairwise_cons.mp h).2
  | trim outlives same => exact hstay (fun _ hp => hp) (fun _ hp => hp) h
  | yield outlives differ lower =>
      exact hstay (fun _ hp => List.mem_cons_of_mem _ hp) (fun _ hp => hp)
        (List.pairwise_cons.mp h).2
  | @shorten range queue top outer closed n k outlives differ stays =>
      refine List.pairwise_cons.mpr ⟨fun p hp hs he => ?_, ?_⟩
      · exact absurd (h.stop_le ht outlives hp hs) (Nat.not_le.mpr he)
      · exact hstay (fun _ hp => hp) (fun _ hp => List.mem_cons_of_mem _ hp) h

/-! ## An open piece yields -/

/-- The sweep after the innermost open piece has yielded to the next range. -/
abbrev afterYield (range : MarkRange) (queue : List MarkRange) (top : Piece)
    (outer closed : List Piece) (n k : Nat) : Sweep :=
  ⟨range :: enqueue { top.range with start := range.start } queue, outer,
    { top with range.stop := range.start } :: closed, n, k + 1⟩

theorem perm_afterYield (range : MarkRange) (queue : List MarkRange) (top : Piece)
    (outer closed : List Piece) (n k : Nat) :
    (afterYield range queue top outer closed n k).ranges.Perm
      ({ top.range with stop := range.start } :: { top.range with start := range.start } ::
        (range :: queue ++ (closed ++ outer).map Piece.range)) :=
  perm_yielded queue range { top with range.stop := range.start } outer closed _

section Yield

variable (hlinear : LinearBelow order size) (hsize : ∀ r ∈ ranges, r.mark < size)
  (ho : Orderly order ranges ⟨range :: queue, top :: outer, closed, n, k⟩)
  (outlives : Outlives range top) (lower : order top.range.mark range.mark = .lt)

include hlinear hsize ho outlives lower

omit outlives in
/-- A piece that does not yield to a range is higher than one that does. -/
theorem higher_of_stays {q : Piece} (hq : q ∈ outer) {mark : Nat} (hmark : mark < size)
    (higher : order top.range.mark mark = .gt) (stays : order q.range.mark range.mark ≠ .lt) :
    order q.range.mark mark = .gt := by
  have hrange := ho.mark_lt hsize (mem_ranges.mpr (.inl (List.mem_cons_self ..)))
  have htop := ho.mark_lt hsize (mem_ranges.mpr (.inr (.inr ⟨top, List.mem_cons_self .., rfl⟩)))
  have hqmark := ho.mark_lt hsize
    (mem_ranges.mpr (.inr (.inr ⟨q, List.mem_cons_of_mem _ hq, rfl⟩)))
  have hrangeHigher := hlinear.trans _ hrange _ htop _ hmark
    (hlinear.gt_of_lt htop hrange lower) higher
  rcases eq_or_ne q.range.mark range.mark with heq | hne
  · rw [heq]
    exact hrangeHigher
  · exact hlinear.trans _ hqmark _ hrange _ hmark
      (hlinear.gt_of_ne hqmark hrange hne stays) hrangeHigher

/-- The piece that yields held the first part. -/
theorem parted_of_yield_first (hmark : a.mark < size)
    (ha : a ∈ range :: queue ++ (closed ++ outer).map Piece.range)
    (higher : order top.range.mark a.mark = .gt) (hstop : top.range.stop = a.stop)
    (hstart : top.range.start ≤ a.start) :
    Parted order (afterYield range queue top outer closed n k) a b := by
  have hback : { top.range with start := range.start } ∈
      (afterYield range queue top outer closed n k).ranges :=
    mem_ranges.mpr (.inl (List.mem_cons_of_mem _ (mem_enqueue.mpr (.inl rfl))))
  have hlate (hle : range.start ≤ a.start) :
      Parted order (afterYield range queue top outer closed n k) a b :=
    .first hback higher hstop hle
  rw [List.mem_append, List.map_append, List.mem_append, List.mem_map, List.mem_map] at ha
  rcases ha with hq | ⟨p, hp, rfl⟩ | ⟨p, hp, rfl⟩
  · rcases List.mem_cons.mp hq with rfl | hq
    · exact hlate (Nat.le_refl _)
    · exact hlate (ho.tidy.start_le a hq)
  · have hpassed := ho.settled.passed p hp range (List.mem_cons_self ..)
    exact absurd outlives.1 (Nat.not_lt.mpr (hstop ▸ hpassed))
  · -- the part is open around the piece, with the same extent
    obtain ⟨hs, he⟩ := (List.pairwise_cons.mp ho.tidy.nested).1 p hp
    rcases Nat.lt_or_ge p.range.start range.start with hlt | hge
    · have hstart' := Nat.le_antisymm hs hstart
      rcases sinking_or_exists ho.tidy outlives hp hstart' hstop.symm (by omega) with
        hsinks | ⟨q, hq, hqs, hqe, hstays⟩
      · exact .sinkingFirst hback higher rfl hsinks rfl hstop
      · refine .first (mem_ranges.mpr (.inr (.inr ⟨q, hq, rfl⟩)))
          (higher_of_stays hlinear hsize ho lower hq hmark higher hstays)
          (hqe.trans hstop) (by omega)
    · exact hlate hge

/-- The piece that yields held the second part. -/
theorem parted_of_yield_second (hmark : a.mark < size)
    (hb : b ∈ range :: queue ++ (closed ++ outer).map Piece.range) (hne : b.start < b.stop)
    (higher : order top.range.mark a.mark = .gt) (hstart : top.range.start = b.start)
    (hstop : b.stop ≤ top.range.stop)
    (hdue : b ∈ (afterYield range queue top outer closed n k).queue →
      Due b (afterYield range queue top outer closed n k)) :
    Parted order (afterYield range queue top outer closed n k) a b := by
  have hreached := ho.tidy.reached top (List.mem_cons_self ..) range (List.mem_cons_self ..)
  rcases Nat.lt_or_ge top.range.start range.start with hlt | hge
  · have hleft : { top.range with stop := range.start } ∈
        (afterYield range queue top outer closed n k).ranges :=
      mem_ranges.mpr (.inr (.inl ⟨_, List.mem_cons_self .., rfl⟩))
    rw [List.mem_append, List.map_append, List.mem_append, List.mem_map, List.mem_map] at hb
    rcases hb with hq | ⟨p, hp, rfl⟩ | ⟨p, hp, rfl⟩
    · -- what waits starts no earlier than the next range
      have hlate : range.start ≤ b.start := by
        rcases List.mem_cons.mp hq with rfl | hq
        · exact Nat.le_refl _
        · exact ho.tidy.start_le b hq
      omega
    · exact .second hleft higher hstart
        (ho.settled.passed p hp range (List.mem_cons_self ..)) hdue
    · obtain ⟨hs, he⟩ := (List.pairwise_cons.mp ho.tidy.nested).1 p hp
      have hstop' := Nat.le_antisymm hstop he
      rcases sinking_or_exists ho.tidy outlives hp hstart.symm hstop' hlt with
        hsinks | ⟨q, hq, hqs, hqe, hstays⟩
      · exact .sinkingSecond hleft higher rfl hsinks hstart rfl
      · exact .second (mem_ranges.mpr (.inr (.inr ⟨q, hq, rfl⟩)))
          (higher_of_stays hlinear hsize ho lower hq hmark higher hstays)
          (hqs.trans hstart) (by omega) hdue
  · -- the piece is cut at its own start, and what is put back holds the part still
    have hback : { top.range with start := range.start } ∈
        (afterYield range queue top outer closed n k).ranges :=
      mem_ranges.mpr (.inl (List.mem_cons_of_mem _ (mem_enqueue.mpr (.inl rfl))))
    exact .second hback higher (by dsimp only; omega) hstop hdue

omit hlinear hsize lower in
/-- What waits after the cut is due if it was due before it or was put back by it. -/
theorem due_of_mem_afterYield
    (hdue : part ∈ range :: queue → Due part ⟨range :: queue, top :: outer, closed, n, k⟩)
    (turn : Turn order ⟨range :: queue, top :: outer, closed, n, k⟩
      (afterYield range queue top outer closed n k))
    (hp : part ∈ (afterYield range queue top outer closed n k).queue) :
    Due part (afterYield range queue top outer closed n k) := by
  have hkept (hmem : part ∈ range :: queue) :
      Due part (afterYield range queue top outer closed n k) :=
    (hdue hmem).turn turn ho.tidy hp
  rcases List.mem_cons.mp hp with rfl | hq
  · exact hkept (List.mem_cons_self ..)
  · rcases mem_enqueue.mp hq with rfl | hq
    · exact due_of_yield ho.tidy rfl rfl
    · exact hkept (List.mem_cons_of_mem _ hq)

omit hlinear hsize outlives lower in
/-- What the piece keeps does not wait. -/
theorem not_mem_afterYield (hne : top.range.start < range.start) :
    { top.range with stop := range.start } ∉
      (afterYield range queue top outer closed n k).queue := by
  intro hmem
  refine absurd hne (Nat.not_lt.mpr ?_)
  rcases List.mem_cons.mp hmem with heq | hq
  · exact Nat.le_of_eq (congrArg MarkRange.start heq).symm
  · rcases mem_enqueue.mp hq with heq | hq
    · exact Nat.le_of_eq (congrArg MarkRange.start heq).symm
    · have hlate := ho.tidy.start_le _ hq
      exact hlate

/-- Two parts that met before the cut are still divided. -/
theorem parted_of_yield {a' b' : MarkRange}
    (ha' : a' ∈ Sweep.ranges ⟨range :: queue, top :: outer, closed, n, k⟩)
    (hmeet : Meet a' b') (hab : Meet a b)
    (ha : CutFirst top.range range.start (range :: queue ++ (closed ++ outer).map Piece.range) a' a)
    (hb : CutSecond top.range range.start (range :: queue ++ (closed ++ outer).map Piece.range)
      b' b)
    (turn : Turn order ⟨range :: queue, top :: outer, closed, n, k⟩
      (afterYield range queue top outer closed n k))
    (h : Parted order ⟨range :: queue, top :: outer, closed, n, k⟩ a' b') :
    Parted order (afterYield range queue top outer closed n k) a b := by
  have hreached := ho.tidy.reached top (List.mem_cons_self ..) range (List.mem_cons_self ..)
  have hopen := ho.tidy.opened top (List.mem_cons_self ..)
  have before := perm_opened (range :: queue) top outer closed
  have hkeep {u : MarkRange} (hu : u ∈ Sweep.ranges ⟨range :: queue, top :: outer, closed, n, k⟩)
      (hne : u ≠ top.range) : u ∈ (afterYield range queue top outer closed n k).ranges :=
    mem_of_cut before (perm_afterYield ..) hu hne
  have hback : { top.range with start := range.start } ∈
      (afterYield range queue top outer closed n k).ranges :=
    mem_ranges.mpr (.inl (List.mem_cons_of_mem _ (mem_enqueue.mpr (.inl rfl))))
  have hmark := ho.mark_lt hsize ha'
  obtain ⟨hamark, hastart, hastop⟩ := ha.grows hreached
  obtain ⟨hbmark, hbstart, hbstop⟩ := hb.grows outlives.1
  -- a piece with a mark that is higher than that of the parts is none of them
  have hother {c : MarkRange} (hc : c.mark = a'.mark)
      (higher : order top.range.mark a'.mark = .gt) : c ≠ top.range := by
    rintro rfl
    rw [hc] at higher
    exact hlinear.irrefl hmark higher
  cases h with
  | @first u mem higher stop start =>
      rw [← hamark] at higher
      rcases eq_or_ne u top.range with rfl | hne
      · rcases ha with ⟨rfl, ha⟩ | ⟨rfl, -⟩
        · exact parted_of_yield_first hlinear hsize ho outlives lower hmark ha higher stop start
        · exact absurd rfl (hother rfl (hamark ▸ higher))
      · exact .first (hkeep mem hne) higher (stop.trans hastop.symm) (Nat.le_trans start hastart)
  | @second u mem higher start stop due =>
      rw [← hamark] at higher
      have hdue (hqueued : b ∈ (afterYield range queue top outer closed n k).queue) :
          Due b (afterYield range queue top outer closed n k) := by
        rcases hb with ⟨rfl, -⟩ | ⟨-, rfl⟩ | ⟨-, rfl, hstart⟩
        · exact due_of_mem_afterYield ho outlives due turn hqueued
        · exact absurd hqueued (not_mem_afterYield ho hab.second)
        · exact due_of_yield ho.tidy hstart.symm rfl
      rcases eq_or_ne u top.range with rfl | hne
      · have hbtop : b' ≠ top.range := hother hmeet.mark.symm (hamark ▸ higher)
        rcases hb with ⟨rfl, hb⟩ | ⟨rfl, -⟩ | ⟨rfl, -⟩
        · exact parted_of_yield_second hlinear hsize ho outlives lower (hamark ▸ hmark) hb
            hab.second higher start stop hdue
        · exact absurd rfl hbtop
        · exact absurd rfl hbtop
      · exact .second (hkeep mem hne) higher (start.trans hbstart.symm) (Nat.le_trans hbstop stop)
          hdue
  | @sinkingFirst u range' mem higher next sinks start stop =>
      obtain rfl := Option.some.inj next
      obtain ⟨htopstop, -, hinner⟩ := sinks.cases_top
      rw [← hamark] at higher
      rcases ha with ⟨rfl, ha⟩ | ⟨rfl, rfl⟩
      · have hnot : top.range ≠ a :=
          fun heq => ho.disjointed.not_mem before hopen (heq ▸ ha)
        have hstill := hinner.resolve_left hnot
        rcases eq_or_ne u top.range with rfl | hne
        · exact .sinkingFirst hback higher rfl hstill rfl stop
        · exact .sinkingFirst (hkeep mem hne) higher rfl hstill start stop
      · have hne : u ≠ top.range := by
          rintro rfl
          exact hother rfl higher rfl
        exact .first (hkeep mem hne) higher stop (Nat.le_of_eq start)
  | @sinkingSecond u range' mem higher next sinks start stop =>
      obtain rfl := Option.some.inj next
      obtain ⟨htopstop, -, hinner⟩ := sinks.cases_top
      rw [← hamark] at higher
      have hne : u ≠ top.range := by
        rintro rfl
        exact absurd outlives.1 (Nat.not_lt.mpr (Nat.le_of_eq stop))
      have hmem := hkeep mem hne
      rcases hb with ⟨rfl, hb⟩ | ⟨rfl, rfl⟩ | ⟨rfl, rfl, hstart⟩
      · have hnot : top.range ≠ b :=
          fun heq => ho.disjointed.not_mem before hopen (heq ▸ hb)
        exact .sinkingSecond hmem higher rfl (hinner.resolve_left hnot) start stop
      · exact .second hmem higher start (Nat.le_of_eq stop.symm)
          fun hqueued => absurd hqueued (not_mem_afterYield ho hab.second)
      · exact absurd sinks.start (Nat.not_lt.mpr (Nat.le_of_eq hstart))

theorem divided_of_yield (differ : top.range.mark ≠ range.mark)
    (h : Divided order ⟨range :: queue, top :: outer, closed, n, k⟩) :
    Divided order (afterYield range queue top outer closed n k) := by
  have turn : Turn order ⟨range :: queue, top :: outer, closed, n, k⟩
      (afterYield range queue top outer closed n k) := .yield outlives differ lower
  have hreached := ho.tidy.reached top (List.mem_cons_self ..) range (List.mem_cons_self ..)
  have hopen := ho.tidy.opened top (List.mem_cons_self ..)
  have before := perm_opened (range :: queue) top outer closed
  have htop : top.range ∈ Sweep.ranges ⟨range :: queue, top :: outer, closed, n, k⟩ :=
    mem_ranges.mpr (.inr (.inr ⟨top, List.mem_cons_self .., rfl⟩))
  have hrange : range ∈ Sweep.ranges ⟨range :: queue, top :: outer, closed, n, k⟩ :=
    mem_ranges.mpr (.inl (List.mem_cons_self ..))
  -- whatever waits of two parts that meet is due
  have hwaiting {a b : MarkRange} (ha : a ∈ (afterYield range queue top outer closed n k).ranges)
      (hb : b ∈ (afterYield range queue top outer closed n k).ranges) (hab : Meet a b)
      (hqueued : a ∈ (afterYield range queue top outer closed n k).queue) :
      Due a (afterYield range queue top outer closed n k) := by
    rcases hab.of_cut ho.disjointed before (perm_afterYield ..) hreached outlives.1 ha hb with
      ⟨rfl, -⟩ | ⟨a', ha', b', hb', hmeet, hfirst, -⟩
    · exact absurd hqueued (not_mem_afterYield ho hab.first)
    · rcases hfirst with ⟨rfl, -⟩ | ⟨-, rfl⟩
      · exact due_of_mem_afterYield ho outlives (h.waiting a ha' b' hb' hmeet) turn hqueued
      · exact due_of_yield ho.tidy rfl rfl
  refine ⟨h.stepped.turn turn ho.tidy, fun a ha b hb => hwaiting ha hb, fun a ha b hb hab => ?_⟩
  rcases hab.of_cut ho.disjointed before (perm_afterYield ..) hreached outlives.1 ha hb with
    ⟨rfl, rfl⟩ | ⟨a', ha', b', hb', hmeet, hfirst, hsecond⟩
  · have higher := hlinear.gt_of_lt (ho.mark_lt hsize htop) (ho.mark_lt hsize hrange) lower
    exact .second (mem_ranges.mpr (.inl (List.mem_cons_self ..))) higher rfl
      (Nat.le_of_lt outlives.2) fun _ => due_of_yield ho.tidy rfl rfl
  · exact parted_of_yield hlinear hsize ho outlives lower ha' hmeet hab hfirst hsecond turn
      (h.parted a' ha' b' hb' hmeet)

end Yield

/-! ## The next range is shortened -/

/-- The sweep after the next range was opened up to the end of the innermost open piece. -/
abbrev afterShorten (range : MarkRange) (queue : List MarkRange) (top : Piece)
    (outer closed : List Piece) (n k : Nat) : Sweep :=
  ⟨enqueue { range with start := top.range.stop } queue,
    ⟨n, { range with stop := top.range.stop }⟩ :: top :: outer, closed, n + 1, k + 1⟩

theorem perm_afterShorten (range : MarkRange) (queue : List MarkRange) (top : Piece)
    (outer closed : List Piece) (n k : Nat) :
    (afterShorten range queue top outer closed n k).ranges.Perm
      ({ range with stop := top.range.stop } :: { range with start := top.range.stop } ::
        (queue ++ (closed ++ top :: outer).map Piece.range)) :=
  perm_shortened queue ⟨n, { range with stop := top.range.stop }⟩ (top :: outer) closed _

section Shorten

variable (hlinear : LinearBelow order size) (hsize : ∀ r ∈ ranges, r.mark < size)
  (ho : Orderly order ranges ⟨range :: queue, top :: outer, closed, n, k⟩)
  (outlives : Outlives range top) (stays : order top.range.mark range.mark ≠ .lt)

include ho outlives

/-- What is left of the range waits where the piece ends; the part that is opened would be due. -/
theorem due_of_shorten :
    Due { range with stop := top.range.stop } (afterShorten range queue top outer closed n k) where
  queued := forall_mem_enqueue.mpr ⟨Nat.le_of_lt outlives.1, ho.tidy.start_le⟩
  opened := List.forall_mem_cons.mpr ⟨Nat.le_refl _, List.forall_mem_cons.mpr
    ⟨Nat.le_refl _, fun p hp => ((List.pairwise_cons.mp ho.tidy.nested).1 p hp).2⟩⟩

/-- What was there beside the range waits only if it did before, and is due if it was. -/
theorem due_of_mem_afterShorten
    (hrest : part ∈ queue ++ (closed ++ top :: outer).map Piece.range)
    (hdue : part ∈ range :: queue → Due part ⟨range :: queue, top :: outer, closed, n, k⟩)
    (turn : Turn order ⟨range :: queue, top :: outer, closed, n, k⟩
      (afterShorten range queue top outer closed n k))
    (hp : part ∈ (afterShorten range queue top outer closed n k).queue) :
    Due part (afterShorten range queue top outer closed n k) := by
  have hbefore : part ∈ queue := by
    refine (mem_enqueue.mp hp).resolve_left ?_
    rintro rfl
    -- otherwise the range would have had its end in common with something else
    have hapart := ho.disjointed.apart (.refl _) hrest rfl
      (Nat.lt_trans outlives.1 outlives.2) outlives.2
    unfold MarkRange.Apart at hapart
    have := outlives.1
    have := outlives.2
    dsimp only at hapart
    omega
  exact (hdue (List.mem_cons_of_mem _ hbefore)).turn turn ho.tidy hp

/-- Nothing else that starts no earlier than the range ends behind the piece, if it is due or does
not wait. -/
theorem stop_le_of_start_le (hstepped : Stepped ⟨range :: queue, top :: outer, closed, n, k⟩)
    (hrest : part ∈ queue ++ (closed ++ top :: outer).map Piece.range)
    (hdue : part ∈ range :: queue → Due part ⟨range :: queue, top :: outer, closed, n, k⟩)
    (hne : part.start < part.stop) (hstart : range.start ≤ part.start) :
    part.stop ≤ top.range.stop := by
  rw [List.mem_append, List.map_append, List.mem_append, List.mem_map, List.mem_map] at hrest
  rcases hrest with hq | ⟨p, hp, rfl⟩ | ⟨p, hp, rfl⟩
  · exact (hdue (List.mem_cons_of_mem _ hq)).opened top (List.mem_cons_self ..)
  · have hpassed := ho.settled.passed p hp range (List.mem_cons_self ..)
    exact absurd hne (Nat.not_lt.mpr (Nat.le_trans hpassed hstart))
  · have hreached := ho.tidy.reached p hp range (List.mem_cons_self ..)
    exact hstepped.stop_le ho.tidy outlives hp (Nat.le_antisymm hreached hstart)

include hlinear hsize stays

/-- Two parts that met before the cut are still divided. -/
theorem parted_of_shorten {a' b' : MarkRange}
    (ha' : a' ∈ Sweep.ranges ⟨range :: queue, top :: outer, closed, n, k⟩)
    (hmeet : Meet a' b') (hab : Meet a b)
    (ha : CutFirst range top.range.stop (queue ++ (closed ++ top :: outer).map Piece.range) a' a)
    (hb : CutSecond range top.range.stop (queue ++ (closed ++ top :: outer).map Piece.range) b' b)
    (hwaiting : a' ∈ range :: queue → Due a' ⟨range :: queue, top :: outer, closed, n, k⟩)
    (hstepped : Stepped ⟨range :: queue, top :: outer, closed, n, k⟩)
    (turn : Turn order ⟨range :: queue, top :: outer, closed, n, k⟩
      (afterShorten range queue top outer closed n k))
    (h : Parted order ⟨range :: queue, top :: outer, closed, n, k⟩ a' b') :
    Parted order (afterShorten range queue top outer closed n k) a b := by
  have hkeep {u : MarkRange} (hu : u ∈ Sweep.ranges ⟨range :: queue, top :: outer, closed, n, k⟩)
      (hne : u ≠ range) : u ∈ (afterShorten range queue top outer closed n k).ranges :=
    mem_of_cut (.refl _) (perm_afterShorten ..) hu hne
  have hmark := ho.mark_lt hsize ha'
  obtain ⟨hamark, hastart, hastop⟩ := ha.grows (Nat.le_of_lt outlives.1)
  obtain ⟨-, hbstart, hbstop⟩ := hb.grows outlives.2
  have hother {c : MarkRange} (hc : c.mark = a'.mark) (higher : order range.mark a'.mark = .gt) :
      c ≠ range := by
    rintro rfl
    rw [hc] at higher
    exact hlinear.irrefl hmark higher
  cases h with
  | @first u mem higher stop start =>
      have hne : u ≠ range := by
        rintro rfl
        rcases ha with ⟨rfl, ha⟩ | ⟨rfl, -⟩
        · have hwithin := stop_le_of_start_le ho outlives hstepped ha hwaiting hab.first start
          exact absurd outlives.2 (Nat.not_lt.mpr (stop ▸ hwithin))
        · exact hother rfl higher rfl
      exact .first (hkeep mem hne) (hamark ▸ higher) (stop.trans hastop.symm)
        (Nat.le_trans start hastart)
  | @second u mem higher start stop due =>
      have hdue (hqueued : b ∈ (afterShorten range queue top outer closed n k).queue) :
          Due b (afterShorten range queue top outer closed n k) := by
        rcases hb with ⟨rfl, hb⟩ | ⟨-, rfl⟩ | ⟨-, rfl, hstart⟩
        · exact due_of_mem_afterShorten ho outlives hb due turn hqueued
        · exact due_of_shorten ho outlives
        · exact absurd outlives.1 (Nat.not_lt.mpr (Nat.le_of_eq hstart))
      rcases eq_or_ne u range with rfl | hne
      · have hbrange : b' ≠ u := hother hmeet.mark.symm higher
        rcases hb with ⟨rfl, hb⟩ | ⟨rfl, -⟩ | ⟨rfl, -⟩
        · -- the part is within what is opened
          have hwithin := stop_le_of_start_le ho outlives hstepped hb due hab.second
            (Nat.le_of_eq start)
          exact .second (mem_ranges.mpr (.inr (.inr ⟨_, List.mem_cons_self .., rfl⟩)))
            (hamark ▸ higher) start hwithin hdue
        · exact absurd rfl hbrange
        · exact absurd rfl hbrange
      · exact .second (hkeep mem hne) (hamark ▸ higher) (start.trans hbstart.symm)
          (Nat.le_trans hbstop stop) hdue
  | sinkingFirst mem higher next sinks start stop =>
      obtain rfl := Option.some.inj next
      exact absurd sinks.cases_top.2.1 stays
  | sinkingSecond mem higher next sinks start stop =>
      obtain rfl := Option.some.inj next
      exact absurd sinks.cases_top.2.1 stays

theorem divided_of_shorten (differ : top.range.mark ≠ range.mark)
    (h : Divided order ⟨range :: queue, top :: outer, closed, n, k⟩) :
    Divided order (afterShorten range queue top outer closed n k) := by
  have turn : Turn order ⟨range :: queue, top :: outer, closed, n, k⟩
      (afterShorten range queue top outer closed n k) := .shorten outlives differ stays
  have hreached := ho.tidy.reached top (List.mem_cons_self ..) range (List.mem_cons_self ..)
  have htop : top.range ∈ Sweep.ranges ⟨range :: queue, top :: outer, closed, n, k⟩ :=
    mem_ranges.mpr (.inr (.inr ⟨top, List.mem_cons_self .., rfl⟩))
  have hrange : range ∈ Sweep.ranges ⟨range :: queue, top :: outer, closed, n, k⟩ :=
    mem_ranges.mpr (.inl (List.mem_cons_self ..))
  have hleft := Nat.le_of_lt outlives.1
  refine ⟨h.stepped.turn turn ho.tidy, fun a ha b hb hab hqueued => ?_, fun a ha b hb hab => ?_⟩
  · rcases hab.of_cut ho.disjointed (.refl _) (perm_afterShorten ..) hleft outlives.2 ha hb with
      ⟨rfl, -⟩ | ⟨a', ha', b', hb', hmeet, hfirst, -⟩
    · exact due_of_shorten ho outlives
    · rcases hfirst with ⟨rfl, hrest⟩ | ⟨rfl, -⟩
      · exact due_of_mem_afterShorten ho outlives hrest (h.waiting a ha' b' hb' hmeet) turn hqueued
      · -- a range that crosses the innermost piece is not due
        have hdue := h.waiting a' ha' b' hb' hmeet (List.mem_cons_self ..)
        exact absurd outlives.2 (Nat.not_lt.mpr (hdue.opened top (List.mem_cons_self ..)))
  · rcases hab.of_cut ho.disjointed (.refl _) (perm_afterShorten ..) hleft outlives.2 ha hb with
      ⟨rfl, rfl⟩ | ⟨a', ha', b', hb', hmeet, hfirst, hsecond⟩
    · have higher := hlinear.gt_of_ne (ho.mark_lt hsize htop) (ho.mark_lt hsize hrange) differ stays
      exact .first (mem_ranges.mpr (.inr (.inr ⟨top, by simp, rfl⟩))) higher rfl hreached
    · exact parted_of_shorten hlinear hsize ho outlives stays ha' hmeet hab hfirst hsecond
        (h.waiting a' ha' b' hb' hmeet) h.stepped turn (h.parted a' ha' b' hb' hmeet)

end Shorten

/-! ## The other turns -/

section Turn

variable (ht : sweep.Tidy) (hsame : ∀ part, part ∈ next.ranges ↔ part ∈ sweep.ranges)

include ht hsame

/-- A turn that cuts nothing keeps the invariant where nothing sinks. -/
theorem divided_of_same (turn : Turn order sweep next)
    (hqueue : ∀ part ∈ next.queue, part ∈ sweep.queue)
    (hsinks : ∀ range ∈ sweep.queue.head?, ∀ part, ¬ Sinking order range part sweep.opened)
    (h : Divided order sweep) : Divided order next where
  stepped := h.stepped.turn turn ht
  waiting := fun a ha b hb hab hqueued =>
    (h.waiting a ((hsame a).mp ha) b ((hsame b).mp hb) hab (hqueue a hqueued)).turn turn ht hqueued
  parted := fun a ha b hb hab => by
    cases h.parted a ((hsame a).mp ha) b ((hsame b).mp hb) hab with
    | first mem higher stop start => exact .first ((hsame _).mpr mem) higher stop start
    | second mem higher start stop due =>
        exact .second ((hsame _).mpr mem) higher start stop
          fun hqueued => (due (hqueue b hqueued)).turn turn ht hqueued
    | sinkingFirst _ _ next sinks _ _ => exact absurd sinks (hsinks _ next _)
    | sinkingSecond _ _ next sinks _ _ => exact absurd sinks (hsinks _ next _)

end Turn

theorem Orderly.divided_turn (hlinear : LinearBelow order size)
    (hsize : ∀ r ∈ ranges, r.mark < size) (turn : Turn order sweep next)
    (ho : sweep.Orderly order ranges) (h : Divided order sweep) : Divided order next := by
  cases turn with
  | @enter range queue opened closed n k fits =>
      refine divided_of_same ho.tidy
        (fun part => (perm_opened queue ⟨n, range⟩ opened closed).mem_iff) (.enter fits)
        (fun part => List.mem_cons_of_mem _) ?_ h
      rintro _ ⟨⟩ part hsinks
      cases opened with
      | nil => exact hsinks.ne_nil rfl
      | cons top outer => exact absurd hsinks.outlives_top.2 (Nat.not_lt.mpr (fits top rfl).2)
  | @leave range queue top outer closed n k ended =>
      refine divided_of_same ho.tidy
        (fun part => ((perm_closed ..).trans (perm_opened ..).symm).mem_iff) (.leave ended)
        (fun part => id) ?_ h
      rintro _ ⟨⟩ part hsinks
      exact absurd hsinks.outlives_top.1 (Nat.not_lt.mpr ended)
  | @trim range queue top outer closed n k outlives same =>
      have hne := Nat.lt_trans outlives.1 outlives.2
      have hmem : top.range ∈ queue ++ (closed ++ top :: outer).map Piece.range := by simp
      have hreached := ho.tidy.reached top (List.mem_cons_self ..) range (List.mem_cons_self ..)
      exact absurd outlives.1 (ho.disjointed.not_inside (.refl _) hne hmem same hreached)
  | yield outlives differ lower => exact divided_of_yield hlinear hsize ho outlives lower differ h
  | shorten outlives differ stays =>
      exact divided_of_shorten hlinear hsize ho outlives stays differ h

/-- At the start nothing has been cut. -/
theorem Divided.ofRanges (ho : (ranges.map MarkRange.origin).Nodup) :
    Divided order (Sweep.ofRanges ranges) := by
  have hnone {a b : MarkRange} (ha : a ∈ (Sweep.ofRanges ranges).ranges)
      (hb : b ∈ (Sweep.ofRanges ranges).ranges) : ¬ Meet a b := by
    intro h
    rw [(perm_ranges_ofRanges ranges).mem_iff] at ha hb
    obtain rfl := List.inj_on_of_nodup_map ho ha hb h.origin
    exact absurd h.touch.symm (Nat.ne_of_lt h.first)
  exact ⟨.nil, fun a ha b hb h => absurd h (hnone ha hb), fun a ha b hb h => absurd h (hnone ha hb)⟩

end Sweep

/-- Where two parts of a range meet among the untangled ranges, one of a higher mark divides
them. -/
theorem exists_divides_untangle (hlinear : LinearBelow order size) {ranges out : List MarkRange}
    (hsize : ∀ range ∈ ranges, range.mark < size) (hne : ∀ range ∈ ranges, range.start < range.stop)
    (ho : (ranges.map MarkRange.origin).Nodup)
    (hd : Disjointed ranges) (h : untangle order ranges = .ok out) {a b : MarkRange}
    (ha : a ∈ out) (hb : b ∈ out) (hmeet : Meet a b) : ∃ range ∈ out, Divides order range a b := by
  obtain ⟨final, hdivided, hq, hout⟩ := Sweep.exists_final_of_untangle hlinear hsize hne hd
    (fun turn hs => hs.divided_turn hlinear hsize turn) (.ofRanges ho) h
  cases hdivided.parted a ((hout a).mp ha) b ((hout b).mp hb) hmeet with
  | first mem higher stop start => exact ⟨_, (hout _).mpr mem, higher, .inl ⟨stop, start⟩⟩
  | second mem higher start stop _ => exact ⟨_, (hout _).mpr mem, higher, .inr ⟨start, stop⟩⟩
  | sinkingFirst _ _ next => rw [hq] at next; cases next
  | sinkingSecond _ _ next => rw [hq] at next; cases next

end RichDoc
