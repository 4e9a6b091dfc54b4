import RichDoc.Proofs.Range.Coverage

/-!
# How many cuts a sweep makes

A cut that leaves two parts behind takes from a finite supply: a range of
`n` positions can be cut `n - 1` times. That would bound the cuts by
`Sweep.spare`, were it not for a cut of an open piece at its own start.
It leaves the piece as it was and an empty one besides. Such a cut can
happen only to a piece that was shortened when it was opened, and only
once, because the piece is opened again when everything longer that
starts with it has been opened. So each piece that was shortened pays
twice (`Sweep.credit`), and twice the supply bounds all cuts.

The limit of `untangle` allows for the supply and two more for each
range. A sweep that is stopped by it leaves more than two empty pieces
for each range, and there are such sweeps.
-/

namespace RichDoc

/-- How often the ranges can be cut so that every part keeps a position. -/
def spare : List MarkRange → Nat
  | [] => 0
  | range :: rest => (range.len - 1) + spare rest

section Spare

variable {range : MarkRange} {ranges l l' : List MarkRange}

@[simp]
theorem spare_cons : spare (range :: l) = (range.len - 1) + spare l := rfl

theorem spare_perm (h : l.Perm l') : spare l = spare l' := by
  induction h with
  | nil => rfl
  | cons range _ ih => rw [spare_cons, spare_cons, ih]
  | swap a b l =>
      simp only [spare_cons]
      omega
  | trans _ _ ih₁ ih₂ => exact ih₁.trans ih₂

@[simp]
theorem spare_enqueue : spare (enqueue range l) = (range.len - 1) + spare l := by
  rw [spare_perm (perm_enqueue range l), spare_cons]

/-- The limit on cuts is the supply and two more for each range. -/
theorem cutBudget_eq (hne : ∀ range ∈ ranges, range.start < range.stop) :
    cutBudget ranges = spare ranges + 2 * ranges.length := by
  induction ranges with
  | nil => rfl
  | cons range rest ih =>
      obtain ⟨hr, hrest⟩ := List.forall_mem_cons.mp hne
      rw [cutBudget, spare_cons, ih hrest, List.length_cons, MarkRange.len]
      omega

end Spare

namespace Sweep

/-- What can still be cut: the ranges that wait and the open pieces. -/
def spare (sweep : Sweep) : Nat :=
  RichDoc.spare sweep.queue + RichDoc.spare (sweep.opened.map Piece.range)

/-- Something that waits starts with the piece, or before it, and is longer. -/
def exposed (queue : List MarkRange) (piece : Piece) : Bool :=
  queue.any fun range => decide (range.start ≤ piece.range.start) &&
    decide (piece.range.stop < range.stop)

/-- What pays for the cuts to come: twice what can be cut, and one for each exposed piece. -/
def credit (sweep : Sweep) : Nat :=
  2 * sweep.spare + sweep.opened.countP (exposed sweep.queue)

/-- The closed pieces that are empty. -/
def emptied (sweep : Sweep) : Nat := sweep.closed.countP fun piece => piece.range.isEmpty

variable {order : Nat → Nat → Ordering} {sweep next final : Sweep} {range : MarkRange}
  {queue queue' : List MarkRange} {opened : List Piece}

/-! ## Exposed pieces -/

theorem exposed_iff {piece : Piece} :
    exposed queue piece = true ↔
      ∃ range ∈ queue, range.start ≤ piece.range.start ∧ piece.range.stop < range.stop := by
  simp [exposed]

/-- Nothing that is visited after a range exposes the piece that it becomes. -/
theorem exposed_eq_false_of_first {n : Nat} (h : (range :: queue).Pairwise VisitedBefore) :
    exposed queue ⟨n, range⟩ = false := by
  refine Bool.eq_false_iff.mpr ?_
  intro hexposed
  obtain ⟨r, hr, hs, he⟩ := exposed_iff.mp hexposed
  exact Nat.not_le.mpr he (((List.pairwise_cons.mp h).1 r hr).stop_le hs)

/-- A piece that stays open is not exposed by a turn. -/
theorem exposed_of_turn (turn : Turn order sweep next) (h : sweep.Tidy) {piece : Piece}
    (hopen : piece ∈ sweep.opened) (hstill : piece ∈ next.opened)
    (hexposed : exposed next.queue piece = true) : exposed sweep.queue piece = true := by
  obtain ⟨r, hr, hs, he⟩ := exposed_iff.mp hexposed
  refine exposed_iff.mpr ⟨r, ?_, hs, he⟩
  cases turn with
  | enter fits => exact List.mem_cons_of_mem _ hr
  | leave ended => exact hr
  | trim outlives same =>
      exact List.mem_cons_of_mem _ (h.mem_of_mem_enqueue outlives.1 hr hopen hs)
  | yield outlives differ lower =>
      rcases List.mem_cons.mp hr with rfl | hr
      · exact List.mem_cons_self ..
      · rcases mem_enqueue.mp hr with rfl | hr
        · exact absurd ((List.pairwise_cons.mp h.nested).1 piece hstill).2 (Nat.not_le.mpr he)
        · exact List.mem_cons_of_mem _ hr
  | shorten outlives differ stays =>
      exact List.mem_cons_of_mem _ (h.mem_of_mem_enqueue outlives.1 hr hopen hs)

/-- Of the pieces that stay open, a turn leaves no more exposed than there were. -/
theorem countP_exposed_le (turn : Turn order sweep next) (h : sweep.Tidy) (kept : List Piece)
    (hopen : ∀ piece ∈ kept, piece ∈ sweep.opened) (hstill : ∀ piece ∈ kept, piece ∈ next.opened) :
    kept.countP (exposed next.queue) ≤ kept.countP (exposed sweep.queue) :=
  List.countP_mono_left fun piece hp => exposed_of_turn turn h (hopen piece hp) (hstill piece hp)

/-! ## What a turn pays -/

/-- Every cut is paid for, and nothing else earns. -/
theorem credit_turn (turn : Turn order sweep next) (h : sweep.Tidy) :
    next.resolutions + next.credit ≤ sweep.resolutions + sweep.credit := by
  have hcount := countP_exposed_le turn h
  cases turn with
  | @enter range queue opened closed n k fits =>
      have hnew := exposed_eq_false_of_first (n := n) h.sorted
      have hold := hcount _ (fun _ hp => hp) (fun _ hp => List.mem_cons_of_mem _ hp)
      simp only [credit, spare, spare_cons, List.map_cons, List.countP_cons, hnew,
        Bool.false_eq_true, if_false] at hold ⊢
      omega
  | @leave range queue top outer closed n k ended =>
      simp only [credit, spare, spare_cons, List.map_cons, List.countP_cons]
      omega
  | @trim range queue top outer closed n k outlives same =>
      have hold := hcount _ (fun _ hp => hp) (fun _ hp => hp)
      obtain ⟨hlt, houtlives⟩ := outlives
      simp only [credit, spare, spare_cons, spare_enqueue, List.map_cons, MarkRange.len] at hold ⊢
      omega
  | @yield range queue top outer closed n k outlives differ lower =>
      have hold := hcount _ (fun _ hp => List.mem_cons_of_mem _ hp) (fun _ hp => hp)
      have hstart := h.reached top (List.mem_cons_self ..) range (List.mem_cons_self ..)
      have htop : range.start ≤ top.range.start → exposed (range :: queue) top = true := fun hs =>
        exposed_iff.mpr ⟨range, List.mem_cons_self .., hs, outlives.2⟩
      obtain ⟨hlt, houtlives⟩ := outlives
      simp only [credit, spare, spare_cons, spare_enqueue, List.map_cons, List.countP_cons,
        MarkRange.len] at hold ⊢
      -- either the piece keeps a beginning, or it was exposed and is not open any more
      rcases Nat.lt_or_ge top.range.start range.start with hcut | hempty
      · omega
      · rw [if_pos (htop hempty)]
        omega
  | @shorten range queue top outer closed n k outlives differ stays =>
      have hold := hcount _ (fun _ hp => hp) (fun _ hp => List.mem_cons_of_mem _ hp)
      obtain ⟨hlt, houtlives⟩ := outlives
      simp only [credit, spare, spare_cons, spare_enqueue, List.map_cons, MarkRange.len] at hold ⊢
      rw [List.countP_cons]
      split <;> omega

/-- Every cut takes from the supply or leaves an empty piece. -/
theorem spare_turn (turn : Turn order sweep next) (h : sweep.Tidy) :
    next.resolutions + next.spare + sweep.emptied ≤
      sweep.resolutions + sweep.spare + next.emptied := by
  cases turn with
  | enter fits =>
      simp only [spare, spare_cons, emptied, List.map_cons]
      omega
  | leave ended =>
      simp only [spare, spare_cons, emptied, List.map_cons, List.countP_cons]
      omega
  | @trim range queue top outer closed n k outlives same =>
      obtain ⟨hlt, houtlives⟩ := outlives
      simp only [spare, spare_cons, spare_enqueue, emptied, List.map_cons, MarkRange.len]
      omega
  | @yield range queue top outer closed n k outlives differ lower =>
      have hstart := h.reached top (List.mem_cons_self ..) range (List.mem_cons_self ..)
      obtain ⟨hlt, houtlives⟩ := outlives
      simp only [spare, spare_cons, spare_enqueue, emptied, List.map_cons, List.countP_cons,
        MarkRange.len, MarkRange.isEmpty, decide_eq_true_eq]
      rcases Nat.lt_or_ge top.range.start range.start with hcut | hempty
      · omega
      · rw [if_pos hempty]
        omega
  | @shorten range queue top outer closed n k outlives differ stays =>
      obtain ⟨hlt, houtlives⟩ := outlives
      simp only [spare, spare_cons, spare_enqueue, emptied, List.map_cons, MarkRange.len]
      omega

/-! ## Whole sweeps -/

theorem resolutions_add_credit_le (turns : Turns order sweep final) (h : sweep.Tidy) :
    final.resolutions + final.credit ≤ sweep.resolutions + sweep.credit := by
  induction turns with
  | refl => exact Nat.le_refl _
  | head turn _ ih => exact Nat.le_trans (ih (h.turn turn)) (credit_turn turn h)

theorem resolutions_add_spare_le (turns : Turns order sweep final) (h : sweep.Tidy) :
    final.resolutions + final.spare + sweep.emptied ≤
      sweep.resolutions + sweep.spare + final.emptied := by
  induction turns with
  | refl => exact Nat.le_refl _
  | head turn _ ih =>
      have hstep := spare_turn turn h
      have hrest := ih (h.turn turn)
      omega

/-- With two cuts for each position that can be cut, nothing stops a sweep. -/
theorem exists_run_of_credit_le {budget : Nat} (h : sweep.Tidy)
    (hb : sweep.resolutions + sweep.credit ≤ budget) :
    ∃ final, sweep.run order budget = .ok final := by
  fun_induction run order budget sweep with
  | case1 sweep => exact ⟨sweep, rfl⟩
  | case2 sweep cause hs =>
      obtain ⟨hused, next, turn, hnext⟩ := turn_of_step_diverged hs
      have hpaid := credit_turn turn h
      omega
  | case3 sweep next hs _ ih =>
      have turn := (turn_of_step hs).1
      exact ih (h.turn turn) (Nat.le_trans (credit_turn turn h) hb)

/-- An open piece is never empty, so the empty pieces are closed ones. -/
theorem emptied_le_countP_pieces (sweep : Sweep) :
    sweep.emptied ≤ sweep.pieces.countP MarkRange.isEmpty := by
  rw [(perm_pieces sweep).countP_eq, List.countP_map, List.countP_append]
  exact Nat.le_add_right _ _

/-- A sweep starts with two cuts to spend for each position that can be cut. -/
theorem credit_ofRanges (ranges : List MarkRange) :
    (ofRanges ranges).spare = RichDoc.spare ranges ∧
      (ofRanges ranges).credit = 2 * RichDoc.spare ranges := by
  have hspare : (ofRanges ranges).spare = RichDoc.spare ranges :=
    spare_perm (perm_queue_ofRanges ranges)
  refine ⟨hspare, ?_⟩
  rw [credit, hspare]
  rfl

end Sweep

/-- **When an untangling is stopped.** Left alone, a sweep always comes to the end of its queue,
whatever the order of marks is, with at most two cuts for each position that can be cut, and with
at most one for each and one more for each empty piece that it leaves. The untangling is that
sweep if its cuts are within the limit, and otherwise there is none. -/
theorem untangle_eq_ok_iff_resolutions_le {order : Nat → Nat → Ordering}
    {ranges : List MarkRange} (hne : ∀ range ∈ ranges, range.start < range.stop) :
    ∃ final, Turns order (Sweep.ofRanges ranges) final ∧ final.queue = [] ∧
      final.resolutions ≤ 2 * spare ranges ∧
      final.resolutions ≤ spare ranges + final.pieces.countP MarkRange.isEmpty ∧
      ∀ out, untangle order ranges = .ok out ↔
        final.resolutions ≤ cutBudget ranges ∧ out = sortForOpening order final.pieces := by
  have htidy := Sweep.tidy_ofRanges hne
  obtain ⟨hspare, hcredit⟩ := Sweep.credit_ofRanges ranges
  obtain ⟨final, hrun⟩ := @Sweep.exists_run_of_credit_le order _ _ htidy (Nat.le_refl _)
  obtain ⟨turns, hq⟩ := Sweep.turns_of_run hrun
  refine ⟨final, turns, hq, ?_, ?_, fun out => ⟨fun hout => ?_, fun ⟨hle, hout⟩ => ?_⟩⟩
  · have hpaid := Sweep.resolutions_add_credit_le turns htidy
    rw [hcredit] at hpaid
    exact Nat.le_trans (Nat.le_add_right _ _) (Nat.le_trans hpaid (Nat.le_of_eq (Nat.zero_add _)))
  · have hpaid := Sweep.resolutions_add_spare_le turns htidy
    have hempty := Sweep.emptied_le_countP_pieces final
    have hzero : (Sweep.ofRanges ranges).resolutions = 0 := rfl
    omega
  · unfold untangle at hout
    cases hlimited : (Sweep.ofRanges ranges).run order (cutBudget ranges) with
    | error cause => rw [hlimited] at hout; cases hout
    | ok final' =>
        rw [hlimited] at hout
        cases hout
        obtain ⟨turns', hq'⟩ := Sweep.turns_of_run hlimited
        obtain rfl := Sweep.final_unique turns hq turns' hq'
        exact ⟨Sweep.resolutions_le_of_run hlimited (Nat.zero_le _), rfl⟩
  · rw [untangle, Sweep.run_of_turns turns hq hle, hout]
    rfl

/-- Ten ranges under a strict order of their marks need more cuts than the limit allows. -/
theorem untangle_eq_ok_iff_resolutions_le_ten :
    let order : Nat → Nat → Ordering := fun a b =>
      compare [9, 4, 7, 8, 2, 0, 3, 1, 5, 6][a]! [9, 4, 7, 8, 2, 0, 3, 1, 5, 6][b]!
    let ranges : List MarkRange :=
      [⟨0, 3, 5, 0⟩, ⟨1, 1, 6, 0⟩, ⟨2, 1, 3, 0⟩, ⟨3, 2, 4, 0⟩, ⟨4, 1, 6, 0⟩,
        ⟨5, 2, 6, 0⟩, ⟨6, 1, 6, 0⟩, ⟨7, 1, 6, 0⟩, ⟨8, 1, 6, 0⟩, ⟨9, 0, 2, 0⟩]
    untangle order ranges = .error ⟨47, 56⟩ ∧
      ∃ final, Turns order (Sweep.ofRanges ranges) final ∧ final.queue = [] ∧
        cutBudget ranges < final.resolutions ∧
        2 * ranges.length < final.pieces.countP MarkRange.isEmpty := by
  intro order ranges
  have hstopped : untangle order ranges = .error ⟨47, 56⟩ := by cbv
  have hne : ∀ range ∈ ranges, range.start < range.stop := by decide
  obtain ⟨final, turns, hq, -, hempty, hok⟩ := @untangle_eq_ok_iff_resolutions_le order _ hne
  have hlt : cutBudget ranges < final.resolutions := by
    by_contra hle
    have hout := (hok _).mpr ⟨Nat.not_lt.mp hle, rfl⟩
    rw [hstopped] at hout
    cases hout
  have hbudget := cutBudget_eq hne
  exact ⟨hstopped, final, turns, hq, hlt, by omega⟩

end RichDoc
