import RichDoc.Proofs.Range.Order

/-!
# The turns of a sweep

`Sweep.step` is a function with a limit on the cuts. Proofs want to know
what one step can do, and that is a relation without a limit: five kinds
of turn, each with the states it leads from and to. A sweep that is not
stopped by its limit is a chain of turns (`Sweep.turns_of_run`), and a
chain of turns that reaches the end of the queue is what the sweep does
under every limit that is high enough (`Sweep.run_of_turns`).
-/

namespace RichDoc

/-- The range fits into the innermost open piece, if there is one. -/
def Fits (range : MarkRange) (opened : List Piece) : Prop :=
  ∀ top ∈ opened.head?, range.start < top.range.stop ∧ range.stop ≤ top.range.stop

/-- The range starts inside the innermost open piece and outlives it. -/
def Outlives (range : MarkRange) (top : Piece) : Prop :=
  range.start < top.range.stop ∧ top.range.stop < range.stop

/-- What one step can do, whatever the limit on cuts is. -/
inductive Turn (order : Nat → Nat → Ordering) : Sweep → Sweep → Prop where
  /-- The next range is opened as it is. -/
  | enter {range queue opened closed n k} (fits : Fits range opened) :
      Turn order ⟨range :: queue, opened, closed, n, k⟩
        ⟨queue, ⟨n, range⟩ :: opened, closed, n + 1, k⟩
  /-- The innermost open piece has ended. -/
  | leave {range queue top outer closed n k} (ended : top.range.stop ≤ range.start) :
      Turn order ⟨range :: queue, top :: outer, closed, n, k⟩
        ⟨range :: queue, outer, top :: closed, n, k⟩
  /-- The next range has the mark of the open piece and loses what that covers. -/
  | trim {range queue top outer closed n k} (outlives : Outlives range top)
      (same : top.range.mark = range.mark) :
      Turn order ⟨range :: queue, top :: outer, closed, n, k⟩
        ⟨enqueue { range with start := top.range.stop } queue, top :: outer, closed, n, k + 1⟩
  /-- The open piece has the lower mark and ends where the next range starts. -/
  | yield {range queue top outer closed n k} (outlives : Outlives range top)
      (differ : top.range.mark ≠ range.mark)
      (lower : order top.range.mark range.mark = .lt) :
      Turn order ⟨range :: queue, top :: outer, closed, n, k⟩
        ⟨range :: enqueue { top.range with start := range.start } queue, outer,
          { top with range.stop := range.start } :: closed, n, k + 1⟩
  /-- The open piece stays, and the next range is opened up to its end. -/
  | shorten {range queue top outer closed n k} (outlives : Outlives range top)
      (differ : top.range.mark ≠ range.mark)
      (stays : order top.range.mark range.mark ≠ .lt) :
      Turn order ⟨range :: queue, top :: outer, closed, n, k⟩
        ⟨enqueue { range with start := top.range.stop } queue,
          ⟨n, { range with stop := top.range.stop }⟩ :: top :: outer, closed, n + 1, k + 1⟩

/-- Any number of turns. -/
inductive Turns (order : Nat → Nat → Ordering) : Sweep → Sweep → Prop where
  | refl {sweep} : Turns order sweep sweep
  | head {sweep next final} (turn : Turn order sweep next) (rest : Turns order next final) :
      Turns order sweep final

variable {order : Nat → Nat → Ordering} {sweep next final : Sweep}

/-- What every turn keeps, a sweep keeps. -/
theorem Turns.keep {I : Sweep → Prop} (step : ∀ {s t}, Turn order s t → I s → I t)
    (turns : Turns order sweep final) (h : I sweep) : I final := by
  induction turns with
  | refl => exact h
  | head turn _ ih => exact ih (step turn h)

/-! ## Steps are turns -/

namespace Sweep

theorem turn_resolve {range : MarkRange} {queue : List MarkRange} {top : Piece}
    {outer closed : List Piece} {n k : Nat} (h : Outlives range top) :
    Turn order ⟨range :: queue, top :: outer, closed, n, k⟩
      (resolve ⟨range :: queue, top :: outer, closed, n, k⟩ order top outer range queue) := by
  unfold resolve
  split
  · next same => exact .trim h same
  · next differ =>
    split
    · next lower => exact .yield h differ lower
    · next stays => exact .shorten h differ stays

@[simp]
theorem resolutions_resolve (range : MarkRange) (queue : List MarkRange) (top : Piece)
    (outer : List Piece) :
    (sweep.resolve order top outer range queue).resolutions = sweep.resolutions + 1 := by
  unfold resolve
  split
  · rfl
  · split <;> rfl

/-- What a step does is a turn, and its cut, if it makes one, is within the limit. -/
theorem turn_of_step {budget : Nat} (h : sweep.step order budget = .next next) :
    Turn order sweep next ∧ next.resolutions ≤ max sweep.resolutions budget := by
  obtain ⟨queue, opened, closed, n, k⟩ := sweep
  unfold step at h
  split at h
  · cases h
  · next range queue hq ho =>
    cases hq; cases ho; cases h
    exact ⟨.enter fun _ h => by simp at h, Nat.le_max_left _ _⟩
  · next range queue top outer hq ho =>
    cases hq; cases ho
    split at h
    · next ended => cases h; exact ⟨.leave ended, Nat.le_max_left _ _⟩
    · next ended =>
      split at h
      · next fits =>
        cases h
        refine ⟨.enter fun _ ht => ?_, Nat.le_max_left _ _⟩
        obtain rfl := Option.some.inj ht
        exact ⟨Nat.not_le.mp ended, fits⟩
      · next fits =>
        split at h
        · cases h
        · next hb =>
          cases h
          refine ⟨turn_resolve ⟨Nat.not_le.mp ended, Nat.not_le.mp fits⟩, ?_⟩
          rw [resolutions_resolve]
          exact Nat.le_trans (Nat.not_le.mp hb) (Nat.le_max_right _ _)

/-- A turn is taken as long as the limit is above the cuts that come after it. -/
theorem step_of_turn {budget : Nat} (turn : Turn order sweep next)
    (h : next.resolutions ≤ budget) : sweep.step order budget = .next next := by
  cases turn with
  | @enter range queue opened closed n k fits =>
      cases opened with
      | nil => rfl
      | cons top outer =>
          obtain ⟨hlt, hle⟩ := fits top rfl
          simp only [step, Nat.not_le.mpr hlt, hle, if_true, if_false]
          rfl
  | leave ended => simp only [step, ended, if_true]; rfl
  | trim outlives same =>
      have hb := Nat.not_le.mpr (Nat.lt_of_succ_le h)
      simp only [step, Nat.not_le.mpr outlives.1, Nat.not_le.mpr outlives.2, hb, if_false]
      rw [resolve, if_pos same]
  | yield outlives differ lower =>
      have hb := Nat.not_le.mpr (Nat.lt_of_succ_le h)
      simp only [step, Nat.not_le.mpr outlives.1, Nat.not_le.mpr outlives.2, hb, if_false]
      rw [resolve, if_neg differ, if_pos lower]
  | shorten outlives differ stays =>
      have hb := Nat.not_le.mpr (Nat.lt_of_succ_le h)
      simp only [step, Nat.not_le.mpr outlives.1, Nat.not_le.mpr outlives.2, hb, if_false]
      rw [resolve, if_neg differ, if_neg stays]
      rfl

theorem step_eq_finished {budget : Nat} :
    sweep.step order budget = .finished ↔ sweep.queue = [] := by
  unfold step
  split
  · next hq => simp [hq]
  · next hq _ => simp [hq]
  · next hq _ =>
    simp only [hq, reduceCtorEq, iff_false]
    split
    · simp
    · split
      · simp
      · split <;> simp

/-- A sweep is stopped only before a cut, and only when all cuts are used up. -/
theorem turn_of_step_diverged {budget : Nat} {cause : Diverged}
    (h : sweep.step order budget = .diverged cause) :
    budget ≤ sweep.resolutions ∧
      ∃ next, Turn order sweep next ∧ next.resolutions = sweep.resolutions + 1 := by
  obtain ⟨queue, opened, closed, n, k⟩ := sweep
  unfold step at h
  split at h
  · cases h
  · cases h
  · next range queue top outer hq ho =>
    cases hq; cases ho
    split at h
    · cases h
    · next ended =>
      split at h
      · cases h
      · next fits =>
        split at h
        · next hb =>
          exact ⟨hb, _, turn_resolve ⟨Nat.not_le.mp ended, Nat.not_le.mp fits⟩,
            resolutions_resolve ..⟩
        · cases h

/-! ## Sweeps are chains of turns -/

theorem turns_of_run {budget : Nat} (h : sweep.run order budget = .ok final) :
    Turns order sweep final ∧ final.queue = [] := by
  fun_induction run order budget sweep with
  | case1 sweep hs =>
      cases h
      exact ⟨.refl, step_eq_finished.mp hs⟩
  | case2 => cases h
  | case3 sweep next hs _ ih =>
      obtain ⟨turns, hq⟩ := ih h
      exact ⟨.head (turn_of_step hs).1 turns, hq⟩

/-- No turn takes a cut back. -/
theorem resolutions_le_of_turn (turn : Turn order sweep next) :
    sweep.resolutions ≤ next.resolutions := by
  cases turn <;> simp

theorem resolutions_le (turns : Turns order sweep final) :
    sweep.resolutions ≤ final.resolutions := by
  induction turns with
  | refl => exact Nat.le_refl _
  | head turn _ ih => exact Nat.le_trans (resolutions_le_of_turn turn) ih

theorem run_of_turns {budget : Nat} (turns : Turns order sweep final) (hq : final.queue = [])
    (h : final.resolutions ≤ budget) : sweep.run order budget = .ok final := by
  induction turns with
  | @refl sweep =>
      have hs : sweep.step order budget = .finished := step_eq_finished.mpr hq
      rw [run]
      split <;> simp_all
  | @head sweep next final turn rest ih =>
      have hs := step_of_turn turn (Nat.le_trans (resolutions_le rest) h)
      rw [run]
      split <;> simp_all

/-- The end of a sweep does not depend on the limit. -/
theorem final_unique {final' : Sweep} (turns : Turns order sweep final) (hq : final.queue = [])
    (turns' : Turns order sweep final') (hq' : final'.queue = []) : final = final' := by
  have h := run_of_turns turns hq (Nat.le_max_left _ final'.resolutions)
  have h' := run_of_turns turns' hq' (Nat.le_max_right final.resolutions _)
  rw [h] at h'
  exact Except.ok.inj h'

theorem resolutions_le_of_run {budget : Nat} (h : sweep.run order budget = .ok final)
    (hb : sweep.resolutions ≤ budget) : final.resolutions ≤ budget := by
  fun_induction run order budget sweep with
  | case1 =>
      cases h
      exact hb
  | case2 => cases h
  | case3 sweep next hs _ ih =>
      have hstep := (turn_of_step hs).2
      exact ih h (Nat.le_trans hstep (Nat.max_le.mpr ⟨hb, Nat.le_refl _⟩))

end Sweep

end RichDoc
