import RichDoc.Export.Collect
import RichDoc.Proofs.Range.Coverage

/-!
# What collected ranges cover

Which marks a leaf of the row has can be said without any ranges
(`applied`): a leaf of a run has the marks of the run, and the leaf of a
breakpoint those that the nearest runs on both sides have in common, where
runs without leaves do not count. The ranges that are collected cover
every position with exactly these marks, each once.

The breakpoints behind the last run are not decided yet while the runs
are collected, so the proof looks at two positions: where the row is and
where the last run ended (`Collected`).
-/

namespace RichDoc

/-! ## The marks of the leaves -/

/-- The marks of the first run that has leaves. -/
def nextMarks : List Contribution → List Nat
  | [] => []
  | .breakpoint _ :: rest => nextMarks rest
  | .run chunks marks :: rest => if chunks.isEmpty then nextMarks rest else marks

/-- The marks of every leaf, given those of the nearest run before. -/
def appliedFrom (last : List Nat) : List Contribution → List (List Nat)
  | [] => []
  | .breakpoint _ :: rest =>
    last.filter (fun mark => decide (mark ∈ nextMarks rest)) :: appliedFrom last rest
  | .run chunks marks :: rest =>
    List.replicate chunks.length marks
      ++ appliedFrom (if chunks.isEmpty then last else marks) rest

/-- The marks of every leaf of the row. -/
def applied (contributions : List Contribution) : List (List Nat) := appliedFrom [] contributions

/-- The marks of a run, which a breakpoint has none of. -/
def Contribution.marks : Contribution → List Nat
  | .breakpoint _ => []
  | .run _ marks => marks

theorem length_appliedFrom (last : List Nat) (contributions : List Contribution) :
    (appliedFrom last contributions).length =
      (contributions.flatMap Contribution.chunks).length := by
  induction contributions generalizing last with
  | nil => rfl
  | cons contribution rest ih =>
      cases contribution with
      | breakpoint chunk => simp [appliedFrom, Contribution.chunks, ih]
      | run chunks marks => simp [appliedFrom, Contribution.chunks, ih]

theorem length_applied (contributions : List Contribution) :
    (applied contributions).length = (contributions.flatMap Contribution.chunks).length :=
  length_appliedFrom [] contributions

/-- No leaf has a mark that no run has. -/
theorem exists_of_mem_appliedFrom {last marks : List Nat} {contributions : List Contribution}
    (h : marks ∈ appliedFrom last contributions) {mark : Nat} (hm : mark ∈ marks) :
    mark ∈ last ∨ ∃ contribution ∈ contributions, mark ∈ contribution.marks := by
  induction contributions generalizing last with
  | nil => cases h
  | cons contribution rest ih =>
      have hlater {next : List Nat} (hnext : mark ∈ next → mark ∈ last ∨ mark ∈ contribution.marks)
          (h : marks ∈ appliedFrom next rest) :
          mark ∈ last ∨ ∃ c ∈ contribution :: rest, mark ∈ c.marks := by
        rcases ih h with hin | ⟨c, hc, hin⟩
        · rcases hnext hin with hin | hin
          · exact .inl hin
          · exact .inr ⟨contribution, List.mem_cons_self .., hin⟩
        · exact .inr ⟨c, List.mem_cons_of_mem _ hc, hin⟩
      cases contribution with
      | breakpoint chunk =>
          rcases List.mem_cons.mp h with rfl | h
          · exact .inl (List.mem_filter.mp hm).1
          · exact hlater .inl h
      | run chunks own =>
          rcases List.mem_append.mp h with h | h
          · obtain rfl := List.eq_of_mem_replicate h
            exact .inr ⟨_, List.mem_cons_self .., hm⟩
          · refine hlater (fun hin => ?_) h
            split at hin
            · exact .inl hin
            · exact .inr hin

theorem nodup_of_mem_appliedFrom {last marks : List Nat} {contributions : List Contribution}
    (hlast : last.Nodup) (hnodup : ∀ contribution ∈ contributions, contribution.marks.Nodup)
    (h : marks ∈ appliedFrom last contributions) : marks.Nodup := by
  induction contributions generalizing last with
  | nil => cases h
  | cons contribution rest ih =>
      obtain ⟨hown, hrest⟩ := List.forall_mem_cons.mp hnodup
      cases contribution with
      | breakpoint chunk =>
          rcases List.mem_cons.mp h with rfl | h
          · exact hlast.filter _
          · exact ih hlast hrest h
      | run chunks own =>
          rcases List.mem_append.mp h with h | h
          · obtain rfl := List.eq_of_mem_replicate h
            exact hown
          · refine ih ?_ hrest h
            split
            · exact hlast
            · exact hown

/-! ## The runs so far -/

/-- How many runs with the mark may still become longer. -/
def openRuns (mark : Nat) (runs : List Run) : Nat :=
  runs.countP fun run => run.isOpen && run.range.mark == mark

/-- How often the runs cover a position with a mark. -/
def covered (mark position : Nat) (runs : List Run) : Nat :=
  coverings (ofMark mark) position (runs.map Run.range)

/-- The runs after a row whose last run ended at `edge` and had certain marks. -/
structure Collected (edge : Nat) (last : List Nat) (runs : List Run) : Prop where
  nonempty : ∀ run ∈ runs, run.range.start < run.range.stop
  passed : ∀ run ∈ runs, run.range.stop ≤ edge
  reaching : ∀ run ∈ runs, run.isOpen = true → run.range.stop = edge
  current : ∀ mark, openRuns mark runs = last.count mark

section Follow

variable {edge start stop position mark : Nat} {last marks : List Nat} {runs : List Run} {run : Run}

/-- A run that was open reaches the new end if its mark goes on. -/
theorem covers_follow (hrun : run.range.start < run.range.stop)
    (hreach : run.isOpen = true → run.range.stop = edge) (hp : position < stop) :
    (run.follow marks stop).range.Covers position ↔
      run.range.Covers position ∨
        edge ≤ position ∧ run.isOpen = true ∧ run.range.mark ∈ marks := by
  unfold Run.follow MarkRange.Covers
  by_cases hopen : run.isOpen = true
  · by_cases hin : run.range.mark ∈ marks
    · have := hreach hopen
      rw [if_pos hopen, if_pos hin]
      simp only [hopen, hin, and_self, and_true]
      omega
    · rw [if_pos hopen, if_neg hin]
      simp [hin]
  · rw [if_neg hopen]
    simp [hopen]

theorem mark_follow (run : Run) : (run.follow marks stop).range.mark = run.range.mark := by
  unfold Run.follow
  split
  · split <;> rfl
  · rfl

theorem isOpen_follow (run : Run) :
    (run.follow marks stop).isOpen = (run.isOpen && decide (run.range.mark ∈ marks)) := by
  unfold Run.follow
  split
  · split <;> simp_all
  · simp_all

namespace Collected

theorem covered_map_before (h : Collected edge last runs) (he : edge ≤ start) (hs : start < stop)
    (hp : position < edge) :
    covered mark position (runs.map (Run.follow marks stop)) = covered mark position runs := by
  unfold covered coverings
  rw [List.map_map, List.countP_map, List.countP_map]
  refine List.countP_congr ?_
  intro run hr
  have hlt : position < stop := by omega
  have hcovers := @covers_follow _ _ _ marks run (h.nonempty run hr) (h.reaching run hr) hlt
  simp only [Function.comp_apply, ofMark, mark_follow, Bool.and_eq_true, decide_eq_true_eq]
  rw [hcovers]
  have : ¬ edge ≤ position := by omega
  simp [this]

theorem openRuns_map (runs : List Run) :
    openRuns mark (runs.map (Run.follow marks stop)) =
      if mark ∈ marks then openRuns mark runs else 0 := by
  unfold openRuns
  rw [List.countP_map]
  split
  · next hin =>
    refine List.countP_congr ?_
    intro run _
    simp only [Function.comp_apply, isOpen_follow, mark_follow, Bool.and_eq_true, beq_iff_eq,
      decide_eq_true_eq]
    constructor
    · rintro ⟨⟨hopen, -⟩, hmark⟩
      exact ⟨hopen, hmark⟩
    · rintro ⟨hopen, rfl⟩
      exact ⟨⟨hopen, hin⟩, rfl⟩
  · next hin =>
    refine List.countP_eq_zero.mpr ?_
    intro run _
    simp only [Function.comp_apply, isOpen_follow, mark_follow, Bool.and_eq_true, beq_iff_eq,
      decide_eq_true_eq]
    rintro ⟨⟨-, hmem⟩, rfl⟩
    exact hin hmem

/-- Behind the last run, the runs that go on cover what their marks are on. -/
theorem covered_map_behind (h : Collected edge last runs) (hp : edge ≤ position)
    (hlt : position < stop) :
    covered mark position (runs.map (Run.follow marks stop)) =
      if mark ∈ marks then last.count mark else 0 := by
  rw [← h.current, ← @openRuns_map stop]
  unfold covered coverings openRuns
  rw [List.map_map, List.countP_map, List.countP_map]
  refine List.countP_congr ?_
  intro run hr
  have hcovers := @covers_follow _ _ _ marks run (h.nonempty run hr) (h.reaching run hr) hlt
  have hnot : ¬ run.range.Covers position := fun hc => by
    have := h.passed run hr
    have := hc.2
    omega
  simp only [Function.comp_apply, ofMark, mark_follow, isOpen_follow, Bool.and_eq_true,
    decide_eq_true_eq, beq_iff_eq]
  rw [hcovers]
  simp only [hnot, hp, true_and, false_or]
  exact and_comm

/-- The marks that start a run. -/
theorem count_fresh (h : Collected edge last runs) (mark : Nat) :
    (marks.filter fun mark =>
      !runs.any fun run => run.isOpen && run.range.mark == mark).count mark =
        if mark ∈ last then 0 else marks.count mark := by
  have hany (mark : Nat) :
      (runs.any fun run => run.isOpen && run.range.mark == mark) = true ↔ mark ∈ last := by
    rw [List.any_eq_true, ← List.countP_pos_iff, ← List.count_pos_iff, ← h.current mark]
    rfl
  split
  · next hin =>
    refine List.count_eq_zero_of_not_mem ?_
    intro hmem
    have hnot := (List.mem_filter.mp hmem).2
    rw [(hany mark).mpr hin] at hnot
    cases hnot
  · next hin =>
    refine List.count_filter ?_
    rw [Bool.not_eq_true', Bool.eq_false_iff]
    exact fun hcon => hin ((hany mark).mp hcon)

end Collected

/-- What goes on and what starts is together what the new run has. -/
theorem count_carried_add_count_fresh (hlast : last.Nodup) (hmarks : marks.Nodup) (mark : Nat) :
    (if mark ∈ marks then last.count mark else 0) + (if mark ∈ last then 0 else marks.count mark) =
      marks.count mark := by
  rw [hlast.count, hmarks.count]
  by_cases hm : mark ∈ marks
  · by_cases hl : mark ∈ last
    · simp [hm, hl]
    · simp [hm, hl]
  · simp [hm]

/-- Asking the runs that start is asking their marks. -/
theorem countP_fresh (fresh : List Nat) (first : Nat) (asks : Run → Bool) (asked : Nat → Bool)
    (hasks : ∀ mark origin, asks ⟨⟨mark, start, stop, origin⟩, true⟩ = asked mark) :
    ((fresh.zipIdx first).map fun (mark, origin) =>
      (⟨⟨mark, start, stop, origin⟩, true⟩ : Run)).countP asks = fresh.countP asked := by
  rw [List.countP_map]
  conv_rhs => rw [← List.zipIdx_map_fst first fresh, List.countP_map]
  exact List.countP_congr fun ⟨mark, origin⟩ _ => by
    simp only [Function.comp_apply, hasks]

theorem covered_append (runs more : List Run) :
    covered mark position (runs ++ more) =
      covered mark position runs + covered mark position more := by
  simp [covered, coverings]

theorem covered_eq_countP (runs : List Run) :
    covered mark position runs =
      runs.countP fun run => run.range.mark == mark && decide (run.range.Covers position) := by
  unfold covered coverings
  rw [List.countP_map]
  rfl

namespace Collected

theorem openRuns_follow (h : Collected edge last runs) (hlast : last.Nodup) (hmarks : marks.Nodup)
    (mark : Nat) : openRuns mark (follow marks start stop runs) = marks.count mark := by
  have hold : openRuns mark (runs.map (Run.follow marks stop)) =
      if mark ∈ marks then last.count mark else 0 := by
    rw [openRuns_map, h.current]
  rw [← count_carried_add_count_fresh hlast hmarks mark, ← hold, ← h.count_fresh mark]
  unfold RichDoc.follow openRuns
  rw [List.countP_append, countP_fresh _ _ _ (· == mark) fun _ _ => rfl]
  rfl

/-- What the runs cover after one more: as before up to the last run, what goes on over the
breakpoints, and the marks of the new run from its start. -/
theorem covered_follow (h : Collected edge last runs) (hlast : last.Nodup) (hmarks : marks.Nodup)
    (he : edge ≤ start) (hs : start < stop) (hp : position < stop) (mark : Nat) :
    covered mark position (follow marks start stop runs) =
      if position < edge then covered mark position runs
      else if position < start then (last.filter fun mark => decide (mark ∈ marks)).count mark
      else marks.count mark := by
  have hfresh : covered mark position (follow marks start stop runs) =
      covered mark position (runs.map (Run.follow marks stop)) +
        if position < start then 0 else if mark ∈ last then 0 else marks.count mark := by
    rw [← h.count_fresh mark]
    unfold RichDoc.follow
    rw [covered_append]
    congr 1
    rw [covered_eq_countP]
    by_cases hlt : position < start
    · have hnot : ¬ (start ≤ position ∧ position < stop) := by omega
      rw [countP_fresh _ _ _ (fun _ => false) fun _ _ => by simp [MarkRange.Covers, hnot]]
      simp [hlt]
    · have hin : start ≤ position ∧ position < stop := by omega
      rw [countP_fresh _ _ _ (· == mark) fun _ _ => by simp [MarkRange.Covers, hin]]
      rw [if_neg hlt]
      rfl
  rw [hfresh]
  by_cases hb : position < edge
  · have hlt : position < start := by omega
    rw [if_pos hb, if_pos hlt, h.covered_map_before he hs hb, Nat.add_zero]
  · rw [if_neg hb, h.covered_map_behind (by omega) hp]
    by_cases hlt : position < start
    · rw [if_pos hlt, if_pos hlt, Nat.add_zero]
      split
      · next hin => exact (List.count_filter (by simpa using hin)).symm
      · next hin =>
        refine (List.count_eq_zero_of_not_mem fun hmem => ?_).symm
        exact hin (of_decide_eq_true (List.mem_filter.mp hmem).2)
    · rw [if_neg hlt, if_neg hlt, count_carried_add_count_fresh hlast hmarks]

/-- One more run is collected. -/
theorem step (h : Collected edge last runs) (hlast : last.Nodup) (hmarks : marks.Nodup)
    (he : edge ≤ start) (hs : start < stop) :
    Collected stop marks (follow marks start stop runs) := by
  have hforall {P : Run → Prop} (hold : ∀ run ∈ runs, P (run.follow marks stop))
      (hnew : ∀ mark origin, P ⟨⟨mark, start, stop, origin⟩, true⟩) :
      ∀ run ∈ follow marks start stop runs, P run := by
    intro run hr
    rcases List.mem_append.mp hr with hr | hr
    · obtain ⟨old, hold', rfl⟩ := List.mem_map.mp hr
      exact hold old hold'
    · obtain ⟨⟨mark, origin⟩, -, rfl⟩ := List.mem_map.mp hr
      exact hnew mark origin
  refine ⟨hforall (fun run hr => ?_) fun _ _ => hs, hforall (fun run hr => ?_) fun _ _ => le_rfl,
    hforall (fun run hr => ?_) fun _ _ _ => rfl, h.openRuns_follow hlast hmarks⟩
  · have := h.nonempty run hr
    have := h.passed run hr
    unfold Run.follow
    split
    · split
      · dsimp only
        omega
      · assumption
    · assumption
  · have := h.passed run hr
    unfold Run.follow
    split
    · split
      · exact le_rfl
      · dsimp only
        omega
    · omega
  · unfold Run.follow
    split
    · split
      · exact fun _ => rfl
      · intro hopen
        cases hopen
    · next hclosed => exact fun hopen => absurd hopen hclosed

end Collected

/-! ## The whole row -/

variable {contributions : List Contribution}

/-- The marks of the positions from `edge` on, the first of which hold breakpoints. -/
def marksFrom (edge start : Nat) (last : List Nat) (contributions : List Contribution) :
    List (List Nat) :=
  List.replicate (start - edge)
      (last.filter fun mark => decide (mark ∈ nextMarks contributions))
    ++ appliedFrom last contributions

theorem marksFrom_breakpoint (he : edge ≤ start) (chunk : Chunk) :
    marksFrom edge start last (.breakpoint chunk :: contributions) =
      marksFrom edge (start + 1) last contributions := by
  have hsucc : start + 1 - edge = start - edge + 1 := by omega
  unfold marksFrom
  rw [hsucc, List.replicate_succ', List.append_assoc]
  rfl

theorem getElem?_marksFrom_run {chunks : List Chunk} (hc : chunks.isEmpty = false)
    (he : edge ≤ start) (hp : edge ≤ position) :
    (marksFrom edge start last (.run chunks marks :: contributions))[position - edge]? =
      if position < start then some (last.filter fun mark => decide (mark ∈ marks))
      else if position < start + chunks.length then some marks
      else (appliedFrom marks contributions)[position - (start + chunks.length)]? := by
  unfold marksFrom
  simp only [nextMarks, appliedFrom, hc, Bool.false_eq_true, if_false]
  rw [List.getElem?_append, List.length_replicate, List.getElem?_replicate]
  by_cases hlt : position < start
  · have : position - edge < start - edge := by omega
    simp [hlt, this]
  · have : ¬ position - edge < start - edge := by omega
    rw [if_neg this, if_neg hlt, List.getElem?_append, List.length_replicate,
      List.getElem?_replicate]
    by_cases hin : position < start + chunks.length
    · have : position - edge - (start - edge) < chunks.length := by omega
      simp [hin, this]
    · have : ¬ position - edge - (start - edge) < chunks.length := by omega
      rw [if_neg this, if_neg hin]
      congr 1
      omega

/-- What all runs cover in the end: up to the last run so far what they cover already, and behind
it the marks of the leaves. -/
theorem covered_runsFrom (h : Collected edge last runs) (hlast : last.Nodup)
    (hnodup : ∀ contribution ∈ contributions, contribution.marks.Nodup) (he : edge ≤ start)
    (mark position : Nat) :
    covered mark position (runsFrom start runs contributions) =
      if position < edge then covered mark position runs
      else ((marksFrom edge start last contributions)[position - edge]?.getD []).count mark := by
  induction contributions generalizing edge start last runs with
  | nil =>
      split
      · rfl
      · next hb =>
        have hnone : covered mark position runs = 0 := by
          rw [covered_eq_countP]
          refine List.countP_eq_zero.mpr ?_
          intro run hr
          have hpassed := h.passed run hr
          rw [Bool.and_eq_true, decide_eq_true_eq]
          rintro ⟨-, hcovers⟩
          have := hcovers.2
          omega
        have hnil : marksFrom edge start last [] = List.replicate (start - edge) [] := by
          simp [marksFrom, nextMarks, appliedFrom]
        rw [runsFrom, hnone, hnil, List.getElem?_replicate]
        split <;> rfl
  | cons contribution rest ih =>
      obtain ⟨hown, hrest⟩ := List.forall_mem_cons.mp hnodup
      cases contribution with
      | breakpoint chunk =>
          rw [runsFrom, ih h hlast hrest (Nat.le_succ_of_le he), marksFrom_breakpoint he]
      | run chunks own =>
          have hown : own.Nodup := hown
          rw [runsFrom]
          cases hc : chunks.isEmpty with
          | true =>
              have hnil : chunks = [] := List.isEmpty_iff.mp hc
              subst hnil
              exact ih h hlast hrest he
          | false =>
              have hs : start < start + chunks.length := by
                have := List.length_pos_iff.mpr (List.isEmpty_eq_false_iff.mp hc)
                omega
              rw [if_neg (by simp), ih (h.step hlast hown he hs) hown hrest le_rfl]
              by_cases hp : position < start + chunks.length
              · rw [if_pos hp, h.covered_follow hlast hown he hs hp]
                by_cases hb : position < edge
                · rw [if_pos hb, if_pos hb]
                · rw [if_neg hb, if_neg hb, getElem?_marksFrom_run hc he (by omega)]
                  by_cases hlt : position < start
                  · rw [if_pos hlt, if_pos hlt, Option.getD_some]
                  · rw [if_neg hlt, if_neg hlt, if_pos hp, Option.getD_some]
              · have hb : ¬ position < edge := by omega
                have hlt : ¬ position < start := by omega
                rw [if_neg hp, if_neg hb, getElem?_marksFrom_run hc he (by omega), if_neg hlt,
                  if_neg hp]
                simp [marksFrom]

theorem collected_runsFrom (h : Collected edge last runs) (hlast : last.Nodup)
    (hnodup : ∀ contribution ∈ contributions, contribution.marks.Nodup) (he : edge ≤ start) :
    ∃ edge' last', Collected edge' last' (runsFrom start runs contributions) := by
  induction contributions generalizing edge start last runs with
  | nil => exact ⟨edge, last, h⟩
  | cons contribution rest ih =>
      obtain ⟨hown, hrest⟩ := List.forall_mem_cons.mp hnodup
      cases contribution with
      | breakpoint chunk => exact ih h hlast hrest (Nat.le_succ_of_le he)
      | run chunks own =>
          rw [runsFrom]
          cases hc : chunks.isEmpty with
          | true => exact ih h hlast hrest (Nat.le_add_right_of_le he)
          | false =>
              have hs : start < start + chunks.length := by
                have := List.length_pos_iff.mpr (List.isEmpty_eq_false_iff.mp hc)
                omega
              exact ih (h.step hlast hown he hs) hown hrest le_rfl

theorem collected_nil : Collected 0 [] [] where
  nonempty := by simp
  passed := by simp
  reaching := by simp
  current := fun _ => rfl

/-- The collected ranges cover every position with the marks of its leaf. -/
theorem coverings_collectRanges
    (hnodup : ∀ contribution ∈ contributions, contribution.marks.Nodup) (mark position : Nat) :
    coverings (ofMark mark) position (collectRanges contributions) =
      ((applied contributions)[position]?.getD []).count mark :=
  covered_runsFrom collected_nil List.nodup_nil hnodup le_rfl mark position

/-- No collected range is empty. -/
theorem nonempty_of_mem_collectRanges
    (hnodup : ∀ contribution ∈ contributions, contribution.marks.Nodup) :
    ∀ range ∈ collectRanges contributions, range.start < range.stop := by
  obtain ⟨_, _, h⟩ := collected_runsFrom collected_nil List.nodup_nil hnodup le_rfl
  exact List.forall_mem_map.mpr h.nonempty

/-- At a position that a collected range covers there is a leaf with its mark. -/
theorem exists_applied_of_covers
    (hnodup : ∀ contribution ∈ contributions, contribution.marks.Nodup) {range : MarkRange}
    (hr : range ∈ collectRanges contributions) (hcovers : range.Covers position) :
    ∃ marks, (applied contributions)[position]? = some marks ∧ range.mark ∈ marks := by
  have hpos : 0 < coverings (ofMark range.mark) position (collectRanges contributions) :=
    coverings_pos_iff.mpr ⟨range, hr, by simp [ofMark], hcovers⟩
  rw [coverings_collectRanges hnodup, List.count_pos_iff] at hpos
  cases hmarks : (applied contributions)[position]? with
  | none =>
      rw [hmarks] at hpos
      cases hpos
  | some marks =>
      rw [hmarks] at hpos
      exact ⟨marks, rfl, hpos⟩

/-- The collected ranges stay inside the row. -/
theorem stop_le_of_mem_collectRanges
    (hnodup : ∀ contribution ∈ contributions, contribution.marks.Nodup) :
    ∀ range ∈ collectRanges contributions,
      range.stop ≤ (contributions.flatMap Contribution.chunks).length := by
  intro range hr
  have hne := nonempty_of_mem_collectRanges hnodup range hr
  have hcovers : range.Covers (range.stop - 1) := by
    unfold MarkRange.Covers
    omega
  obtain ⟨marks, hmarks, -⟩ := exists_applied_of_covers hnodup hr hcovers
  have hlt := (List.getElem?_eq_some_iff.mp hmarks).1
  rw [length_applied] at hlt
  omega

/-- The collected ranges are for marks of runs. -/
theorem exists_mem_marks_of_mem_collectRanges
    (hnodup : ∀ contribution ∈ contributions, contribution.marks.Nodup) :
    ∀ range ∈ collectRanges contributions,
      ∃ contribution ∈ contributions, range.mark ∈ contribution.marks := by
  intro range hr
  have hne := nonempty_of_mem_collectRanges hnodup range hr
  obtain ⟨marks, hmarks, hmem⟩ := exists_applied_of_covers hnodup hr ⟨Nat.le_refl _, hne⟩
  rcases exists_of_mem_appliedFrom (List.mem_of_getElem? hmarks) hmem with hnil | hfound
  · cases hnil
  · exact hfound

/-- No mark is on a position twice. -/
theorem disjointed_collectRanges
    (hnodup : ∀ contribution ∈ contributions, contribution.marks.Nodup) :
    Disjointed (collectRanges contributions) := by
  intro mark position
  rw [coverings_collectRanges hnodup]
  cases hmarks : (applied contributions)[position]? with
  | none => exact Nat.zero_le _
  | some marks =>
      have hmem : marks ∈ applied contributions := List.mem_of_getElem? hmarks
      have hmarks := nodup_of_mem_appliedFrom List.nodup_nil hnodup hmem
      exact List.nodup_iff_count_le_one.mp hmarks mark

end Follow

end RichDoc
