import Mathlib.Data.List.Forall2
import Mathlib.Data.List.TakeWhile
import RichDoc.Proofs.Export.Nesting
import RichDoc.Proofs.Export.Steady
import RichDoc.Proofs.Range.Order

/-!
# Assembling builds the tree that the ranges describe

The walk over the chunks keeps one invariant (`Growth.Reached`). The
ranges are split into those that were opened and those that wait, by
whether they start before the position at hand. Of the opened ones exactly
those that go on are open still, in layers, so closing from the innermost
one outwards finds all that have ended. So every leaf is put under the
ranges that hold its position, in the order of the list.

Nothing in this needs the ranges to hold any chunks. One that is empty
holds its start (`MarkRange.Holds`): its container is opened there and
closed behind the chunk at that position.
-/

namespace RichDoc

open Pandoc (Inline)

/-! ## Positions that a range holds -/

/-- The position is one of the range's, or its start. -/
def MarkRange.Holds (range : MarkRange) (position : Nat) : Prop :=
  range.start ≤ position ∧ (position < range.stop ∨ position = range.start)

instance (range : MarkRange) (position : Nat) : Decidable (range.Holds position) := by
  unfold MarkRange.Holds; infer_instance

theorem MarkRange.holds_iff_covers {range : MarkRange} (h : range.start < range.stop)
    (position : Nat) : range.Holds position ↔ range.Covers position := by
  unfold Holds Covers
  omega

/-- Of two ranges in the order of opening that hold the same position the second ends first. -/
theorem OpensBefore.stop_le {outer inner : MarkRange} {position : Nat}
    (h : OpensBefore outer inner) (hcross : ¬ outer.Crosses inner) (ho : outer.Holds position)
    (hi : inner.Holds position) : inner.stop ≤ outer.stop := by
  unfold OpensBefore MarkRange.Crosses MarkRange.Holds at *
  omega

theorem dropWhile_eq_filter_not {α : Type} {p : α → Bool} {l : List α}
    (h : l.Pairwise fun a b => p b = true → p a = true) : l.dropWhile p = l.filter (!p ·) := by
  induction l with
  | nil => rfl
  | cons a rest ih =>
      obtain ⟨hfirst, hrest⟩ := List.pairwise_cons.mp h
      cases ha : p a with
      | true => simp [ha, ih hrest]
      | false =>
          have hno : ∀ b ∈ rest, (!p b) = true := fun b hb => by
            cases hpb : p b with
            | true => exact absurd (hfirst b hb hpb) (by simp [ha])
            | false => rfl
          simp [ha, List.filter_eq_self.mpr hno]

/-! ## The invariant of the walk -/

/-- What the walk over the chunks has made of the ranges after some leaves. -/
structure Growth.Reached (registry : Registry) (ranges : List MarkRange) (leaves : List Inline)
    (pending : List MarkRange) (growth : Growth) : Prop where
  split : growth.openings.map Opening.range ++ pending = ranges
  started : ∀ opening ∈ growth.openings, opening.range.start < leaves.length
  waiting : ∀ range ∈ pending, leaves.length ≤ range.start
  /-- The open containers, and perhaps some that have just ended. -/
  standing : (growth.stack.filter fun opening => decide (leaves.length < opening.range.stop)) =
    growth.openings.reverse.filter fun opening => decide (leaves.length < opening.range.stop)
  layered : growth.stack.Pairwise fun inner outer => inner.range.stop ≤ outer.range.stop
  placed : growth.leaves = leaves.mapIdx fun position leaf =>
    (leaf, growth.openings.filter fun opening => decide (opening.range.Holds position))
  contained : ∀ opening ∈ growth.openings,
    opening.container = registry.containerAt opening.range.mark
  full : growth.Full
  filled : growth.Filled

/-- The first of the ranges that wait start at a position, and the others behind it. -/
structure Starts (registry : Registry) (position : Nat) (pending : List MarkRange)
    (opens : List Opening) (rest : List MarkRange) : Prop where
  split : pending = opens.map Opening.range ++ rest
  start : ∀ opening ∈ opens, opening.range.start = position
  later : ∀ range ∈ rest, position < range.start
  contained : ∀ opening ∈ opens, opening.container = registry.containerAt opening.range.mark

/-- Of containers that hold a position, the ranges end in layers. -/
theorem pairwise_stop_le_of_holds {openings : List Opening}
    (hsorted : (openings.map Opening.range).Pairwise OpensBefore)
    (hlaminar : Laminar (openings.map Opening.range)) (position : Nat) :
    (openings.filter fun opening => decide (opening.range.Holds position)).Pairwise
      fun outer inner => inner.range.stop ≤ outer.range.stop := by
  have hboth : openings.Pairwise fun outer inner =>
      OpensBefore outer.range inner.range ∧ ¬ outer.range.Crosses inner.range :=
    List.pairwise_map.mp (hsorted.and (hlaminar.imp And.left))
  refine (hboth.filter _).imp_of_mem ?_
  intro outer inner ho hi ⟨hbefore, hcross⟩
  have ho := of_decide_eq_true (List.mem_filter.mp ho).2
  have hi := of_decide_eq_true (List.mem_filter.mp hi).2
  exact hbefore.stop_le hcross ho hi

namespace Growth

variable {registry : Registry} {ranges pending rest : List MarkRange} {leaves : List Inline}
  {growth closed : Growth} {opens : List Opening}

theorem reached_nil (registry : Registry) (ranges : List MarkRange) :
    Reached registry ranges [] ranges {} where
  split := rfl
  started := by simp [openings, openingsFrom, openingsIn]
  waiting := fun _ _ => Nat.zero_le _
  standing := rfl
  layered := .nil
  placed := rfl
  contained := by simp [openings, openingsFrom, openingsIn]
  full := ⟨nofun, nofun⟩
  filled := nofun

theorem ClosedBy.openings_put_start {ended : Nat → Bool} (hclosed : growth.ClosedBy ended closed)
    (opens : List Opening) (leaf : Inline) :
    ((closed.start opens).put (.leaf leaf)).openings = growth.openings ++ opens := by
  rw [openings_put, openings_start, hclosed.openings]
  exact List.append_nil _

namespace Reached

variable (h : growth.Reached registry ranges leaves pending)
  (hclosed : growth.ClosedBy (fun stop => decide (stop ≤ leaves.length)) closed)
  (hopens : Starts registry leaves.length pending opens rest)

include h

/-- After the containers that have ended were closed, those that go on are left. -/
theorem stack_closed
    (hclosed : growth.ClosedBy (fun stop => decide (stop ≤ leaves.length)) closed) :
    closed.stack = growth.openings.reverse.filter fun opening =>
      decide (leaves.length < opening.range.stop) := by
  have hmono : growth.stack.Pairwise fun inner outer =>
      decide (outer.range.stop ≤ leaves.length) = true →
        decide (inner.range.stop ≤ leaves.length) = true := by
    refine h.layered.imp ?_
    intro inner outer hle ho
    exact decide_eq_true (Nat.le_trans hle (of_decide_eq_true ho))
  rw [hclosed.stack, dropWhile_eq_filter_not hmono, ← h.standing]
  refine List.filter_congr ?_
  intro opening _
  rw [← decide_not, decide_eq_decide, Nat.not_le]

include hopens

theorem start_le : ∀ opening ∈ growth.openings ++ opens, opening.range.start ≤ leaves.length := by
  intro opening ho
  rcases List.mem_append.mp ho with ho | ho
  · exact Nat.le_of_lt (h.started opening ho)
  · exact Nat.le_of_eq (hopens.start opening ho)

theorem split_start : (growth.openings ++ opens).map Opening.range ++ rest = ranges := by
  rw [List.map_append, List.append_assoc, ← hopens.split]
  exact h.split

omit h in
/-- What starts at a position does not hold an earlier one. -/
theorem filter_holds_append {position : Nat} (hlt : position < leaves.length) :
    ((growth.openings ++ opens).filter fun opening => decide (opening.range.Holds position)) =
      growth.openings.filter fun opening => decide (opening.range.Holds position) := by
  have hnone : (opens.filter fun opening => decide (opening.range.Holds position)) = [] := by
    refine List.filter_eq_nil_iff.mpr ?_
    intro opening ho
    have := hopens.start opening ho
    rw [decide_eq_true_eq]
    unfold MarkRange.Holds
    omega
  rw [List.filter_append, hnone, List.append_nil]

include hclosed

/-- The containers around the chunk at hand, once those that start there are open. -/
theorem stack_opened : (closed.start opens).stack =
    ((growth.openings ++ opens).filter fun opening =>
      decide (opening.range.Holds leaves.length)).reverse := by
  rw [stack_start, h.stack_closed hclosed, List.filter_append, List.reverse_append,
    List.filter_reverse]
  congr 1
  · refine congrArg List.reverse (List.filter_eq_self.mpr ?_).symm
    intro opening ho
    have := hopens.start opening ho
    rw [decide_eq_true_eq]
    unfold MarkRange.Holds
    omega
  · refine congrArg List.reverse (List.filter_congr ?_)
    intro opening ho
    have := h.started opening ho
    rw [decide_eq_decide]
    unfold MarkRange.Holds
    omega

/-- Of the containers around the chunk, those that go on are all that do. -/
theorem standing_start :
    ((closed.start opens).stack.filter fun opening =>
      decide (leaves.length + 1 < opening.range.stop)) =
    (growth.openings ++ opens).reverse.filter fun opening =>
      decide (leaves.length + 1 < opening.range.stop) := by
  rw [h.stack_opened hclosed hopens, List.filter_reverse, List.filter_reverse, List.filter_filter]
  refine congrArg List.reverse (List.filter_congr ?_)
  intro opening ho
  have := h.start_le hopens opening ho
  rw [← Bool.decide_and, decide_eq_decide]
  unfold MarkRange.Holds
  omega

/-- One chunk on: what has ended is closed, what starts is opened, and a leaf is put. -/
theorem step (hsorted : ranges.Pairwise OpensBefore) (hlaminar : Laminar ranges)
    (leaf : Inline) :
    ((closed.start opens).put (.leaf leaf)).Reached registry ranges (leaves ++ [leaf]) rest := by
  have hall := hclosed.openings_put_start opens leaf
  have hsplit := h.split_start hopens
  have hstack := h.stack_opened hclosed hopens
  have hlength : (leaves ++ [leaf]).length = leaves.length + 1 := List.length_append
  refine ⟨?split, ?started, ?waiting, ?standing, ?layered, ?placed, ?contained, ?full,
    Growth.filled_put _ _⟩
  case split => rw [hall, hsplit]
  case started =>
      rw [hall, hlength]
      intro opening ho
      exact Nat.lt_succ_of_le (h.start_le hopens opening ho)
  case waiting =>
      rw [hlength]
      exact hopens.later
  case standing =>
      rw [hall, hlength, stack_put]
      exact h.standing_start hclosed hopens
  case layered =>
      rw [stack_put, hstack, List.pairwise_reverse]
      rw [← hsplit] at hsorted hlaminar
      exact pairwise_stop_le_of_holds (List.pairwise_append.mp hsorted).1
        (List.pairwise_append.mp hlaminar).1 leaves.length
  case placed =>
      rw [hall, leaves_put, leaves_start, hclosed.leaves, h.placed, hstack, List.reverse_reverse,
        List.mapIdx_concat, Nesting.leaves]
      congr 1
      refine List.mapIdx_eq_mapIdx_iff.mpr ?_
      intro position hlt
      rw [filter_holds_append hopens hlt]
  case contained =>
      rw [hall]
      intro opening ho
      rcases List.mem_append.mp ho with ho | ho
      · exact h.contained opening ho
      · exact hopens.contained opening ho
  case full => exact ((hclosed.full h.full h.filled).1.start opens).put trivial

end Reached

end Growth

/-! ## The walk -/

/-- What becomes of a chunk in a conversion that began with some progress. -/
inductive Chunk.Gives (environment : Environment) (start : Progress) : Chunk → Inline → Prop where
  | leaf (inline : Inline) : Gives environment start (.leaf inline) inline
  | note {index content before blocks after}
      (reached : (Export.enter index NodeKind.note.name start).Leads before)
      (converted : content.runFrom environment before = (.ok blocks, after)) :
      Gives environment start (.note index content) (.note blocks)

/-- A footnote of nodes that convert, whenever the walk comes to it. -/
def Chunk.Converts (environment : Environment) (start : Progress) : Chunk → Prop
  | .leaf _ => True
  | .note index content =>
    (∃ nodes, content = Export.blocks (Prepared.ofNodes nodes)) ∧
      ∀ before, (Export.enter index NodeKind.note.name start).Leads before →
        ∃ blocks after, content.runFrom environment before = (.ok blocks, after)

theorem Chunk.Converts.steady {environment : Environment} {start : Progress} {chunk : Chunk}
    (h : chunk.Converts environment start) : chunk.Steady := by
  cases chunk with
  | leaf inline => trivial
  | note index content =>
      obtain ⟨⟨nodes, rfl⟩, -⟩ := h
      exact Export.steady_blocks (Prepared.steady_ofNodes nodes)

theorem Progress.Leads.enter {start progress : Progress} (h : start.Leads progress) (index : Nat)
    (type : String) : (Export.enter index type start).Leads (Export.enter index type progress) :=
  ⟨h.registered, h.counted, congrArg (List.cons _) h.path⟩

theorem Progress.Leads.containerAt {start progress : Progress} (h : start.Leads progress)
    {mark : Nat} {entry : Entry} (hmark : start.registry.entry? mark = some entry) :
    progress.registry.containerAt mark = start.registry.containerAt mark := by
  obtain ⟨marks, hregistry⟩ := h.registered
  rw [hregistry]
  exact Registry.containerAt_register hmark marks

namespace Export

variable {environment : Environment} {start progress after : Progress} {chunk : Chunk}
  {chunks : List Chunk} {ranges : List MarkRange} {leaf : Inline}

theorem runFrom_containerOf (mark : Nat) :
    (containerOf mark).runFrom environment progress =
      (.ok (progress.registry.containerAt mark), progress) := by
  unfold containerOf Registry.containerAt
  rw [runFrom_bind_ok (show (get : Export Progress).runFrom environment progress = _ from rfl)]
  cases progress.registry.entry? mark <;> rfl

theorem runFrom_openFrame (nest : Nest) (numbered : List (Nat × Nat)) (range : MarkRange) :
    ∃ noteNumber numbered' progress',
      (openFrame nest numbered range).runFrom environment progress =
        (.ok ({ nest with
          frames := Opening.frame ⟨range, progress.registry.containerAt range.mark, noteNumber⟩
            :: nest.frames }, numbered'), progress') ∧
      progress'.registry = progress.registry := by
  unfold openFrame
  rw [runFrom_bind_ok (runFrom_containerOf range.mark)]
  split
  · exact ⟨_, _, _, rfl, rfl⟩
  · split
    · exact ⟨_, _, _, rfl, rfl⟩
    · exact ⟨_, _, _, rfl, rfl⟩

/-- The ranges that start at the position are opened, with the containers of their marks. -/
theorem runFrom_openAt (position : Nat) (nest : Nest) (numbered : List (Nat × Nat))
    {pending : List MarkRange} (hsorted : pending.Pairwise fun a b => a.start ≤ b.start)
    (hwaiting : ∀ range ∈ pending, position ≤ range.start) :
    ∃ (opens : List Opening) (rest : List MarkRange) (numbered' : _) (progress' : Progress),
      (openAt position nest numbered pending).runFrom environment progress =
        (.ok ⟨{ nest with
          frames := (opens.map Opening.frame).reverse ++ nest.frames }, rest, numbered'⟩,
          progress') ∧
      progress'.registry = progress.registry ∧
      Starts progress.registry position pending opens rest := by
  induction pending generalizing nest numbered progress with
  | nil => exact ⟨[], [], numbered, progress, rfl, rfl, rfl, by simp, by simp, by simp⟩
  | cons range rest ih =>
      obtain ⟨hfirst, hrest⟩ := List.pairwise_cons.mp hsorted
      obtain ⟨hrange, hwaiting⟩ := List.forall_mem_cons.mp hwaiting
      unfold openAt
      by_cases hstart : range.start = position
      · obtain ⟨number, numbered', between, hopen, hbetween⟩ :=
          @runFrom_openFrame environment progress nest numbered range
        obtain ⟨opens, later, numbered', progress', hrun, hregistry, hopens⟩ :=
          @ih between _ numbered' hrest hwaiting
        rw [hbetween] at hregistry hopens
        let opening : Opening := ⟨range, progress.registry.containerAt range.mark, number⟩
        refine ⟨opening :: opens, later, numbered', progress', ?_, hregistry, ?_,
          List.forall_mem_cons.mpr ⟨hstart, hopens.start⟩, hopens.later,
          List.forall_mem_cons.mpr ⟨rfl, hopens.contained⟩⟩
        · rw [if_pos hstart, runFrom_bind_ok hopen, hrun, List.map_cons, List.reverse_cons,
            List.append_assoc]
          rfl
        · rw [hopens.split]
          rfl
      · have hlt : position < range.start := Nat.lt_of_le_of_ne hrange (Ne.symm hstart)
        have hlater : ∀ later ∈ range :: rest, position < later.start := by
          intro later hl
          rcases List.mem_cons.mp hl with rfl | hl
          · exact hlt
          · exact Nat.lt_of_lt_of_le hlt (hfirst later hl)
        rw [if_neg hstart]
        exact ⟨[], range :: rest, numbered, progress, rfl, rfl, rfl, by simp, hlater, by simp⟩

theorem gives_of_emit (hleads : start.Leads progress)
    (h : (emit chunk).runFrom environment progress = (.ok leaf, after)) :
    chunk.Gives environment start leaf := by
  cases chunk with
  | leaf inline =>
      cases h
      exact .leaf leaf
  | note index content =>
      rw [emit] at h
      obtain ⟨inner, hinner, -⟩ := runFrom_descend_eq_ok h
      rw [map_eq_pure_bind] at hinner
      obtain ⟨blocks, between, hrun, hpure⟩ := runFrom_bind_eq_ok hinner
      cases hpure
      exact .note (hleads.enter index _) hrun

/-- The walk takes the invariant from the chunks before to those behind it. -/
theorem reached_of_assembleFrom (hsorted : ranges.Pairwise OpensBefore) (hlaminar : Laminar ranges)
    (hmarks : ∀ range ∈ ranges, ∃ entry, start.registry.entry? range.mark = some entry)
    (hchunks : ∀ chunk ∈ chunks, chunk.Steady) {growth : Growth} {leaves : List Inline}
    {assembly final : Assembly}
    (hreached : growth.Reached start.registry ranges leaves assembly.pending)
    (hnest : assembly.nest = growth.nest) (hleads : start.Leads progress)
    (h : (assembleFrom leaves.length assembly chunks).runFrom environment progress =
      (.ok final, after)) :
    ∃ (grown : Growth) (more : List Inline), final.nest = grown.nest ∧
      grown.Reached start.registry ranges (leaves ++ more) final.pending ∧
      List.Forall₂ (Chunk.Gives environment start) chunks more := by
  induction chunks generalizing growth leaves assembly progress with
  | nil =>
      cases h
      exact ⟨growth, [], hnest, by rwa [List.append_nil], .nil⟩
  | cons chunk rest ih =>
      obtain ⟨hchunk, hrest⟩ := List.forall_mem_cons.mp hchunks
      obtain ⟨closed, hclosed⟩ := growth.exists_closedBy fun stop => decide (stop ≤ leaves.length)
      have hpending : assembly.pending.Pairwise fun a b => a.start ≤ b.start := by
        have hstarts := hsorted.imp OpensBefore.start_le
        rw [← hreached.split] at hstarts
        exact (List.pairwise_append.mp hstarts).2.1
      obtain ⟨opens, later, numbered, opened, hopen, -, hstarts⟩ :=
        @runFrom_openAt environment progress leaves.length (assembly.nest.closeAt leaves.length)
          assembly.numbered _ hpending hreached.waiting
      rw [assembleFrom, runFrom_bind_ok hopen] at h
      obtain ⟨leaf, emitted, hemit, hwalk⟩ := runFrom_bind_eq_ok h
      have hopened : start.Leads opened := hleads.trans ((steady_openAt _ _ _ _).leads hopen)
      have hopens : Starts start.registry leaves.length assembly.pending opens later := by
        refine ⟨hstarts.split, hstarts.start, hstarts.later, ?_⟩
        intro opening ho
        have hmem : opening.range ∈ ranges := by
          rw [← hreached.split, hstarts.split]
          exact List.mem_append_right _ (List.mem_append_left _ (List.mem_map_of_mem ho))
        obtain ⟨entry, hentry⟩ := hmarks _ hmem
        rw [hstarts.contained opening ho, hleads.containerAt hentry]
      have hstep := hreached.step hclosed hopens hsorted hlaminar leaf
      have hclosing : closed.nest = assembly.nest.closeAt leaves.length := by
        rw [hclosed.nest, ← hnest]
        rfl
      rw [← @List.length_singleton _ leaf, ← List.length_append] at hwalk
      obtain ⟨grown, more, hfinal, hgrown, hgives⟩ := ih hrest hstep (by
        rw [Growth.nest_put, Growth.nest_start, hclosing]
        rfl) (hopened.trans ((steady_emit hchunk).leads hemit)) hwalk
      refine ⟨grown, leaf :: more, hfinal, by rwa [List.append_assoc] at hgrown, ?_⟩
      exact .cons (gives_of_emit hopened hemit) hgives

/-- The walk stops only where a footnote cannot be converted. -/
theorem exists_of_assembleFrom (hchunks : ∀ chunk ∈ chunks, chunk.Converts environment start)
    (hleads : start.Leads progress) (position : Nat) (assembly : Assembly)
    (hsorted : assembly.pending.Pairwise fun a b => a.start ≤ b.start)
    (hwaiting : ∀ range ∈ assembly.pending, position ≤ range.start) :
    ∃ final after, (assembleFrom position assembly chunks).runFrom environment progress =
      (.ok final, after) := by
  induction chunks generalizing position assembly progress with
  | nil => exact ⟨assembly, progress, rfl⟩
  | cons chunk rest ih =>
      obtain ⟨hchunk, hrest⟩ := List.forall_mem_cons.mp hchunks
      obtain ⟨opens, later, numbered, opened, hopen, -, hstarts⟩ :=
        @runFrom_openAt environment progress position (assembly.nest.closeAt position)
          assembly.numbered _ hsorted hwaiting
      have hopened : start.Leads opened := hleads.trans ((steady_openAt _ _ _ _).leads hopen)
      have hemit : ∃ leaf after, (emit chunk).runFrom environment opened = (.ok leaf, after) := by
        cases chunk with
        | leaf inline => exact ⟨inline, opened, rfl⟩
        | note index content =>
            obtain ⟨blocks, converted, hrun⟩ := hchunk.2 _ (hopened.enter index _)
            refine ⟨.note blocks, leave converted, ?_⟩
            rw [emit, runFrom_descend, map_eq_pure_bind, runFrom_bind_ok hrun]
            rfl
      obtain ⟨leaf, emitted, hemit⟩ := hemit
      rw [assembleFrom, runFrom_bind_ok hopen, runFrom_bind_ok hemit]
      rw [hstarts.split] at hsorted
      exact ih hrest (hopened.trans ((steady_emit hchunk.steady).leads hemit)) (position + 1) _
        (List.pairwise_append.mp hsorted).2.1 hstarts.later

/-! ## The whole row -/

/-- Inlines that were assembled are a tree with a leaf for every chunk and a container for every
range, each leaf under the ranges that hold its position. No container is empty. -/
theorem full_nesting_of_assemble (hchunks : ∀ chunk ∈ chunks, chunk.Steady)
    (hsorted : ranges.Pairwise OpensBefore) (hlaminar : Laminar ranges)
    (hinside : ∀ range ∈ ranges, range.start < chunks.length)
    (hmarks : ∀ range ∈ ranges, ∃ entry, start.registry.entry? range.mark = some entry)
    {inlines : List Inline}
    (h : (assemble chunks ranges).runFrom environment start = (.ok inlines, after)) :
    ∃ (forest : List Nesting) (leaves : List Inline), inlines = inlinesIn forest ∧
      List.Forall₂ (Chunk.Gives environment start) chunks leaves ∧
      leavesIn [] forest = leaves.mapIdx (fun position leaf =>
        (leaf, (openingsIn forest).filter fun opening =>
          decide (opening.range.Holds position))) ∧
      (openingsIn forest).map Opening.range = ranges ∧
      (∀ opening ∈ openingsIn forest,
        opening.container = start.registry.containerAt opening.range.mark) ∧
      FullIn forest := by
  obtain ⟨final, walked, hwalk, hclose⟩ := runFrom_bind_eq_ok h
  cases hclose
  have hnone := Growth.reached_nil start.registry ranges
  obtain ⟨growth, leaves, hnest, hreached, hgives⟩ :=
    @reached_of_assembleFrom _ _ _ _ _ _ hsorted hlaminar hmarks hchunks {} []
      { pending := ranges } _ hnone rfl (.refl start) hwalk
  -- no range starts behind the last chunk, so none waits any more
  have hpending : final.pending = [] := by
    refine List.eq_nil_iff_forall_not_mem.mpr ?_
    intro range hr
    have hle := hreached.waiting range hr
    have hlt := hinside range (by rw [← hreached.split]; exact List.mem_append_right _ hr)
    rw [List.nil_append, ← hgives.length_eq] at hle
    omega
  obtain ⟨⟨branches, done⟩, hclosed, hleaves, hopenings, hstack, hfull⟩ :=
    growth.exists_closedBy fun _ => true
  obtain rfl : branches = [] := by
    have hnil : (growth.stack.dropWhile fun _ => true) = [] :=
      List.dropWhile_eq_nil_iff.mpr fun _ _ => rfl
    exact List.map_eq_nil_iff.mp (hstack.trans hnil)
  have hopenings : openingsIn done.reverse = growth.openings := hopenings
  refine ⟨done.reverse, leaves, ?_, hgives, ?_, ?_, ?_, ?_⟩
  · rw [hnest, Nest.close, ← hclosed, inlinesIn_eq_map, List.map_reverse]
    rfl
  · rw [hopenings]
    exact hleaves.trans hreached.placed
  · rw [hopenings, ← hreached.split, hpending, List.append_nil]
  · rw [hopenings]
    exact hreached.contained
  · have hdone := (hfull hreached.full hreached.filled).1.done
    exact fullIn_iff.mpr fun nesting hmem => hdone nesting (List.mem_reverse.mp hmem)

theorem nesting_of_assemble (hchunks : ∀ chunk ∈ chunks, chunk.Steady)
    (hsorted : ranges.Pairwise OpensBefore) (hlaminar : Laminar ranges)
    (hinside : ∀ range ∈ ranges, range.start < chunks.length)
    (hmarks : ∀ range ∈ ranges, ∃ entry, start.registry.entry? range.mark = some entry)
    {inlines : List Inline}
    (h : (assemble chunks ranges).runFrom environment start = (.ok inlines, after)) :
    ∃ (forest : List Nesting) (leaves : List Inline), inlines = inlinesIn forest ∧
      List.Forall₂ (Chunk.Gives environment start) chunks leaves ∧
      leavesIn [] forest = leaves.mapIdx (fun position leaf =>
        (leaf, (openingsIn forest).filter fun opening =>
          decide (opening.range.Holds position))) ∧
      (openingsIn forest).map Opening.range = ranges ∧
      ∀ opening ∈ openingsIn forest,
        opening.container = start.registry.containerAt opening.range.mark := by
  obtain ⟨forest, leaves, hinlines, hgives, hplaced, hranges, hcontained, -⟩ :=
    full_nesting_of_assemble hchunks hsorted hlaminar hinside hmarks h
  exact ⟨forest, leaves, hinlines, hgives, hplaced, hranges, hcontained⟩

/-- **Assembling is exact.** For chunks whose footnotes convert, and ranges that nest, in the order
in which containers are opened, there is a tree of which the inlines are all that is left. Its
leaves are those of the chunks, in their order; it has one container for each range, in the order
of the list, which is that of the range's mark; and the containers around a leaf, outermost first,
are those of the ranges that cover it. Of two ranges with the same extent the one with the higher
mark is inside. -/
theorem exists_nesting_assemble (environment : Environment) (progress : Progress)
    (hchunks : ∀ chunk ∈ chunks, chunk.Converts environment progress)
    (hlaminar : Laminar ranges)
    (hinside : ∀ range ∈ ranges, range.start < range.stop ∧ range.stop ≤ chunks.length)
    (hsorted : ranges.Pairwise fun a b =>
      openingOrder (progress.registry.compare environment.priority) a b ≠ .gt)
    (hmarks : ∀ range ∈ ranges, ∃ entry, progress.registry.entry? range.mark = some entry ∧
      entry.container.holdsText = false) :
    ∃ (inlines : List Inline) (after : Progress) (forest : List Nesting) (leaves : List Inline),
      (assemble chunks ranges).runFrom environment progress = (.ok inlines, after) ∧
      inlines = inlinesIn forest ∧
      List.Forall₂ (Chunk.Gives environment progress) chunks leaves ∧
      leavesIn [] forest = leaves.mapIdx (fun position leaf =>
        (leaf, (openingsIn forest).filter fun opening =>
          decide (opening.range.Covers position))) ∧
      (openingsIn forest).map Opening.range = ranges ∧
      (∀ opening ∈ openingsIn forest,
        opening.container = progress.registry.containerAt opening.range.mark ∧
          ∀ content, (opening.container.wrap content opening.noteNumber).content = content) ∧
      (openingsIn forest).Pairwise fun outer inner =>
        outer.range.start = inner.range.start → outer.range.stop = inner.range.stop →
          progress.registry.compare environment.priority outer.range.mark inner.range.mark
            ≠ .gt := by
  have hopens := hsorted.imp OpensBefore.of_openingOrder
  obtain ⟨final, walked, hwalk⟩ := exists_of_assembleFrom hchunks (.refl progress) 0
    { pending := ranges } (hopens.imp OpensBefore.start_le)
    (fun _ _ => Nat.zero_le _)
  have hrun : (assemble chunks ranges).runFrom environment progress =
      (.ok final.nest.close, walked) := by
    rw [assemble, runFrom_bind_ok hwalk]
    rfl
  obtain ⟨forest, leaves, hinlines, hgives, hplaced, hranges, hcontained⟩ :=
    nesting_of_assemble (fun chunk hc => (hchunks chunk hc).steady) hopens hlaminar
      (fun range hr => Nat.lt_of_lt_of_le (hinside range hr).1 (hinside range hr).2)
      (fun range hr => (hmarks range hr).imp fun _ => And.left) hrun
  have hmem : ∀ opening ∈ openingsIn forest, opening.range ∈ ranges := fun opening ho => by
    rw [← hranges]
    exact List.mem_map_of_mem ho
  refine ⟨_, walked, forest, leaves, hrun, hinlines, hgives, ?_, hranges, ?_, ?_⟩
  · rw [hplaced]
    refine List.mapIdx_eq_mapIdx_iff.mpr ?_
    intro position _
    have hcovers : ((openingsIn forest).filter fun opening =>
        decide (opening.range.Holds position)) =
          (openingsIn forest).filter fun opening => decide (opening.range.Covers position) := by
      refine List.filter_congr ?_
      intro opening ho
      rw [decide_eq_decide]
      exact MarkRange.holds_iff_covers (hinside _ (hmem opening ho)).1 position
    rw [hcovers]
  · intro opening ho
    obtain ⟨entry, hentry, htext⟩ := hmarks _ (hmem opening ho)
    refine ⟨hcontained opening ho, fun content => Container.content_wrap ?_ content _⟩
    rw [hcontained opening ho, Registry.containerAt_eq_of_registered hentry, htext]
  · rw [← hranges] at hsorted
    refine (List.pairwise_map.mp hsorted).imp ?_
    intro outer inner hle hstart hstop
    exact order_ne_gt_of_same_extent hle hstart hstop

/-- A footnote between two texts, under three ranges, two of which have the same extent. -/
theorem exists_nesting_assemble_three :
    let note : List Node := [{ type := "horizontalRule" }]
    let chunks : List Chunk :=
      [.leaf (.str "a"), .note 1 (Export.blocks (Prepared.ofNodes note)), .leaf (.str "b")]
    let ranges : List MarkRange := [⟨1, 0, 2, 1⟩, ⟨0, 0, 2, 0⟩, ⟨2, 2, 3, 2⟩]
    let progress : Progress :=
      { registry := ⟨#[.ofMark 0 ⟨"strong", []⟩, .ofMark 1 ⟨"emphasis", []⟩,
          .ofMark 2 ⟨"citation", []⟩]⟩ }
    ∃ (forest : List Nesting) (after : Progress),
      (assemble chunks ranges).runFrom {} progress = (.ok (inlinesIn forest), after) ∧
      (openingsIn forest).map Opening.range = ranges ∧
      (leavesIn [] forest).map (fun leaf => leaf.2.map Opening.range) =
        [[⟨1, 0, 2, 1⟩, ⟨0, 0, 2, 0⟩], [⟨1, 0, 2, 1⟩, ⟨0, 0, 2, 0⟩], [⟨2, 2, 3, 2⟩]] := by
  intro note chunks ranges progress
  have hchunks : ∀ chunk ∈ chunks, chunk.Converts {} progress := by
    have hnote : (Chunk.note 1 (Export.blocks (Prepared.ofNodes note))).Converts {} progress :=
      ⟨⟨note, rfl⟩, fun before _ => ⟨[.horizontalRule], before, rfl⟩⟩
    exact List.forall_mem_cons.mpr ⟨trivial, List.forall_mem_cons.mpr ⟨hnote,
      List.forall_mem_singleton.mpr trivial⟩⟩
  obtain ⟨inlines, after, forest, leaves, hrun, rfl, hgives, hplaced, hranges, -, -⟩ :=
    @exists_nesting_assemble chunks ranges {} progress hchunks (by decide) (by decide)
      (by decide) (by simp [ranges, progress, Registry.entry?]; decide)
  refine ⟨forest, after, hrun, hranges, ?_⟩
  have hfilter (position : Nat) : ((openingsIn forest).filter fun opening =>
      decide (opening.range.Covers position)).map Opening.range =
        ranges.filter fun range => decide (range.Covers position) := by
    rw [← hranges, List.filter_map]
    rfl
  obtain ⟨a, n, b, rfl⟩ : ∃ a n b, leaves = [a, n, b] :=
    List.length_eq_three.mp hgives.length_eq.symm
  rw [hplaced]
  simp only [List.mapIdx_cons, List.mapIdx_nil, List.map_cons, List.map_nil, hfilter]
  decide

end Export

end RichDoc
