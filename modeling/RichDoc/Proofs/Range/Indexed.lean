import RichDoc.Mark.Priority
import RichDoc.Proofs.Range.Coverage

/-!
# The sweep by indexes

`Sweep` holds its open pieces themselves. Kept in memory, all pieces stand
in one growing list, the open ones are known by their places in it, and
marks by their places in the registry, so that a sweep reads by index at
every turn. `IndexedSweep` is the sweep in that form, and it makes no
read unchecked: a step has no result if a place on the stack is not one
of the list (`IndexedSweep.step?`), if a mark is compared that is not
registered (`Registry.compare?`), or if a range is queued, opened or cut
that ends before it starts (`MarkRange.upright?`).

None of that happens. An indexed sweep that starts with a `Sweep` shows
it after every turn (`IndexedSweep.Shows`), so it never lacks a result,
and the untangled ranges are the same (`untangle?_eq_some`).
-/

namespace RichDoc

/-! ## Checked reads -/

/-- The index was handed out by the registry. -/
def Registry.Has (registry : Registry) (index : Nat) : Prop :=
  ∃ entry, registry.entry? index = some entry

/-- The order of two marks, of which both have to be registered. -/
def Registry.compare? (registry : Registry) (priority : Priority) (a b : Nat) :
    Option Ordering := do
  return priority.compare (← registry.entry? a) (← registry.entry? b)

theorem Registry.compare?_eq_some {registry : Registry} {a b : Nat} (ha : registry.Has a)
    (hb : registry.Has b) (priority : Priority) :
    registry.compare? priority a b = some (registry.compare priority a b) := by
  obtain ⟨first, hfirst⟩ := ha
  obtain ⟨second, hsecond⟩ := hb
  rw [compare?, compare, hfirst, hsecond]
  rfl

namespace MarkRange

variable {range : MarkRange}

/-- The range, if it does not end before it starts. -/
def upright? (range : MarkRange) : Option MarkRange :=
  if range.start ≤ range.stop then some range else none

theorem upright?_eq_some (h : range.start ≤ range.stop) : range.upright? = some range := if_pos h

/-- The length of a range that does not end before it starts. -/
def len? (range : MarkRange) : Option Nat := range.upright?.map len

theorem len?_eq_some (h : range.start ≤ range.stop) : range.len? = some range.len := by
  rw [len?, upright?_eq_some h]
  rfl

end MarkRange

/-- A checked function that has all its results on a list is a map. -/
theorem mapM_eq_some {α β : Type} {f : α → Option β} {g : α → β} {l : List α}
    (h : ∀ x ∈ l, f x = some (g x)) : l.mapM f = some (l.map g) := by
  induction l with
  | nil => rfl
  | cons x rest ih =>
      obtain ⟨hx, hrest⟩ := List.forall_mem_cons.mp h
      rw [List.mapM_cons, hx, ih hrest]
      rfl

def enqueue? (range : MarkRange) (queue : List MarkRange) : Option (List MarkRange) := do
  return enqueue (← range.upright?) queue

theorem enqueue?_eq_some {range : MarkRange} (h : range.start ≤ range.stop)
    (queue : List MarkRange) : enqueue? range queue = some (enqueue range queue) := by
  rw [enqueue?, MarkRange.upright?_eq_some h]
  rfl

/-- As many cuts as there are chunks in all ranges, and one more for each range. -/
def cutBudget? : List MarkRange → Option Nat
  | [] => some 0
  | range :: rest => do return (← range.len?) + 1 + (← cutBudget? rest)

theorem cutBudget?_eq_some {ranges : List MarkRange}
    (h : ∀ range ∈ ranges, range.start ≤ range.stop) :
    cutBudget? ranges = some (cutBudget ranges) := by
  induction ranges with
  | nil => rfl
  | cons range rest ih =>
      obtain ⟨hrange, hrest⟩ := List.forall_mem_cons.mp h
      rw [cutBudget?, MarkRange.len?_eq_some hrange, ih hrest]
      rfl

/-! ## Steps -/

/-- A sweep that knows its open pieces by their places among all pieces. -/
structure IndexedSweep where
  /-- What is still to be visited, in the order of visits. -/
  queue : List MarkRange
  /-- All pieces, in the order in which they were opened. -/
  out : List MarkRange := []
  /-- The places of the open pieces, innermost first. -/
  opened : List Nat := []
  /-- How many crossings have been resolved. -/
  resolutions : Nat := 0

namespace IndexedSweep

def openNext? (sweep : IndexedSweep) (range : MarkRange) (queue : List MarkRange) :
    Option IndexedSweep := do
  let range ← range.upright?
  return { sweep with
    queue := queue
    out := sweep.out ++ [range]
    opened := sweep.out.length :: sweep.opened }

/-- Resolves the crossing of the innermost open piece, `enclosing` at the
place `top`, with the next range. -/
def resolve? (sweep : IndexedSweep) (order? : Nat → Nat → Option Ordering) (top : Nat)
    (outer : List Nat) (enclosing range : MarkRange) (queue : List MarkRange) :
    Option IndexedSweep := do
  let sweep := { sweep with resolutions := sweep.resolutions + 1 }
  if enclosing.mark = range.mark then
    let queue ← enqueue? { range with start := enclosing.stop } queue
    return { sweep with queue := queue }
  else if (← order? enclosing.mark range.mark) = .lt then
    let cut ← MarkRange.upright? { enclosing with stop := range.start }
    let queue ← enqueue? { enclosing with start := range.start } queue
    return { sweep with queue := range :: queue, out := sweep.out.set top cut, opened := outer }
  else
    let queue ← enqueue? { range with start := enclosing.stop } queue
    sweep.openNext? { range with stop := enclosing.stop } queue

/-- What an indexed sweep does next. -/
inductive Move where
  | finished
  | diverged (cause : Diverged)
  | next (sweep : IndexedSweep)

/-- The next step, as long as every place on the stack is one of the list. -/
def step? (order? : Nat → Nat → Option Ordering) (budget : Nat) (sweep : IndexedSweep) :
    Option Move :=
  if ∀ place ∈ sweep.opened, place < sweep.out.length then
    match sweep.queue, sweep.opened with
    | [], _ => some .finished
    | range :: queue, [] => .next <$> sweep.openNext? range queue
    | range :: queue, top :: outer => do
      let enclosing ← sweep.out[top]?
      if enclosing.stop ≤ range.start then return .next { sweep with opened := outer }
      else if range.stop ≤ enclosing.stop then .next <$> sweep.openNext? range queue
      else if budget ≤ sweep.resolutions then
        return .diverged ⟨sweep.resolutions, sweep.out.length + queue.length⟩
      else .next <$> sweep.resolve? order? top outer enclosing range queue
  else none

/-- A bound on the steps that are left, as `Sweep.work`. -/
def work (budget : Nat) (sweep : IndexedSweep) : Nat :=
  2 * (sweep.queue.length + (budget - sweep.resolutions)) + sweep.opened.length

variable {order? : Nat → Nat → Option Ordering} {budget : Nat} {sweep next : IndexedSweep}

theorem eq_of_openNext? {range : MarkRange} {queue : List MarkRange}
    (h : sweep.openNext? range queue = some next) :
    next = { sweep with
      queue := queue
      out := sweep.out ++ [range]
      opened := sweep.out.length :: sweep.opened } := by
  unfold openNext? MarkRange.upright? at h
  split at h
  · exact (Option.some.inj h).symm
  · cases h

theorem eq_of_enqueue? {range : MarkRange} {queue longer : List MarkRange}
    (h : enqueue? range queue = some longer) : longer = enqueue range queue := by
  unfold enqueue? MarkRange.upright? at h
  split at h
  · exact (Option.some.inj h).symm
  · cases h

theorem openNext?_eq_some {range : MarkRange} (h : range.start ≤ range.stop)
    (queue : List MarkRange) : sweep.openNext? range queue = some { sweep with
      queue := queue
      out := sweep.out ++ [range]
      opened := sweep.out.length :: sweep.opened } := by
  rw [openNext?, MarkRange.upright?_eq_some h]
  rfl

theorem work_resolve? {top : Nat} {outer : List Nat} {enclosing range : MarkRange}
    {queue : List MarkRange} (hq : sweep.queue = range :: queue)
    (ho : sweep.opened = top :: outer) (hb : sweep.resolutions < budget)
    (h : sweep.resolve? order? top outer enclosing range queue = some next) :
    next.work budget < sweep.work budget := by
  unfold resolve? at h
  dsimp only at h
  split at h
  · obtain ⟨longer, hlonger, h⟩ := Option.bind_eq_some_iff.mp h
    cases h
    simp only [work, eq_of_enqueue? hlonger, length_enqueue, hq, List.length_cons]
    omega
  · obtain ⟨answer, -, h⟩ := Option.bind_eq_some_iff.mp h
    split at h
    · obtain ⟨cut, -, h⟩ := Option.bind_eq_some_iff.mp h
      obtain ⟨longer, hlonger, h⟩ := Option.bind_eq_some_iff.mp h
      cases h
      simp only [work, eq_of_enqueue? hlonger, length_enqueue, hq, ho, List.length_cons]
      omega
    · obtain ⟨longer, hlonger, h⟩ := Option.bind_eq_some_iff.mp h
      rw [eq_of_openNext? h]
      simp only [work, eq_of_enqueue? hlonger, length_enqueue, hq, ho, List.length_cons]
      omega

theorem work_step? (h : sweep.step? order? budget = some (.next next)) :
    next.work budget < sweep.work budget := by
  have hopen {range : MarkRange} {queue : List MarkRange} (hq : sweep.queue = range :: queue)
      (h : Move.next <$> sweep.openNext? range queue = some (.next next)) :
      next.work budget < sweep.work budget := by
    obtain ⟨opened, hopened, h⟩ := Option.map_eq_some_iff.mp h
    cases h
    rw [eq_of_openNext? hopened]
    simp only [work, hq, List.length_cons]
    omega
  unfold step? at h
  split at h
  · split at h
    · cases h
    · next hq ho => exact hopen hq h
    · next range queue top outer hq ho =>
      obtain ⟨enclosing, -, h⟩ := Option.bind_eq_some_iff.mp h
      split at h
      · cases h
        simp only [work, ho, List.length_cons]
        omega
      split at h
      · exact hopen hq h
      split at h
      · cases h
      · next hb =>
        obtain ⟨resolved, hresolved, h⟩ := Option.map_eq_some_iff.mp h
        cases h
        exact work_resolve? hq ho (Nat.not_le.mp hb) hresolved
  · cases h

/-- Sweeps to the end of the queue. -/
def run? (order? : Nat → Nat → Option Ordering) (budget : Nat) (sweep : IndexedSweep) :
    Option (Except Diverged IndexedSweep) :=
  match h : sweep.step? order? budget with
  | none => none
  | some .finished => some (.ok sweep)
  | some (.diverged cause) => some (.error cause)
  | some (.next next) =>
    have := work_step? h
    next.run? order? budget
termination_by sweep.work budget

/-! ## Indexed sweeps show sweeps -/

/-- The two sweeps are in the same state: the places on the stack are the serial numbers of the
open pieces, and every piece stands at its own number. -/
structure Shows (indexed : IndexedSweep) (sweep : Sweep) : Prop where
  queue : indexed.queue = sweep.queue
  resolutions : indexed.resolutions = sweep.resolutions
  emitted : sweep.emitted = indexed.out.length
  opened : indexed.opened = sweep.opened.map Piece.serial
  ranges : ∀ piece ∈ sweep.closed ++ sweep.opened, indexed.out[piece.serial]? = some piece.range
  serials : ((sweep.closed ++ sweep.opened).map Piece.serial).Perm
    (List.range indexed.out.length)

theorem shows_ofRanges (ranges : List MarkRange) :
    Shows { queue := (Sweep.ofRanges ranges).queue } (Sweep.ofRanges ranges) where
  queue := rfl
  resolutions := rfl
  emitted := rfl
  opened := rfl
  ranges := by simp [Sweep.ofRanges]
  serials := .nil

namespace Shows

variable {indexed : IndexedSweep} {shown : Sweep} {queue : List MarkRange} {out : List MarkRange}
  {opened closed : List Piece} {top : Piece} {outer : List Piece} {places : List Nat} {n k : Nat}

theorem exists_out (h : indexed.Shows ⟨queue, opened, closed, n, k⟩) :
    ∃ out, indexed = ⟨queue, out, opened.map Piece.serial, k⟩ := by
  obtain ⟨queue', out, opened', k'⟩ := indexed
  obtain rfl : queue' = queue := h.queue
  obtain rfl : opened' = opened.map Piece.serial := h.opened
  obtain rfl : k' = k := h.resolutions
  exact ⟨out, rfl⟩

theorem lt_length (h : indexed.Shows shown) {piece : Piece}
    (hp : piece ∈ shown.closed ++ shown.opened) : piece.serial < indexed.out.length :=
  List.mem_range.mp (h.serials.mem_iff.mp (List.mem_map_of_mem hp))

/-- Every place on the stack is one of the list. -/
theorem inside (h : indexed.Shows shown) :
    ∀ place ∈ indexed.opened, place < indexed.out.length := by
  rw [h.opened]
  exact List.forall_mem_map.mpr fun piece hp => h.lt_length (List.mem_append_right _ hp)

/-- At the innermost place stands the range of the innermost piece. -/
theorem getElem?_top (h : Shows ⟨queue, out, places, k⟩ ⟨queue, top :: outer, closed, n, k⟩) :
    out[top.serial]? = some top.range :=
  h.ranges top (List.mem_append_right _ (List.mem_cons_self ..))

/-- Other ranges may be queued and cuts be counted. -/
theorem requeue (h : Shows ⟨queue, out, places, k⟩ ⟨queue, opened, closed, n, k⟩)
    (queue' : List MarkRange) (k' : Nat) :
    Shows ⟨queue', out, places, k'⟩ ⟨queue', opened, closed, n, k'⟩ :=
  ⟨rfl, rfl, h.emitted, h.opened, h.ranges, h.serials⟩

/-- Opening a range puts it at the end of the list. -/
theorem enter (h : Shows ⟨queue, out, places, k⟩ ⟨queue, opened, closed, n, k⟩)
    (range : MarkRange) : Shows ⟨queue, out ++ [range], out.length :: places, k⟩
      ⟨queue, ⟨n, range⟩ :: opened, closed, n + 1, k⟩ := by
  obtain rfl : n = out.length := h.emitted
  have hpieces : (closed ++ ⟨out.length, range⟩ :: opened).Perm
      (⟨out.length, range⟩ :: (closed ++ opened)) := List.perm_middle
  refine ⟨rfl, rfl, by simp, congrArg _ h.opened, ?ranges, ?serials⟩
  case ranges =>
      intro piece hp
      rcases List.mem_cons.mp (hpieces.mem_iff.mp hp) with rfl | hp
      · exact List.getElem?_concat_length
      · exact (List.getElem?_append_left (h.lt_length hp)).trans (h.ranges piece hp)
  case serials =>
      rw [List.length_append, List.length_singleton, List.range_succ]
      refine (hpieces.map Piece.serial).trans ?_
      exact (h.serials.cons out.length).trans (List.perm_append_singleton ..).symm

/-- Closing a piece leaves it at its place, cut or not. -/
theorem leave (h : Shows ⟨queue, out, places, k⟩ ⟨queue, top :: outer, closed, n, k⟩)
    (range : MarkRange) : Shows ⟨queue, out.set top.serial range, outer.map Piece.serial, k⟩
      ⟨queue, outer, { top with range := range } :: closed, n, k⟩ := by
  have hpieces : (closed ++ top :: outer).Perm (top :: (closed ++ outer)) := List.perm_middle
  have hserials : (top.serial :: (closed ++ outer).map Piece.serial).Perm
      (List.range out.length) := (hpieces.symm.map Piece.serial).trans h.serials
  refine ⟨rfl, rfl, h.emitted.trans List.length_set.symm, rfl, ?ranges, ?serials⟩
  case ranges =>
      -- no other piece has the number of the one that is closed
      have hother := (List.nodup_cons.mp (hserials.nodup_iff.mpr List.nodup_range)).1
      refine List.forall_mem_cons.mpr ⟨?_, fun piece hp => ?_⟩
      · exact List.getElem?_set_self (h.lt_length (hpieces.mem_iff.mpr (List.mem_cons_self ..)))
      · have hne : top.serial ≠ piece.serial := fun heq =>
          hother (heq ▸ List.mem_map_of_mem hp)
        have hmem := hpieces.mem_iff.mpr (List.mem_cons_of_mem _ hp)
        exact (List.getElem?_set_ne hne).trans (h.ranges piece hmem)
  case serials =>
      rw [List.length_set]
      exact hserials

end Shows

/-! ## Steps show turns -/

theorem step?_nil {range : MarkRange} {queue : List MarkRange}
    (hq : sweep.queue = range :: queue) (ho : sweep.opened = []) :
    sweep.step? order? budget = .next <$> sweep.openNext? range queue := by
  rw [step?, if_pos (by simp [ho]), hq, ho]

theorem step?_cons {range enclosing : MarkRange} {queue : List MarkRange} {top : Nat}
    {outer : List Nat} (hinside : ∀ place ∈ sweep.opened, place < sweep.out.length)
    (hq : sweep.queue = range :: queue) (ho : sweep.opened = top :: outer)
    (htop : sweep.out[top]? = some enclosing) :
    sweep.step? order? budget =
      if enclosing.stop ≤ range.start then some (.next { sweep with opened := outer })
      else if range.stop ≤ enclosing.stop then .next <$> sweep.openNext? range queue
      else if budget ≤ sweep.resolutions then
        some (.diverged ⟨sweep.resolutions, sweep.out.length + queue.length⟩)
      else .next <$> sweep.resolve? order? top outer enclosing range queue := by
  rw [step?, if_pos hinside, hq, ho]
  dsimp only
  rw [htop]
  rfl

section Turns

variable {indexed : IndexedSweep} {shown after : Sweep} {registry : Registry}
  {priority : Priority}

/-- Every turn is a step that has a result, and the results show each other again. -/
theorem step?_of_turn (turn : Turn (registry.compare priority) shown after)
    (h : indexed.Shows shown) (htidy : shown.Tidy)
    (hmarks : ∀ range ∈ shown.ranges, registry.Has range.mark)
    (hb : after.resolutions ≤ budget) :
    ∃ next, indexed.step? (registry.compare? priority) budget = some (.next next) ∧
      next.Shows after := by
  have hcompare {range : MarkRange} {queue : List MarkRange} {top : Piece}
      {outer closed : List Piece} {n k : Nat}
      (hmarks : ∀ r ∈ Sweep.ranges ⟨range :: queue, top :: outer, closed, n, k⟩,
        registry.Has r.mark) :
      registry.compare? priority top.range.mark range.mark =
        some (registry.compare priority top.range.mark range.mark) :=
    Registry.compare?_eq_some (hmarks _ (by simp [Sweep.ranges]))
      (hmarks _ (by simp [Sweep.ranges])) priority
  cases turn with
  | @enter range queue opened closed n k fits =>
      obtain ⟨out, rfl⟩ := h.exists_out
      have hne := htidy.queued range (List.mem_cons_self ..)
      refine ⟨_, ?_, (h.requeue queue k).enter range⟩
      cases opened with
      | nil => rw [step?_nil rfl rfl, openNext?_eq_some (Nat.le_of_lt hne)]; rfl
      | cons top outer =>
          obtain ⟨hlt, hle⟩ := fits top rfl
          rw [step?_cons h.inside rfl rfl h.getElem?_top, if_neg (Nat.not_le.mpr hlt), if_pos hle,
            openNext?_eq_some (Nat.le_of_lt hne)]
          rfl
  | @leave range queue top outer closed n k ended =>
      obtain ⟨out, rfl⟩ := h.exists_out
      refine ⟨⟨range :: queue, out, outer.map Piece.serial, k⟩, ?_, ?_⟩
      · rw [step?_cons h.inside rfl rfl h.getElem?_top, if_pos ended]
      · have hsame : out.set top.serial top.range = out := by
          obtain ⟨hlt, htop⟩ := List.getElem?_eq_some_iff.mp h.getElem?_top
          rw [← htop, List.set_getElem_self]
        have hleave := h.leave top.range
        rwa [hsame] at hleave
  | @trim range queue top outer closed n k outlives same =>
      obtain ⟨out, rfl⟩ := h.exists_out
      refine ⟨_, ?_, h.requeue _ (k + 1)⟩
      rw [step?_cons h.inside rfl rfl h.getElem?_top, if_neg (Nat.not_le.mpr outlives.1),
        if_neg (Nat.not_le.mpr outlives.2), if_neg (Nat.not_le.mpr hb), resolve?]
      rw [if_pos same, enqueue?_eq_some (Nat.le_of_lt outlives.2)]
      rfl
  | @yield range queue top outer closed n k outlives differ lower =>
      obtain ⟨out, rfl⟩ := h.exists_out
      have hstart := htidy.reached top (List.mem_cons_self ..) range (List.mem_cons_self ..)
      refine ⟨_, ?_, (h.requeue _ (k + 1)).leave { top.range with stop := range.start }⟩
      rw [step?_cons h.inside rfl rfl h.getElem?_top, if_neg (Nat.not_le.mpr outlives.1),
        if_neg (Nat.not_le.mpr outlives.2), if_neg (Nat.not_le.mpr hb), resolve?]
      rw [if_neg differ, hcompare hmarks, lower, MarkRange.upright?_eq_some hstart,
        enqueue?_eq_some (Nat.le_of_lt outlives.1)]
      rfl
  | @shorten range queue top outer closed n k outlives differ stays =>
      obtain ⟨out, rfl⟩ := h.exists_out
      refine ⟨_, ?_, (h.requeue _ (k + 1)).enter { range with stop := top.range.stop }⟩
      rw [step?_cons h.inside rfl rfl h.getElem?_top, if_neg (Nat.not_le.mpr outlives.1),
        if_neg (Nat.not_le.mpr outlives.2), if_neg (Nat.not_le.mpr hb), resolve?]
      rw [if_neg differ, hcompare hmarks]
      dsimp only [Option.bind_eq_bind, Option.bind_some]
      rw [if_neg stays, enqueue?_eq_some (Nat.le_of_lt outlives.2), Option.bind_some,
        openNext?_eq_some (Nat.le_of_lt outlives.1)]
      rfl

theorem step?_finished (h : indexed.Shows shown) (hs : shown.step (registry.compare priority)
    budget = .finished) : indexed.step? order? budget = some .finished := by
  rw [step?, if_pos h.inside, h.queue, Sweep.step_eq_finished.mp hs]

/-- A sweep that is stopped by its limit is stopped in either form, with the same report. -/
theorem step?_diverged {order : Nat → Nat → Ordering} {cause : Diverged} (h : indexed.Shows shown)
    (hs : shown.step order budget = .diverged cause) :
    indexed.step? order? budget = some (.diverged cause) := by
  obtain ⟨queue, opened, closed, n, k⟩ := shown
  obtain ⟨out, rfl⟩ := h.exists_out
  unfold Sweep.step at hs
  split at hs
  · cases hs
  · cases hs
  · next range queue top outer hq ho =>
    cases hq; cases ho
    split at hs
    · cases hs
    next ended =>
    split at hs
    · cases hs
    next fits =>
    split at hs
    · next hb =>
      cases hs
      rw [step?_cons h.inside rfl rfl h.getElem?_top, if_neg ended, if_neg fits, if_pos hb,
        h.emitted]
    · cases hs

end Turns

/-! ## Whole sweeps -/

/-- Both sweeps ended, and show each other, or both were stopped for the same cause. -/
inductive Agrees : Except Diverged IndexedSweep → Except Diverged Sweep → Prop where
  | ok {indexed : IndexedSweep} {final : Sweep} (shows : indexed.Shows final) :
      Agrees (.ok indexed) (.ok final)
  | error (cause : Diverged) : Agrees (.error cause) (.error cause)

section Run

variable {indexed : IndexedSweep} {shown final : Sweep} {registry : Registry}
  {ranges : List MarkRange}

/-- An indexed sweep that starts with a sweep has a result, and ends as that does. -/
theorem run?_of_shows (priority : Priority) (budget : Nat) (h : indexed.Shows shown)
    (htidy : shown.Tidy)
    (hcut : ∀ part ∈ shown.ranges, ∃ range ∈ ranges, part.CutFrom range)
    (hmarks : ∀ range ∈ ranges, registry.Has range.mark) (hb : shown.resolutions ≤ budget) :
    ∃ outcome, indexed.run? (registry.compare? priority) budget = some outcome ∧
      Agrees outcome (shown.run (registry.compare priority) budget) := by
  fun_induction Sweep.run (registry.compare priority) budget shown generalizing indexed with
  | case1 shown hs =>
      refine ⟨.ok indexed, ?_, .ok h⟩
      have hstep : indexed.step? (registry.compare? priority) budget = some .finished :=
        step?_finished h hs
      rw [run?]
      split <;> simp_all
  | case2 shown cause hs =>
      refine ⟨.error cause, ?_, .error cause⟩
      have hstep : indexed.step? (registry.compare? priority) budget = some (.diverged cause) :=
        step?_diverged h hs
      rw [run?]
      split <;> simp_all
  | case3 shown after hs _ ih =>
      obtain ⟨turn, hmax⟩ := Sweep.turn_of_step hs
      have hmarked : ∀ part ∈ shown.ranges, registry.Has part.mark := fun part hp => by
        obtain ⟨range, hr, hpart⟩ := hcut part hp
        rw [hpart.mark]
        exact hmarks range hr
      have hafter : after.resolutions ≤ budget :=
        Nat.le_trans hmax (Nat.max_le.mpr ⟨hb, Nat.le_refl _⟩)
      obtain ⟨next, hstep, hnext⟩ := step?_of_turn turn h htidy hmarked hafter
      obtain ⟨outcome, hrun, hagrees⟩ := ih hnext (htidy.turn turn)
        ((Sweep.recut_of_turn turn htidy).cutFrom hcut) hafter
      refine ⟨outcome, ?_, hagrees⟩
      rw [run?]
      split <;> simp_all

/-- The pieces of a sweep, in the order of their numbers, are the list. -/
theorem Shows.pieces_eq (h : indexed.Shows final) : final.pieces = indexed.out := by
  let sorted := (final.closed ++ final.opened).mergeSort fun a b => a.serial ≤ b.serial
  have hperm : sorted.Perm (final.closed ++ final.opened) := List.mergeSort_perm _ _
  have hserials : sorted.map Piece.serial = List.range indexed.out.length := by
    have hsorted : (sorted.map Piece.serial).Pairwise (· ≤ ·) :=
      List.pairwise_map.mpr ((List.pairwise_mergeSort
        (by simpa using fun a b c : Piece => Nat.le_trans)
        (by simpa using fun a b : Piece => Nat.le_total a.serial b.serial) _).imp
        of_decide_eq_true)
    refine List.Perm.eq_of_pairwise (fun _ _ _ _ => Nat.le_antisymm) hsorted ?_
      ((hperm.map _).trans h.serials)
    exact List.pairwise_lt_range.imp Nat.le_of_lt
  have hrange (piece : Piece) (hp : piece ∈ sorted) :
      some piece.range = indexed.out[piece.serial]? :=
    (h.ranges piece (hperm.mem_iff.mp hp)).symm
  refine List.map_inj_right (fun _ _ => Option.some.inj) |>.mp ?_
  calc (sorted.map Piece.range).map some
      = (sorted.map Piece.serial).map (indexed.out[·]?) := by
        rw [List.map_map, List.map_map]
        exact List.map_congr_left hrange
    _ = indexed.out.map some := by
        rw [hserials]
        refine List.ext_getElem (by simp) fun place _ _ => ?_
        simp

end Run

end IndexedSweep

/-! ## Untangling -/

/-- The ranges sorted for opening, by entries that were looked up before. -/
def sortForOpening? (registry : Registry) (priority : Priority) (ranges : List MarkRange) :
    Option (List MarkRange) := do
  let marked ← ranges.mapM fun range => (range, ·) <$> registry.entry? range.mark
  return (marked.mergeSort fun a b =>
    openingOrder (fun _ _ => priority.compare a.2 b.2) a.1 b.1 != .gt).map Prod.fst

/-- Untangling with every read checked. -/
def untangle? (registry : Registry) (priority : Priority) (ranges : List MarkRange) :
    Option (Except Diverged (List MarkRange)) := do
  let budget ← cutBudget? ranges
  let upright ← ranges.mapM MarkRange.upright?
  let start : IndexedSweep := { queue := (Sweep.ofRanges upright).queue }
  match ← start.run? (registry.compare? priority) budget with
  | .ok sweep => .ok <$> sortForOpening? registry priority sweep.out
  | .error cause => return .error cause

section Untangle

variable {registry : Registry} {ranges : List MarkRange}

theorem exists_marked (hmarks : ∀ range ∈ ranges, registry.Has range.mark) :
    ∃ marked : List (MarkRange × Entry),
      ranges.mapM (fun range => (range, ·) <$> registry.entry? range.mark) = some marked ∧
        marked.map Prod.fst = ranges ∧
          ∀ pair ∈ marked, registry.entry? pair.1.mark = some pair.2 := by
  induction ranges with
  | nil => exact ⟨[], rfl, rfl, by simp⟩
  | cons range rest ih =>
      obtain ⟨⟨entry, hentry⟩, hrest⟩ := List.forall_mem_cons.mp hmarks
      obtain ⟨marked, hmarked, hranges, hentries⟩ := ih hrest
      refine ⟨(range, entry) :: marked, ?_, congrArg _ hranges,
        List.forall_mem_cons.mpr ⟨hentry, hentries⟩⟩
      rw [List.mapM_cons, hentry, hmarked]
      rfl

theorem sortForOpening?_eq_some (hmarks : ∀ range ∈ ranges, registry.Has range.mark)
    (priority : Priority) : sortForOpening? registry priority ranges =
      some (sortForOpening (registry.compare priority) ranges) := by
  obtain ⟨marked, hmarked, hranges, hentries⟩ := exists_marked hmarks
  rw [sortForOpening?, hmarked]
  refine congrArg some ?_
  rw [sortForOpening, ← hranges]
  refine List.map_mergeSort fun a ha b hb => ?_
  unfold openingOrder
  rw [Registry.compare, hentries a ha, hentries b hb]

/-- Untangling nonempty ranges of registered marks makes no read out of range: with every read
checked it still has a result, and the same one. -/
theorem untangle?_eq_some (priority : Priority)
    (hne : ∀ range ∈ ranges, range.start < range.stop)
    (hmarks : ∀ range ∈ ranges, registry.Has range.mark) :
    untangle? registry priority ranges = some (untangle (registry.compare priority) ranges) := by
  have hle : ∀ range ∈ ranges, range.start ≤ range.stop := fun range hr =>
    Nat.le_of_lt (hne range hr)
  have hupright : ranges.mapM MarkRange.upright? = some ranges := by
    have h := mapM_eq_some (g := fun range => range) fun range hr =>
      MarkRange.upright?_eq_some (hle range hr)
    rwa [List.map_id'] at h
  have htidy := Sweep.tidy_ofRanges hne
  have hcut : ∀ part ∈ (Sweep.ofRanges ranges).ranges, ∃ range ∈ ranges, part.CutFrom range :=
    fun part hp => by
      have hmem := (Sweep.perm_ranges_ofRanges ranges).mem_iff.mp hp
      exact ⟨part, hmem, .refl (hne part hmem)⟩
  obtain ⟨outcome, hrun, hagrees⟩ := IndexedSweep.run?_of_shows priority (cutBudget ranges)
    (IndexedSweep.shows_ofRanges ranges) htidy hcut hmarks (Nat.zero_le _)
  rw [untangle?, cutBudget?_eq_some hle, hupright]
  dsimp only [Option.bind_eq_bind, Option.bind_some]
  rw [hrun, untangle]
  generalize hplain : (Sweep.ofRanges ranges).run (registry.compare priority)
    (cutBudget ranges) = plain at hagrees ⊢
  cases hagrees with
  | error cause => rfl
  | @ok indexed final shows =>
      obtain ⟨turns, hq⟩ := Sweep.turns_of_run hplain
      have hpieces : ∀ piece ∈ indexed.out, registry.Has piece.mark := by
        intro piece hp
        rw [← shows.pieces_eq] at hp
        obtain ⟨range, hr, hpiece⟩ := Sweep.cutFrom_of_turns turns htidy hcut piece
          ((Sweep.perm_pieces_of_finished hq).mem_iff.mp hp)
        rw [hpiece.mark]
        exact hmarks range hr
      rw [Option.bind_some]
      dsimp only
      rw [sortForOpening?_eq_some hpieces, ← shows.pieces_eq]
      rfl

end Untangle

/-- A range that ends before it starts has no length, and nothing is untangled. -/
example : untangle? .empty .standard [⟨0, 2, 1, 0⟩] = none := rfl

end RichDoc
