import RichDoc.Proofs.Export.Objects

/-!
# What collecting gives

The row of children says all there is to say about the collected ranges.
Which marks are on a leaf can be read off the children (`Applies`): a child
gives its own marks to its leaves, and a breakpoint has the marks that the
nearest children with leaves on both sides give. The ranges put just these on
the leaves, and they are as long as they can be: between two ranges of one
mark stands a leaf of a child that does not give it (`Parted`). So ranges of
one mark have nothing in common and come in order, and they are numbered as
they stand.
-/

namespace RichDoc

/-! ## Leaves between ranges -/

/-- The marks of the run that a leaf belongs to; a breakpoint belongs to none. -/
def Contribution.own : Contribution → List (Option (List Nat))
  | .breakpoint _ => [none]
  | .run chunks marks => List.replicate chunks.length (some marks)

/-- At the position there is a leaf of a run that does not have the mark. -/
def Lacks (own : List (Option (List Nat))) (mark position : Nat) : Prop :=
  ∃ marks, own[position]? = some (some marks) ∧ mark ∉ marks

/-- The runs are numbered as they stand, and something lies behind each run that has ended, before
the next one of its mark. -/
structure Parted (own : List (Option (List Nat))) (edge : Nat) (runs : List Run) : Prop where
  origins : runs.map (fun run => run.range.origin) = List.range runs.length
  lapsed : ∀ run ∈ runs, run.isOpen = false →
    ∃ position, run.range.stop ≤ position ∧ position < edge ∧ Lacks own run.range.mark position
  apart : runs.Pairwise fun a b => a.range.mark = b.range.mark →
    ∃ position, a.range.stop ≤ position ∧ position < b.range.start ∧
      Lacks own a.range.mark position

section Parted

variable {own : List (Option (List Nat))} {edge start stop : Nat} {last marks : List Nat}
  {runs : List Run} {contributions : List Contribution}

theorem start_follow (run : Run) : (run.follow marks stop).range.start = run.range.start := by
  unfold Run.follow
  split
  · split <;> rfl
  · rfl

theorem origin_follow (run : Run) : (run.follow marks stop).range.origin = run.range.origin := by
  unfold Run.follow
  split
  · split <;> rfl
  · rfl

/-- A run that has ended stays as it is. -/
theorem follow_of_closed {run : Run} (h : run.isOpen = false) : run.follow marks stop = run := by
  rw [Run.follow, h]
  rfl

/-- The marks for which a run starts. -/
def freshMarks (marks : List Nat) (runs : List Run) : List Nat :=
  marks.filter fun mark => !runs.any fun run => run.isOpen && run.range.mark == mark

theorem isOpen_of_mem_freshMarks {mark : Nat} (h : mark ∈ freshMarks marks runs) {run : Run}
    (hr : run ∈ runs) (hmark : run.range.mark = mark) : run.isOpen = false := by
  have hnone := (List.mem_filter.mp h).2
  rw [Bool.not_eq_true', List.any_eq_false] at hnone
  simpa [hmark] using hnone run hr

theorem origins_fresh (fresh : List Nat) (first : Nat) :
    ((fresh.zipIdx first).map fun (mark, origin) =>
      (⟨⟨mark, start, stop, origin⟩, true⟩ : Run)).map (fun run => run.range.origin) =
        List.range' first fresh.length := by
  rw [List.map_map]
  exact List.zipIdx_map_snd first fresh

theorem pairwise_fresh (h : marks.Nodup) (first : Nat) :
    (((freshMarks marks runs).zipIdx first).map fun (mark, origin) =>
      (⟨⟨mark, start, stop, origin⟩, true⟩ : Run)).Pairwise
        fun a b => a.range.mark ≠ b.range.mark := by
  have hmarks : ((freshMarks marks runs).zipIdx first).Pairwise fun a b => a.1 ≠ b.1 := by
    rw [← @List.pairwise_map _ _ _ (· ≠ ·), List.zipIdx_map_fst]
    exact h.filter _
  exact List.pairwise_map.mpr hmarks

/-- A run that ends does so before a leaf that does not have its mark. -/
theorem Parted.step (h : Parted own edge runs) (hc : Collected edge last runs)
    (hmarks : marks.Nodup) (he : edge ≤ start) (hs : start < stop)
    (hown : own[start]? = some (some marks)) :
    Parted own stop (follow marks start stop runs) := by
  refine ⟨?origins, ?lapsed, List.pairwise_append.mpr ⟨List.pairwise_map.mpr ?old, ?new, ?between⟩⟩
  case origins =>
      rw [follow, List.map_append, origins_fresh, List.map_map]
      simp only [Function.comp_def, origin_follow, List.length_append, List.length_map,
        List.length_zipIdx]
      rw [h.origins, List.range_eq_range', List.range_eq_range', ← List.range'_append_1,
        Nat.zero_add]
  case lapsed =>
      intro run hr hclosed
      rcases List.mem_append.mp hr with hr | hr
      · obtain ⟨old, hold, rfl⟩ := List.mem_map.mp hr
        cases hopen : old.isOpen with
        | false =>
            rw [follow_of_closed hopen]
            obtain ⟨position, hstop, hlt, hlacks⟩ := h.lapsed old hold hopen
            exact ⟨position, hstop, by omega, hlacks⟩
        | true =>
            -- the run ends here, before the leaf at the start of the new one
            rw [isOpen_follow, hopen, Bool.true_and, decide_eq_false_iff_not] at hclosed
            have hreached := hc.reaching old hold hopen
            refine ⟨start, ?_, hs, marks, hown, by rwa [mark_follow]⟩
            rw [Run.follow, if_pos hopen, if_neg hclosed]
            exact hreached.le.trans he
      · obtain ⟨⟨mark, origin⟩, -, rfl⟩ := List.mem_map.mp hr
        cases hclosed
  case old =>
      refine h.apart.imp_of_mem fun {a b} ha hb hab hsame => ?_
      rw [mark_follow, mark_follow] at hsame
      obtain ⟨position, hstop, hlt, hlacks⟩ := hab hsame
      have hclosed : a.isOpen = false := by
        by_contra hopen
        have := hc.reaching a ha (by simpa using hopen)
        have := hc.nonempty b hb
        have := hc.passed b hb
        omega
      rw [follow_of_closed hclosed, start_follow]
      exact ⟨position, hstop, hlt, hlacks⟩
  case new => exact (pairwise_fresh hmarks _).imp fun hne hsame => absurd hsame hne
  case between =>
      intro run hr fresh hf hsame
      obtain ⟨old, hold, rfl⟩ := List.mem_map.mp hr
      obtain ⟨⟨mark, origin⟩, hmark, rfl⟩ := List.mem_map.mp hf
      rw [mark_follow] at hsame
      have hclosed := isOpen_of_mem_freshMarks (List.fst_mem_of_mem_zipIdx hmark) hold hsame
      rw [follow_of_closed hclosed]
      obtain ⟨position, hstop, hlt, hlacks⟩ := h.lapsed old hold hclosed
      exact ⟨position, hstop, Nat.lt_of_lt_of_le hlt he, hlacks⟩

theorem parted_runsFrom (h : Parted own edge runs) (hc : Collected edge last runs)
    (hlast : last.Nodup) (hnodup : ∀ contribution ∈ contributions, contribution.marks.Nodup)
    (he : edge ≤ start) (hown : own.drop start = contributions.flatMap Contribution.own) :
    ∃ edge', Parted own edge' (runsFrom start runs contributions) := by
  induction contributions generalizing edge start last runs with
  | nil => exact ⟨edge, h⟩
  | cons contribution rest ih =>
      obtain ⟨hfirst, hrest⟩ := List.forall_mem_cons.mp hnodup
      have hnext : own.drop (start + contribution.own.length) = rest.flatMap Contribution.own := by
        rw [← List.drop_drop, hown, List.flatMap_cons, List.drop_left]
      cases contribution with
      | breakpoint chunk => exact ih h hc hlast hrest (Nat.le_succ_of_le he) hnext
      | run chunks marks =>
          rw [Contribution.own, List.length_replicate] at hnext
          rw [runsFrom]
          cases hempty : chunks.isEmpty with
          | true => exact ih h hc hlast hrest (Nat.le_add_right_of_le he) hnext
          | false =>
              have hpos : 0 < chunks.length :=
                List.length_pos_iff.mpr (List.isEmpty_eq_false_iff.mp hempty)
              have hs : start < start + chunks.length := Nat.lt_add_of_pos_right hpos
              have hat : own[start]? = some (some marks) := by
                have := congrArg (·[0]?) hown
                simpa [Contribution.own, hpos] using this
              exact ih (h.step hc hfirst he hs hat) (hc.step hlast hfirst he hs) hfirst hrest
                le_rfl hnext

theorem parted_collectRanges
    (hnodup : ∀ contribution ∈ contributions, contribution.marks.Nodup) :
    (collectRanges contributions).map MarkRange.origin =
        List.range (collectRanges contributions).length ∧
      (collectRanges contributions).Pairwise fun a b => a.mark = b.mark →
        ∃ position, a.stop ≤ position ∧ position < b.start ∧
          Lacks (contributions.flatMap Contribution.own) a.mark position := by
  have hnone : Parted (contributions.flatMap Contribution.own) 0 [] := ⟨rfl, nofun, .nil⟩
  obtain ⟨edge, h⟩ :=
    parted_runsFrom hnone collected_nil List.nodup_nil hnodup le_rfl List.drop_zero
  refine ⟨?_, List.pairwise_map.mpr h.apart⟩
  rw [collectRanges, List.map_map, List.length_map]
  exact h.origins

end Parted

/-! ## Which marks apply to a leaf -/

/-- The types of the nodes that ranges run through. -/
def NodeKind.isBreakpoint : NodeKind → Bool
  | hardBreak | note | indexRef | emptySpan => true
  | _ => false

def Node.isBreakpoint (node : Node) : Bool := node.kind?.any NodeKind.isBreakpoint

/-- The child has the mark with the index, and is no text under a code or math mark. -/
def Node.Gives (registry : Registry) (mark : Nat) (node : Node) : Prop :=
  (∃ own ∈ node.marks, registry.index? own = some mark) ∧
    ¬ (node.kind? = some .text ∧ ∃ own ∈ node.marks, own.isOpaque = true)

/-- The child is no breakpoint and has leaves. -/
def counts (entry : Node × Contribution) : Bool :=
  !entry.1.isBreakpoint && !entry.2.chunks.isEmpty

/-- The leaves of children, in a row. -/
def leavesOf (row : List (Node × Contribution)) : List Chunk :=
  row.flatMap fun entry => entry.2.chunks

/-- The position is that of a leaf of the child that stands between the others. -/
def StandsAt (row : List (Node × Contribution)) (position : Nat)
    (before : List (Node × Contribution)) (entry : Node × Contribution)
    (behind : List (Node × Contribution)) : Prop :=
  row = before ++ entry :: behind ∧
    ∃ offset < entry.2.chunks.length, position = (leavesOf before).length + offset

/-- The mark applies to the leaves of a child between others: the child gives it, or, if it is a
breakpoint, the nearest children that count do, on both sides. -/
def Applies (registry : Registry) (mark : Nat) (before : List (Node × Contribution)) (child : Node)
    (behind : List (Node × Contribution)) : Prop :=
  if child.isBreakpoint then
    (∃ earlier ∈ before.reverse.find? counts, earlier.1.Gives registry mark) ∧
      ∃ later ∈ behind.find? counts, later.1.Gives registry mark
  else child.Gives registry mark

section Applies

variable {settings : Settings} {registry : Registry} {index mark position : Nat} {node : Node}
  {contribution : Contribution} {contributions : List Contribution}
  {row before behind : List (Node × Contribution)} {entry : Node × Contribution}

theorem Node.mem_markIndexes_iff_gives
    (h : ¬ (node.kind? = some .text ∧ ∃ own ∈ node.marks, own.isOpaque = true)) :
    mark ∈ node.markIndexes registry ↔ node.Gives registry mark := by
  rw [Node.mem_markIndexes, Node.Gives, and_iff_left h]

/-- A child brings a breakpoint, or a run with the marks that it gives. -/
theorem Node.contribution?_cases
    (h : node.contribution? settings registry index = some contribution) :
    (node.isBreakpoint = true ∧ ∃ chunk, contribution = .breakpoint chunk) ∨
      (node.isBreakpoint = false ∧ ∃ chunks marks, contribution = .run chunks marks ∧
        ∀ mark, mark ∈ marks ↔ node.Gives registry mark) := by
  have hkind {kind : NodeKind} (known : node.kind? = some kind) :
      node.isBreakpoint = kind.isBreakpoint := by
    rw [isBreakpoint, known]
    rfl
  unfold contribution? at h
  split at h
  · next known => cases h; exact .inl ⟨hkind known, _, rfl⟩
  · next known => cases h; exact .inl ⟨hkind known, _, rfl⟩
  · next known => cases h; exact .inl ⟨hkind known, _, rfl⟩
  · next known => cases h; exact .inl ⟨hkind known, _, rfl⟩
  · next known =>
    split at h
    · next hleaf =>
      cases h
      refine .inr ⟨hkind known, _, _, rfl, fun mark => iff_of_false List.not_mem_nil ?_⟩
      rintro ⟨-, hclear⟩
      refine hclear ⟨known, ?_⟩
      by_contra hnone
      rw [opaqueLeaf?_eq_none_iff.mpr fun own hown =>
        Bool.eq_false_iff.mpr fun ho => hnone ⟨own, hown, ho⟩] at hleaf
      cases hleaf
    · next hleaf =>
      cases h
      refine .inr ⟨hkind known, _, _, rfl, fun mark => mem_markIndexes_iff_gives ?_⟩
      rintro ⟨-, own, hown, ho⟩
      rw [opaqueLeaf?_eq_none_iff.mp hleaf own hown] at ho
      cases ho
  · next known =>
    cases h
    exact .inr ⟨hkind known, _, _, rfl, fun mark => mem_markIndexes_iff_gives (by simp [known])⟩
  · next known =>
    cases h
    exact .inr ⟨hkind known, _, _, rfl, fun mark => mem_markIndexes_iff_gives (by simp [known])⟩
  · cases h

/-- The entries are children with what they bring. -/
def Brought (settings : Settings) (registry : Registry) (row : List (Node × Contribution)) : Prop :=
  ∀ entry ∈ row, ∃ index, entry.1.contribution? settings registry index = some entry.2

/-- The marks of the next run that has leaves are those that the next child that counts gives. -/
theorem mem_nextMarks_iff (h : Brought settings registry row) :
    mark ∈ nextMarks (row.map Prod.snd) ↔
      ∃ later ∈ row.find? counts, later.1.Gives registry mark := by
  induction row with
  | nil => simp [nextMarks]
  | cons entry rest ih =>
      obtain ⟨⟨index, hentry⟩, hrest⟩ := List.forall_mem_cons.mp h
      obtain ⟨node, contribution⟩ := entry
      rw [List.map_cons]
      rcases Node.contribution?_cases hentry with
        ⟨hbreak, chunk, rfl⟩ | ⟨hbreak, chunks, marks, rfl, hgives⟩
      · rw [nextMarks, List.find?_cons_of_neg (by simp [counts, hbreak])]
        exact ih hrest
      · rw [nextMarks]
        cases hempty : chunks.isEmpty with
        | true =>
            rw [List.find?_cons_of_neg (by simp [counts, Contribution.chunks, hempty])]
            exact ih hrest
        | false =>
            rw [List.find?_cons_of_pos (by simp [counts, Contribution.chunks, hempty, hbreak])]
            simp [hgives]

/-- Behind some contributions, the marks of the leaves depend on the last run among them only. -/
theorem getElem?_applied_append (before behind : List Contribution) (offset : Nat) :
    (applied (before ++ behind))[(before.flatMap Contribution.chunks).length + offset]? =
      (appliedFrom (nextMarks before.reverse) behind)[offset]? := by
  induction before using List.reverseRecOn generalizing behind offset with
  | nil =>
      rw [List.flatMap_nil, List.length_nil, Nat.zero_add]
      rfl
  | append_singleton before contribution ih =>
      rw [List.append_assoc, List.singleton_append, List.flatMap_append, List.flatMap_singleton,
        List.length_append, Nat.add_assoc, ih, List.reverse_concat]
      cases contribution with
      | breakpoint chunk =>
          rw [appliedFrom, nextMarks, Contribution.chunks, List.length_singleton, Nat.add_comm,
            List.getElem?_cons_succ]
      | run chunks marks =>
          rw [appliedFrom, nextMarks, Contribution.chunks,
            List.getElem?_append_right (by simp), List.length_replicate, Nat.add_sub_cancel_left]

theorem marked_collectRanges_iff
    (hnodup : ∀ contribution ∈ contributions, contribution.marks.Nodup) :
    Marked (collectRanges contributions) mark position ↔
      mark ∈ (applied contributions)[position]?.getD [] := by
  rw [marked_iff_coverings_pos, coverings_collectRanges hnodup, List.count_pos_iff]

/-- The ranges put on a leaf the marks that apply to it. -/
theorem marked_iff_applies (h : Brought settings registry row)
    (hnodup : ∀ contribution ∈ row.map Prod.snd, contribution.marks.Nodup)
    (hat : StandsAt row position before entry behind) :
    Marked (collectRanges (row.map Prod.snd)) mark position ↔
      Applies registry mark before entry.1 behind := by
  obtain ⟨rfl, offset, hoffset, rfl⟩ := hat
  obtain ⟨hbefore, ⟨index, hentry⟩, hbehind⟩ :=
    List.forall_mem_append.mp h |>.imp_right List.forall_mem_cons.mp
  have hreversed : Brought settings registry before.reverse := fun entry hmem =>
    hbefore entry (List.mem_reverse.mp hmem)
  obtain ⟨node, contribution⟩ := entry
  have hlength : (leavesOf before).length =
      ((before.map Prod.snd).flatMap Contribution.chunks).length := by
    rw [List.flatMap_map]
    rfl
  rw [marked_collectRanges_iff hnodup, List.map_append, List.map_cons, hlength,
    getElem?_applied_append, Applies, ← List.map_reverse]
  rcases Node.contribution?_cases hentry with
    ⟨hbreak, chunk, rfl⟩ | ⟨hbreak, chunks, marks, rfl, hgives⟩
  · obtain rfl : offset = 0 := Nat.lt_one_iff.mp hoffset
    rw [if_pos hbreak, appliedFrom, List.getElem?_cons_zero, Option.getD_some, List.mem_filter,
      decide_eq_true_iff, mem_nextMarks_iff hreversed, mem_nextMarks_iff hbehind]
  · have hin : offset < chunks.length := hoffset
    rw [if_neg (by simp [hbreak]), appliedFrom, List.getElem?_append_left (by simpa using hin),
      List.getElem?_replicate, if_pos hin, Option.getD_some, hgives]

/-- A leaf that lacks a mark is one of a child that does not give it. -/
theorem exists_standsAt_of_lacks (h : Brought settings registry row)
    (hlacks : Lacks ((row.map Prod.snd).flatMap Contribution.own) mark position) :
    ∃ before entry behind, StandsAt row position before entry behind ∧
      entry.1.isBreakpoint = false ∧ ¬ entry.1.Gives registry mark := by
  obtain ⟨marks, hown, hnot⟩ := hlacks
  induction row generalizing position with
  | nil => cases hown
  | cons entry rest ih =>
      obtain ⟨⟨index, hentry⟩, hrest⟩ := List.forall_mem_cons.mp h
      have hlength : entry.2.own.length = entry.2.chunks.length := by
        cases entry.2 <;> simp [Contribution.own, Contribution.chunks]
      rw [List.map_cons, List.flatMap_cons, List.getElem?_append] at hown
      split at hown
      · next hlt =>
        rcases Node.contribution?_cases hentry with
          ⟨-, chunk, hchunk⟩ | ⟨hbreak, chunks, own, hchunks, hgives⟩
        · obtain rfl : position = 0 := by
            rw [hchunk] at hlt
            exact Nat.lt_one_iff.mp hlt
          rw [hchunk] at hown
          cases hown
        · rw [hchunks, Contribution.own, List.getElem?_replicate] at hown
          split at hown
          · cases hown
            rw [hlength] at hlt
            exact ⟨[], entry, rest, ⟨rfl, position, hlt, (Nat.zero_add _).symm⟩, hbreak,
              mt (hgives mark).mpr hnot⟩
          · cases hown
      · next hge =>
        obtain ⟨before, found, behind, ⟨rfl, offset, hoffset, hposition⟩, hfound⟩ := ih hrest hown
        refine ⟨entry :: before, found, behind, ⟨rfl, offset, hoffset, ?_⟩, hfound⟩
        rw [leavesOf, List.flatMap_cons, List.length_append, ← hlength, ← leavesOf]
        omega

end Applies

/-! ## Children that are collected -/

namespace Export

variable {environment : Environment} {before after : Progress} {nodes : List Node}
  {contributions : List Contribution}

/-- The children with what each of them brings. -/
theorem Contributes.exists_row {settings : Settings} {registry : Registry}
    (h : Contributes settings registry nodes.zipIdx contributions) :
    ∃ row : List (Node × Contribution), row.map Prod.fst = nodes ∧
      row.map Prod.snd = contributions ∧
      ∀ (index : Nat) (entry : Node × Contribution), row[index]? = some entry →
        entry.1.contribution? settings registry index = some entry.2 := by
  have hlength : nodes.length = contributions.length := by
    simpa using h.length_eq
  refine ⟨nodes.zip contributions, List.map_fst_zip hlength.le, List.map_snd_zip hlength.ge,
    fun index entry hentry => ?_⟩
  obtain ⟨hnode, hcontribution⟩ := List.getElem?_zip_eq_some.mp hentry
  obtain ⟨hlt, hget⟩ := List.getElem?_eq_some_iff.mp hcontribution
  obtain ⟨hlt', hget'⟩ := List.getElem?_eq_some_iff.mp hnode
  have hbrings := h.get (by rwa [List.length_zipIdx]) hlt
  simpa [hget, hget'] using hbrings

/-- **What collecting gives.** If children are collected, the chunks are those of the children in
turn. Every range has its place as its origin, is not empty and stays within the chunks. A chunk
is in a range of a mark just when the mark applies to the child that it is from. Between a range
and a later one of the same mark there is a chunk of a child that is no breakpoint and does not
give the mark. -/
theorem exists_row_of_collectOf (environment : Environment) (known : List Mark) (citations : Nat)
    (path : List String) (nodes : List Node) {chunks : List Chunk} {ranges : List MarkRange}
    (h : (collectOf nodes).runFrom environment ⟨.ofMarks known, citations, path⟩ =
      (.ok (chunks, ranges), after)) :
    ∃ row : List (Node × Contribution),
      row.map Prod.fst = nodes ∧
      (∀ (index : Nat) (entry : Node × Contribution), row[index]? = some entry →
        entry.1.contribution? environment.settings after.registry index = some entry.2) ∧
      chunks = leavesOf row ∧
      (∀ (index : Nat) (range : MarkRange), ranges[index]? = some range →
        range.origin = index ∧ range.start < range.stop ∧ range.stop ≤ chunks.length) ∧
      (∀ position before entry behind, StandsAt row position before entry behind →
        ∀ mark, Marked ranges mark position ↔
          Applies after.registry mark before entry.1 behind) ∧
      ranges.Pairwise fun a b => a.mark = b.mark →
        ∃ position before entry behind, a.stop ≤ position ∧ position < b.start ∧
          StandsAt row position before entry behind ∧ entry.1.isBreakpoint = false ∧
          ¬ entry.1.Gives after.registry a.mark := by
  obtain ⟨contributions, hcontributes, rfl, rfl⟩ := exists_contributes_of_collect h
  obtain ⟨row, hnodes, rfl, hentries⟩ := hcontributes.exists_row
  have hnodup := hcontributes.nodup
  have hbrought : Brought environment.settings after.registry row := fun entry hmem => by
    obtain ⟨index, hindex⟩ := List.mem_iff_getElem?.mp hmem
    exact ⟨index, hentries index entry hindex⟩
  obtain ⟨horigins, hparted⟩ := parted_collectRanges hnodup
  refine ⟨row, hnodes, hentries, List.flatMap_map .., fun index range hrange => ?_,
    fun position before entry behind hat mark => marked_iff_applies hbrought hnodup hat,
    hparted.imp fun {a b} hab hsame => ?_⟩
  · have hmem := List.mem_of_getElem? hrange
    refine ⟨?_, nonempty_of_mem_collectRanges hnodup range hmem,
      stop_le_of_mem_collectRanges hnodup range hmem⟩
    obtain ⟨hlt, rfl⟩ := List.getElem?_eq_some_iff.mp hrange
    have horigin := congrArg (·[index]?) horigins
    simpa [hlt] using horigin
  · obtain ⟨position, hstop, hlt, hlacks⟩ := hab hsame
    obtain ⟨before, entry, behind, hat, hentry⟩ := exists_standsAt_of_lacks hbrought hlacks
    exact ⟨position, before, entry, behind, hstop, hlt, hat, hentry⟩

/-- A strong text, a break, an empty text, a note, two words that are strong and a link, a code text
that is strong too, and a strong text. The first strong range runs through the breakpoints and over
the words, and the code text stands between it and the second one. -/
theorem exists_row_of_collectOf_seven :
    let strong : Mark := ⟨"strong", []⟩
    let nodes : List Node :=
      [{ type := "text", text := some "a", marks := [strong] },
       { type := "hardBreak" },
       { type := "text", text := some "" },
       { type := "note" },
       { type := "text", text := some "b c", marks := [strong, ⟨"link", []⟩, strong] },
       { type := "text", text := some "x", marks := [⟨"code", []⟩, strong] },
       { type := "text", text := some "d", marks := [strong] }]
    let ranges : List MarkRange := [⟨0, 0, 6, 0⟩, ⟨1, 3, 6, 1⟩, ⟨0, 7, 8, 2⟩]
    ∃ chunks after, (collectOf nodes).runFrom {} ⟨.ofMarks [], 0, []⟩ =
        (.ok (chunks, ranges), after) ∧
      ∃ row : List (Node × Contribution), row.map Prod.fst = nodes ∧ chunks = leavesOf row ∧
        (∀ position before entry behind, StandsAt row position before entry behind →
          ∀ mark, Marked ranges mark position ↔
            Applies after.registry mark before entry.1 behind) ∧
        ∃ position before entry behind, 6 ≤ position ∧ position < 7 ∧
          StandsAt row position before entry behind ∧ entry.1.isBreakpoint = false ∧
          ¬ entry.1.Gives after.registry 0 := by
  intro strong nodes ranges
  have hrun : ∃ chunks after, (collectOf nodes).runFrom {} ⟨.ofMarks [], 0, []⟩ =
      (.ok (chunks, ranges), after) := ⟨_, _, by cbv⟩
  obtain ⟨chunks, after, hrun⟩ := hrun
  obtain ⟨row, hnodes, -, hchunks, -, happlies, hparted⟩ :=
    exists_row_of_collectOf {} [] 0 [] nodes hrun
  have hstrong := (List.pairwise_cons.mp hparted).1 ⟨0, 7, 8, 2⟩ (by decide) rfl
  exact ⟨chunks, after, hrun, row, hnodes, hchunks, happlies, hstrong⟩

end Export

end RichDoc
