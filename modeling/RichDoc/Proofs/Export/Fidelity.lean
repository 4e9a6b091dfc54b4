import Mathlib
import RichDoc.Proofs.Export.Assembly
import RichDoc.Proofs.Export.Row

/-!
# Which containers a leaf ends up in

Collecting gives every leaf its marks, untangling leaves them alone, and
assembling puts every leaf into the containers of the ranges that hold its
position. Together that should put a leaf into one container for each of
its marks, and it nearly does. A range that was cut at its own start
leaves an empty piece behind, and the container of that piece is opened
around the leaf at its start, on which the other piece has the same mark.
So a leaf carries the marks that apply to it, each once, and besides them
those of the empty pieces at its position (`emptiedAt`), and every leaf
carries exactly its marks just when no piece is empty.
-/

namespace RichDoc

open Pandoc (Inline)

/-- The marks of the empty ranges at a position. -/
def emptiedAt (position : Nat) (ranges : List MarkRange) : List Nat :=
  (ranges.filter fun range => decide (range.start = position ∧ range.stop ≤ position)).map
    MarkRange.mark

/-- The containers around the leaf are those of the marks, each once. -/
def Carries (leaf : Inline × List Opening) (marks : List Nat) : Prop :=
  (leaf.2.map fun opening => opening.range.mark).Perm marks

/-! ## The containers around a position -/

section Around

variable {position : Nat} {marks : List Nat} {ranges pieces : List MarkRange}

theorem countP_add_countP {α : Type} {one other whole : α → Bool} (l : List α)
    (h : ∀ x, (if one x then 1 else 0) + (if other x then 1 else 0) = if whole x then 1 else 0) :
    l.countP one + l.countP other = l.countP whole := by
  induction l with
  | nil => rfl
  | cons x rest ih =>
      have := h x
      simp only [List.countP_cons]
      omega

theorem count_marks_filter (keeps : MarkRange → Bool) (mark : Nat) (l : List MarkRange) :
    ((l.filter keeps).map MarkRange.mark).count mark =
      l.countP fun range => range.mark == mark && keeps range := by
  rw [List.count, List.countP_map, List.countP_filter]
  rfl

/-- A range that holds a position either covers it or is empty and starts there. -/
theorem count_holds (mark position : Nat) (l : List MarkRange) :
    ((l.filter fun range => decide (range.Holds position)).map MarkRange.mark).count mark =
      coverings (ofMark mark) position l + (emptiedAt position l).count mark := by
  rw [count_marks_filter, emptiedAt, count_marks_filter]
  refine (countP_add_countP l fun range => ?_).symm
  have hholds : range.Holds position ↔
      range.Covers position ∨ range.start = position ∧ range.stop ≤ position := by
    unfold MarkRange.Holds MarkRange.Covers
    omega
  by_cases hcovers : range.Covers position
  · have hempty : ¬ (range.start = position ∧ range.stop ≤ position) := fun ⟨_, hle⟩ =>
      absurd hcovers.2 (Nat.not_lt.mpr hle)
    simp [ofMark, hholds, hcovers, hempty]
  · simp [ofMark, hholds, hcovers]

/-- Where a position is covered by some marks, it is held by these and those of empty ranges. -/
theorem perm_marks_holds (h : ∀ mark, coverings (ofMark mark) position pieces = marks.count mark) :
    ((pieces.filter fun piece => decide (piece.Holds position)).map MarkRange.mark).Perm
      (marks ++ emptiedAt position pieces) := by
  refine List.perm_iff_count.mpr ?_
  intro mark
  rw [count_holds, h, List.count_append]

theorem emptiedAt_eq_nil_iff :
    emptiedAt position pieces = [] ↔
      ∀ piece ∈ pieces, ¬ (piece.start = position ∧ piece.stop ≤ position) := by
  rw [emptiedAt, List.map_eq_nil_iff, List.filter_eq_nil_iff]
  simp only [decide_eq_true_eq]

end Around

/-! ## Rows that are assembled -/

section Rows

variable {contributions : List Contribution} {pieces : List MarkRange} {forest : List Nesting}
  {leaves : List (Inline × List Opening)} {order : Nat → Nat → Ordering}

/-- The marks of every leaf with those of the empty pieces at its position. -/
def doubled (pieces : List MarkRange) (contributions : List Contribution) : List (List Nat) :=
  (applied contributions).mapIdx fun position marks => marks ++ emptiedAt position pieces

/-- Every leaf carries its marks, each once, just when no piece is empty. -/
theorem carries_iff_nonempty (hcarries : List.Forall₂ Carries leaves (doubled pieces contributions))
    (hinside : ∀ piece ∈ pieces, piece.start < (applied contributions).length) :
    List.Forall₂ Carries leaves (applied contributions) ↔
      ∀ piece ∈ pieces, piece.start < piece.stop := by
  constructor
  · intro hexact piece hp
    by_contra hempty
    have hat := hinside piece hp
    have hdoubled : piece.start < (doubled pieces contributions).length := by
      rwa [doubled, List.length_mapIdx]
    have hleaf : piece.start < leaves.length := by
      rwa [hexact.length_eq]
    -- the leaf at the start of the empty piece carries both lists of marks
    have hboth := (hexact.get hleaf hat).symm.trans (hcarries.get hleaf hdoubled)
    have hlength := hboth.length_eq
    simp only [doubled, List.get_eq_getElem, List.getElem_mapIdx, List.length_append] at hlength
    have hnil : emptiedAt piece.start pieces = [] := List.length_eq_zero_iff.mp (by omega)
    exact emptiedAt_eq_nil_iff.mp hnil piece hp ⟨rfl, Nat.not_lt.mp hempty⟩
  · intro hfull
    have hnone : doubled pieces contributions = applied contributions := by
      have hnil (position : Nat) : emptiedAt position pieces = [] :=
        emptiedAt_eq_nil_iff.mpr fun piece hp ⟨hstart, hstop⟩ => by
          have := hfull piece hp
          omega
      exact List.mapIdx_eq_iff.mpr fun position => by simp [hnil]
    rwa [hnone] at hcarries

/-- Under untangled ranges, the leaves of a row carry their marks and those of empty pieces. -/
theorem carries_of_placed (hnodup : ∀ contribution ∈ contributions, contribution.marks.Nodup)
    (hpieces : untangle order (collectRanges contributions) = .ok pieces) {inlines : List Inline}
    (hlength : inlines.length = (contributions.flatMap Contribution.chunks).length)
    (hranges : (openingsIn forest).map Opening.range = pieces)
    (hplaced : leavesIn [] forest = inlines.mapIdx (fun position leaf =>
      (leaf, (openingsIn forest).filter fun opening =>
        decide (opening.range.Holds position)))) :
    List.Forall₂ Carries (leavesIn [] forest) (doubled pieces contributions) := by
  have hne := nonempty_of_mem_collectRanges hnodup
  have hd := disjointed_collectRanges hnodup
  rw [hplaced]
  refine List.forall₂_iff_get.mpr ⟨?_, fun position hleaf hmarks => ?_⟩
  · rw [List.length_mapIdx, doubled, List.length_mapIdx, length_applied, hlength]
  · rw [doubled, List.length_mapIdx] at hmarks
    have hcovered (mark : Nat) : coverings (ofMark mark) position pieces =
        (applied contributions)[position].count mark := by
      rw [coverings_untangle hne hd hpieces, coverings_collectRanges hnodup,
        List.getElem?_eq_getElem hmarks, Option.getD_some]
    have haround : ((openingsIn forest).filter fun opening =>
        decide (opening.range.Holds position)).map (fun opening => opening.range.mark) =
          (pieces.filter fun piece => decide (piece.Holds position)).map MarkRange.mark := by
      rw [← hranges, List.filter_map, List.map_map]
      rfl
    simp only [doubled, Carries, List.get_eq_getElem, List.getElem_mapIdx]
    rw [haround]
    exact perm_marks_holds hcovered

end Rows

/-! ## Nodes that are converted -/

namespace Export

variable {environment : Environment} {start collected after : Progress} {nodes : List Node}
  {contributions : List Contribution} {pieces : List MarkRange} {written : List Inline}

theorem untangle_of_untangled {ranges : List MarkRange}
    (h : (untangled ranges).runFrom environment start = (.ok pieces, after)) :
    untangle (start.registry.compare environment.priority) ranges = .ok pieces ∧
      after = start := by
  obtain ⟨order, between, horder, h⟩ := runFrom_bind_eq_ok h
  cases horder
  cases huntangle : untangle (start.registry.compare environment.priority) ranges with
  | ok found =>
      rw [huntangle] at h
      cases h
      exact ⟨rfl, rfl⟩
  | error cause =>
      rw [huntangle] at h
      cases h

/-- Nodes that were converted to inlines went through all three stages. -/
theorem exists_stages_of_inlinesOf
    (h : (inlinesOf nodes).runFrom environment start = (.ok written, after)) :
    ∃ chunks ranges collected pieces,
      (collectOf nodes).runFrom environment start = (.ok (chunks, ranges), collected) ∧
      untangle (collected.registry.compare environment.priority) ranges = .ok pieces ∧
      (assemble chunks pieces).runFrom environment collected = (.ok written, after) := by
  obtain ⟨⟨chunks, ranges⟩, collected, hcollect, h⟩ := runFrom_bind_eq_ok h
  obtain ⟨pieces, between, huntangled, hassemble⟩ := runFrom_bind_eq_ok h
  obtain ⟨huntangle, rfl⟩ := untangle_of_untangled huntangled
  exact ⟨chunks, ranges, _, pieces, hcollect, huntangle, hassemble⟩

/-- Each piece is for a mark of a node, which is no code or math mark. -/
theorem exists_mark_of_mem_pieces
    (hcontributes : Contributes environment.settings collected.registry nodes.zipIdx contributions)
    (hclear : ∀ node ∈ nodes, node.kind? = some .image ∨ node.kind? = some .rawInline →
      ∀ mark ∈ node.marks, mark.isOpaque = false)
    (hnodup : ∀ contribution ∈ contributions, contribution.marks.Nodup)
    (hpieces : untangle (collected.registry.compare environment.priority)
      (collectRanges contributions) = .ok pieces) :
    ∀ piece ∈ pieces, ∃ mark, collected.registry.index? mark = some piece.mark ∧
      mark.isOpaque = false := by
  intro piece hp
  obtain ⟨range, hr, hcut⟩ :=
    cutFrom_untangle (nonempty_of_mem_collectRanges hnodup) hpieces piece hp
  obtain ⟨contribution, hc, hmem⟩ := exists_mem_marks_of_mem_collectRanges hnodup range hr
  obtain ⟨⟨node, index⟩, hnode, hcontribution⟩ := hcontributes.exists_node hc
  obtain ⟨mark, -, hindex, hplain⟩ := Node.exists_mark_of_mem_marks hcontribution
    (hclear node (List.fst_mem_of_mem_zipIdx hnode)) hmem
  exact ⟨mark, by rw [hcut.mark]; exact hindex, hplain⟩

/-- **What leaves carry.** Inline nodes that convert become a tree of which the inlines are all
that is left. Its leaves are those of the chunks of the nodes, and its containers those of marks,
none of which holds text only. A leaf carries the marks that apply to it, each once, and besides
them the marks of the empty pieces at its position. So every leaf carries exactly its marks if and
only if untangling leaves no empty piece. -/
theorem carries_inlinesOf (environment : Environment) (known : List Mark) (citations : Nat)
    (path : List String) (nodes : List Node)
    (hclear : ∀ node ∈ nodes, node.kind? = some .image ∨ node.kind? = some .rawInline →
      ∀ mark ∈ node.marks, mark.isOpaque = false)
    (h : (inlinesOf nodes).runFrom environment ⟨.ofMarks known, citations, path⟩ =
      (.ok written, after)) :
    ∃ (contributions : List Contribution) (pieces : List MarkRange) (collected : Progress)
      (forest : List Nesting),
      (collectOf nodes).runFrom environment ⟨.ofMarks known, citations, path⟩ =
        (.ok (contributions.flatMap Contribution.chunks, collectRanges contributions),
          collected) ∧
      Contributes environment.settings collected.registry nodes.zipIdx contributions ∧
      untangle (collected.registry.compare environment.priority) (collectRanges contributions) =
        .ok pieces ∧
      written = inlinesIn forest ∧
      List.Forall₂ (Chunk.Gives environment collected)
        (contributions.flatMap Contribution.chunks) ((leavesIn [] forest).map Prod.fst) ∧
      (∀ opening ∈ openingsIn forest, ∃ mark,
        collected.registry.index? mark = some opening.range.mark ∧
        opening.container = .ofMark (.ofName mark.type) mark ∧
        ∀ content, (opening.container.wrap content opening.noteNumber).content = content) ∧
      List.Forall₂ Carries (leavesIn [] forest) (doubled pieces contributions) ∧
      (List.Forall₂ Carries (leavesIn [] forest) (applied contributions) ↔
        ∀ piece ∈ pieces, piece.start < piece.stop) := by
  obtain ⟨chunks, ranges, collected, pieces, hcollect, hpieces, hassemble⟩ :=
    exists_stages_of_inlinesOf h
  obtain ⟨contributions, hcontributes, rfl, rfl⟩ := exists_contributes_of_collect hcollect
  have hnodup : ∀ contribution ∈ contributions, contribution.marks.Nodup := fun c hc => by
    obtain ⟨node, -, hnode⟩ := hcontributes.exists_node hc
    exact Node.nodup_marks hnode
  have hne := nonempty_of_mem_collectRanges hnodup
  have hmarks := exists_mark_of_mem_pieces hcontributes hclear hnodup hpieces
  have hsound : collected.registry.Sound := by
    obtain ⟨marks, hregistry⟩ := ((steady_collect _).leads hcollect).registered
    rw [hregistry]
    exact (Registry.sound_ofMarks known).register marks
  have hinside : ∀ piece ∈ pieces,
      piece.start < (contributions.flatMap Contribution.chunks).length := fun piece hp => by
    obtain ⟨range, hr, hcut⟩ := cutFrom_untangle hne hpieces piece hp
    exact Nat.lt_of_lt_of_le hcut.inside (stop_le_of_mem_collectRanges hnodup range hr)
  have hsteady : ∀ chunk ∈ contributions.flatMap Contribution.chunks, chunk.Steady :=
    yields_collect (Prepared.steady_ofNodes nodes) _ _ _ _ hcollect
  obtain ⟨forest, leaves, hwritten, hgives, hplaced, hranges, hcontained⟩ :=
    nesting_of_assemble hsteady (pairwise_untangle hpieces) (laminar_untangle hne hpieces) hinside
      (fun piece hp => by
        obtain ⟨mark, hindex, -⟩ := hmarks piece hp
        obtain ⟨entry, hentry, -⟩ := Registry.exists_stands hindex
        exact ⟨entry, hentry⟩) hassemble
  have hcarries := carries_of_placed hnodup hpieces hgives.length_eq.symm hranges hplaced
  refine ⟨contributions, pieces, collected, forest, hcollect, hcontributes, hpieces, hwritten,
    ?_, fun opening ho => ?_, hcarries, carries_iff_nonempty hcarries ?_⟩
  · have hleaves : (leavesIn [] forest).map Prod.fst = leaves := by
      rw [hplaced]
      exact List.ext_getElem (by simp) (by simp)
    rwa [hleaves]
  · have hmem : opening.range ∈ pieces := by
      rw [← hranges]
      exact List.mem_map_of_mem ho
    obtain ⟨mark, hindex, hplain⟩ := hmarks _ hmem
    obtain ⟨made, htype, hmade, hcontainer⟩ := hsound.containerAt hindex
    have hmadeOf : opening.container = .ofMark (.ofName made.type) made :=
      (hcontained opening ho).trans hcontainer
    refine ⟨made, hmade, hmadeOf, fun content => Container.content_wrap ?_ content _⟩
    rw [hmadeOf, Container.holdsText_ofMark, htype]
    exact hplain
  · rw [length_applied]
    exact hinside

/-- Four texts under a citation, a strong and a link. The strong range is cut at its own start,
and the second text is put into two strong containers. -/
theorem carries_inlinesOf_four :
    let nodes : List Node :=
      [{ type := "text", text := some "a", marks := [⟨"citation", []⟩] },
       { type := "text", text := some "b",
         marks := [⟨"citation", []⟩, ⟨"strong", []⟩, ⟨"link", []⟩] },
       { type := "text", text := some "c", marks := [⟨"strong", []⟩, ⟨"link", []⟩] },
       { type := "text", text := some "d", marks := [⟨"strong", []⟩] }]
    ∃ (forest : List Nesting) (after : Progress),
      (inlinesOf nodes).runFrom {} ⟨.ofMarks [], 0, []⟩ = (.ok (inlinesIn forest), after) ∧
      List.Forall₂ Carries (leavesIn [] forest) [[0], [0, 1, 2, 1], [1, 2], [1]] ∧
      ¬ List.Forall₂ Carries (leavesIn [] forest) [[0], [0, 1, 2], [1, 2], [1]] := by
  intro nodes
  have hok : ((inlinesOf nodes).runFrom {} ⟨.ofMarks [], 0, []⟩).1.toBool = true := by cbv
  cases hrun : (inlinesOf nodes).runFrom {} ⟨.ofMarks [], 0, []⟩ with
  | mk result after =>
      cases result with
      | error error =>
          rw [hrun] at hok
          cases hok
      | ok written =>
          obtain ⟨contributions, pieces, collected, forest, hcollect, hcontributes, huntangle,
            rfl, -, -, hcarries, hexact⟩ := carries_inlinesOf {} [] 0 [] nodes (by decide) hrun
          have hcollected : collected = ((collectOf nodes).runFrom {} ⟨.ofMarks [], 0, []⟩).2 := by
            rw [hcollect]
          have hcontributions := filterMap_eq_of_forall₂ hcontributes
          have happlied : applied contributions = [[0], [0, 1, 2], [1, 2], [1]] := by
            rw [← hcontributions, hcollected]
            cbv
          have hpieces : pieces = [⟨0, 0, 2, 0⟩, ⟨1, 1, 2, 1⟩, ⟨2, 1, 2, 2⟩, ⟨1, 1, 1, 1⟩,
              ⟨1, 2, 4, 1⟩, ⟨2, 2, 3, 2⟩] := by
            rw [← hcontributions, hcollected] at huntangle
            refine Except.ok.inj (huntangle.symm.trans ?_)
            cbv
          refine ⟨forest, after, rfl, ?_, ?_⟩
          · rw [doubled, happlied, hpieces] at hcarries
            exact hcarries
          · rw [happlied, hpieces] at hexact
            rw [hexact]
            decide

end Export

end RichDoc
