import RichDoc.Proofs.Export.Fidelity
import RichDoc.Proofs.Export.Inventory
import RichDoc.Proofs.Mark.Linear
import RichDoc.Proofs.Pandoc.Cites
import RichDoc.Proofs.Range.Locality

/-!
# Rows that were converted

A row that was converted has been collected, untangled and assembled, under
the registry that there was at that time. More marks may have been
registered since. They change neither what the nodes bring to the row nor
how its ranges are cut (`Converted`), so all of it can be read off the
registry in the end. Collecting registers nothing but marks of the nodes,
and numbers no citation.
-/

namespace RichDoc

open Pandoc (Inline Citation)

/-! ## What collecting registers -/

/-- The mark lists a work with an identifier. -/
def Mark.Cites (mark : Mark) : Prop :=
  ∃ items members id, mark.attrs.get? "references" = some (.arr items) ∧ .obj members ∈ items ∧
    Attributes.string? members "id" = some id

theorem Mark.Cites.references_ne_nil {mark : Mark} (h : mark.Cites) :
    Reference.ofCitation mark.attrs ≠ [] := by
  obtain ⟨items, members, id, hitems, hmem, hid⟩ := h
  have hreference : ∃ reference, Reference.ofAttributes?
      ((Reference.mode? mark.attrs).getD .normalCitation) members = some reference := by
    rw [Reference.ofAttributes?, hid]
    exact ⟨_, rfl⟩
  obtain ⟨reference, hreference⟩ := hreference
  unfold Reference.ofCitation
  rw [hitems]
  exact List.ne_nil_of_mem (List.mem_filterMap.mpr ⟨.obj members, hmem, hreference⟩)

/-- The mark cites something, if it is a citation. -/
def Mark.CitesIfCitation (mark : Mark) : Prop :=
  MarkKind.ofName mark.type = .citation → mark.Cites

/-- A registry that was built by looking marks up, and every citation in it cites something. -/
structure Registry.Citing (registry : Registry) : Prop where
  sound : registry.Sound
  cites : ∀ index, registry.containerAt index ≠ .cite []

namespace Registry

variable {registry : Registry} {mark : Mark} {marks : List Mark}

theorem citing_empty : empty.Citing := by
  refine ⟨sound_ofMarks [], fun index => ?_⟩
  simp [containerAt, entry?, empty]

theorem containerAt_indexOf (registry : Registry) (mark : Mark) (index : Nat) :
    containerAt (registry.indexOf mark).2 index = registry.containerAt index ∨
      containerAt (registry.indexOf mark).2 index = .ofMark (.ofName mark.type) mark := by
  cases hm : registry.index? mark with
  | some found =>
      rw [indexOf_of_index? hm]
      exact .inl rfl
  | none =>
      rw [indexOf_of_index?_eq_none hm]
      unfold containerAt entry?
      dsimp only
      rw [Array.getElem?_push]
      by_cases hindex : index = registry.entries.size
      · rw [if_pos hindex]
        exact .inr rfl
      · rw [if_neg hindex]
        exact .inl rfl

theorem Citing.indexOf (h : registry.Citing) (hmark : mark.CitesIfCitation) :
    Citing (registry.indexOf mark).2 := by
  refine ⟨h.sound.indexOf mark, fun index => ?_⟩
  rcases registry.containerAt_indexOf mark index with heq | heq
  · rw [heq]
    exact h.cites index
  · rw [heq]
    cases hkind : MarkKind.ofName mark.type with
    | citation =>
        intro hnil
        exact (hmark hkind).references_ne_nil (Container.cite.inj hnil)
    | _ => nofun

theorem Citing.register (h : registry.Citing) (hmarks : ∀ mark ∈ marks, mark.CitesIfCitation) :
    (registry.register marks).Citing := by
  induction marks generalizing registry with
  | nil => exact h
  | cons mark rest ih =>
      obtain ⟨hmark, hrest⟩ := List.forall_mem_cons.mp hmarks
      exact ih (h.indexOf hmark) hrest

end Registry

namespace Export

variable {α β : Type} {P : Mark → Prop}

/-- The conversion registers marks of a certain kind and numbers no citation. -/
def Registers (P : Mark → Prop) (convert : Export α) : Prop :=
  ∀ environment (progress : Progress),
    (∃ marks, (∀ mark ∈ marks, P mark) ∧
      (convert.runFrom environment progress).2.registry = progress.registry.register marks) ∧
    (convert.runFrom environment progress).2.citations = progress.citations

theorem registers_pure (x : α) : (pure x : Export α).Registers P :=
  fun _ _ => ⟨⟨[], nofun, rfl⟩, rfl⟩

theorem registers_throw (error : ExportError) : (throw error : Export α).Registers P :=
  fun _ _ => ⟨⟨[], nofun, rfl⟩, rfl⟩

theorem registers_read : (read : Export Environment).Registers P :=
  fun _ _ => ⟨⟨[], nofun, rfl⟩, rfl⟩

theorem registers_get : (get : Export Progress).Registers P :=
  fun _ _ => ⟨⟨[], nofun, rfl⟩, rfl⟩

theorem registers_indexOf {mark : Mark} (h : P mark) : (indexOf mark).Registers P :=
  fun _ _ => ⟨⟨[mark], List.forall_mem_singleton.mpr h, rfl⟩, rfl⟩

theorem Registers.bind {convert : Export α} {next : α → Export β} (h : convert.Registers P)
    (hn : ∀ x, (next x).Registers P) : (convert >>= next).Registers P := by
  intro environment progress
  obtain ⟨⟨marks, hmarks, hregistry⟩, hcitations⟩ := h environment progress
  rcases hc : convert.runFrom environment progress with ⟨error | x, between⟩
  · rw [hc] at hregistry hcitations
    rw [runFrom_bind_error hc]
    exact ⟨⟨marks, hmarks, hregistry⟩, hcitations⟩
  · rw [hc] at hregistry hcitations
    rw [runFrom_bind_ok hc]
    obtain ⟨⟨others, hothers, hregistry'⟩, hcitations'⟩ := hn x environment between
    refine ⟨⟨marks ++ others, List.forall_mem_append.mpr ⟨hmarks, hothers⟩, ?_⟩,
      hcitations'.trans hcitations⟩
    rw [hregistry', Registry.register_append]
    exact congrArg (Registry.register · others) hregistry

theorem Registers.descend {convert : Export α} (h : convert.Registers P) (index : Nat)
    (type : String) : (Export.descend index type convert).Registers P :=
  fun environment progress => h environment (enter index type progress)

theorem registers_structural (message : String) : (structural message : Export α).Registers P :=
  (registers_get.bind fun _ => registers_pure _).bind fun _ => registers_throw _

theorem registers_kindOf (node : Node) : (kindOf node).Registers P := by
  unfold kindOf
  split
  · exact registers_pure _
  · exact (registers_get.bind fun _ => registers_pure _).bind fun _ => registers_throw _

theorem registers_opaqueLeaf? (text : String) {marks : List Mark} (h : ∀ mark ∈ marks, P mark) :
    (opaqueLeaf? text marks).Registers P := by
  induction marks with
  | nil => exact registers_pure none
  | cons mark rest ih =>
      obtain ⟨hmark, hrest⟩ := List.forall_mem_cons.mp h
      refine (registers_indexOf hmark).bind fun _ => ?_
      split
      · exact registers_pure _
      · exact ih hrest

theorem registers_markIndexes {marks : List Mark} (h : ∀ mark ∈ marks, P mark) :
    (markIndexes marks).Registers P := by
  have hmap : (marks.mapM indexOf).Registers P := by
    induction marks with
    | nil => exact registers_pure []
    | cons mark rest ih =>
        obtain ⟨hmark, hrest⟩ := List.forall_mem_cons.mp h
        rw [List.mapM_cons]
        exact (registers_indexOf hmark).bind fun _ => (ih hrest).bind fun _ => registers_pure _
  exact hmap.bind fun _ => registers_pure _

/-- A node that is collected registers marks of its own. -/
theorem registers_contribute (index : Nat) {node : Node} (h : ∀ mark ∈ node.marks, P mark) :
    (contribute index (Prepared.ofNode node)).Registers P := by
  unfold contribute
  dsimp only
  rw [Prepared.node_ofNode]
  refine (registers_kindOf node).bind fun kind => ?_
  have hmarked (leaf : Inline) : (markedLeaf leaf node.marks).Registers P :=
    (registers_markIndexes h).bind fun _ => registers_pure _
  split
  · exact registers_pure _
  · exact registers_pure _
  · exact registers_read.bind fun _ => registers_pure _
  · exact registers_pure _
  · refine (registers_opaqueLeaf? _ h).bind fun leaf => ?_
    split
    · exact registers_pure _
    · exact (registers_markIndexes h).bind fun _ => registers_pure _
  · exact hmarked _
  · exact hmarked _
  · exact registers_structural _

theorem registers_collectOf {nodes : List Node} (h : ∀ node ∈ nodes, ∀ mark ∈ node.marks, P mark) :
    (collectOf nodes).Registers P := by
  have heach (index : Nat) :
      (eachChildFrom contribute index (Prepared.ofNodes nodes)).Registers P := by
    induction nodes generalizing index with
    | nil => exact registers_pure []
    | cons node rest ih =>
        obtain ⟨hnode, hrest⟩ := List.forall_mem_cons.mp h
        rw [Prepared.ofNodes]
        exact ((registers_contribute index hnode).descend _ _).bind fun _ =>
          (ih hrest (index + 1)).bind fun _ => registers_pure _
  exact (heach 0).bind fun _ => registers_pure _

end Export

/-! ## Whatever is registered later -/

/-- A row of chunks and pieces, as the registry in the end gives it. -/
structure Converted (environment : Environment) (registry : Registry) (nodes : List Node)
    (chunks : List Chunk) (pieces : List MarkRange) : Prop where
  contributes : Export.Contributes environment.settings registry nodes.zipIdx
    (contributionsIn environment registry nodes)
  chunks_eq : (contributionsIn environment registry nodes).flatMap Contribution.chunks = chunks
  untangled : untangle (registry.compare environment.priority)
    (rangesIn environment registry nodes) = .ok pieces

namespace Converted

variable {environment : Environment} {registry : Registry} {nodes : List Node}
  {chunks : List Chunk} {pieces : List MarkRange}

theorem nodup (h : Converted environment registry nodes chunks pieces) :
    ∀ contribution ∈ contributionsIn environment registry nodes, contribution.marks.Nodup :=
  h.contributes.nodup

theorem nonempty (h : Converted environment registry nodes chunks pieces) :
    ∀ range ∈ rangesIn environment registry nodes, range.start < range.stop :=
  nonempty_of_mem_collectRanges h.nodup

theorem piecesIn_eq (h : Converted environment registry nodes chunks pieces) :
    piecesIn environment registry nodes = pieces := by
  rw [piecesIn, h.untangled]

theorem start_lt (h : Converted environment registry nodes chunks pieces) {piece : MarkRange}
    (hp : piece ∈ pieces) : piece.start < chunks.length := by
  obtain ⟨range, hr, hcut⟩ := cutFrom_untangle h.nonempty h.untangled piece hp
  have hinside := stop_le_of_mem_collectRanges h.nodup range hr
  rw [h.chunks_eq] at hinside
  exact Nat.lt_of_lt_of_le hcut.inside hinside

/-- The pieces of citations are cut from all citation ranges, and from no others. -/
theorem mem_citationKeys_iff (h : Converted environment registry nodes chunks pieces)
    (way : List Nat) (key : RangeKey) :
    key ∈ citationKeys registry way pieces ↔
      key ∈ citationKeys registry way (rangesIn environment registry nodes) := by
  rw [mem_citationKeys, mem_citationKeys]
  constructor
  · rintro ⟨piece, hp, hcites, rfl⟩
    obtain ⟨range, hr, hcut⟩ := cutFrom_untangle h.nonempty h.untangled piece hp
    exact ⟨range, hr, by rwa [← hcut.mark], by rw [hcut.origin]⟩
  · rintro ⟨range, hr, hcites, rfl⟩
    -- what covers the start of the range is still covered by a citation of its origin
    let asked : Nat → Nat → Bool := fun mark origin => registry.cites mark && origin == range.origin
    have hcovered : 0 < coverings asked range.start (rangesIn environment registry nodes) :=
      coverings_pos_iff.mpr ⟨range, hr, by simp [asked, hcites], Nat.le_refl _, h.nonempty range hr⟩
    rw [← coverings_untangle h.nonempty (disjointed_collectRanges h.nodup) h.untangled] at hcovered
    obtain ⟨piece, hp, hasked, -⟩ := coverings_pos_iff.mp hcovered
    simp only [asked, Bool.and_eq_true, beq_iff_eq] at hasked
    exact ⟨piece, hp, hasked.1, by rw [hasked.2]⟩

end Converted

namespace Export

variable {environment : Environment} {before after : Progress} {nodes : List Node}
  {written : List Inline}

/-- The marks of collected ranges are registered. -/
theorem exists_index?_of_mem_collectRanges {settings : Settings} {registry : Registry}
    {contributions : List Contribution}
    (h : Contributes settings registry nodes.zipIdx contributions)
    (hnodup : ∀ contribution ∈ contributions, contribution.marks.Nodup) {range : MarkRange}
    (hr : range ∈ collectRanges contributions) :
    ∃ mark, registry.index? mark = some range.mark := by
  obtain ⟨contribution, hc, hmem⟩ := exists_mem_marks_of_mem_collectRanges hnodup range hr
  obtain ⟨⟨node, index⟩, -, hcontribution⟩ := h.exists_node hc
  obtain ⟨mark, -, hindex⟩ :=
    Node.mem_markIndexes.mp (Node.mem_markIndexes_of_mem_marks hcontribution hmem)
  exact ⟨mark, hindex⟩

/-- A row that was converted can be read off the registry in the end. -/
theorem converted_of_inlinesOf
    (h : (inlinesOf nodes).runFrom environment before = (.ok written, after)) :
    ∃ chunks ranges pieces collected,
      (collectOf nodes).runFrom environment before = (.ok (chunks, ranges), collected) ∧
      (assemble chunks pieces).runFrom environment collected = (.ok written, after) ∧
      ∀ more, Converted environment (collected.registry.register more) nodes chunks pieces := by
  obtain ⟨chunks, ranges, collected, pieces, hcollect, hpieces, hassemble⟩ :=
    exists_stages_of_inlinesOf h
  refine ⟨chunks, ranges, pieces, collected, hcollect, hassemble, fun more => ?_⟩
  obtain ⟨contributions, last, hcontributions, hpure⟩ := runFrom_bind_eq_ok hcollect
  cases hpure
  have hcontributes := contributes_of_eachChildFrom 0 more hcontributions
  have hsame : contributionsIn environment (collected.registry.register more) nodes =
      contributions := filterMap_eq_of_forall₂ hcontributes
  have hnodup := hcontributes.nodup
  have hregistered : ∀ range ∈ collectRanges contributions,
      ∃ entry, collected.registry.entry? range.mark = some entry := fun range hr => by
    obtain ⟨mark, hindex⟩ := exists_index?_of_mem_collectRanges
      (contributes_of_eachChildFrom 0 [] hcontributions) hnodup hr
    obtain ⟨entry, hentry, -⟩ := Registry.exists_stands hindex
    exact ⟨entry, hentry⟩
  refine ⟨by rwa [hsame], by rw [hsame], ?_⟩
  rw [rangesIn, hsame]
  refine untangle_of_agreeOn (nonempty_of_mem_collectRanges hnodup) (fun a ha b hb => ?_) hpieces
  obtain ⟨first, hfirst⟩ := hregistered a ha
  obtain ⟨second, hsecond⟩ := hregistered b hb
  rw [Registry.compare_of_entries _ hfirst hsecond, Registry.compare_of_entries _
    (Registry.entry?_register hfirst more) (Registry.entry?_register hsecond more)]

end Export

end RichDoc
