import Mathlib.Data.List.Forall2
import RichDoc.Proofs.Export.Nesting
import RichDoc.Proofs.Export.Runs
import RichDoc.Proofs.Export.Steady
import RichDoc.Proofs.Pandoc.Cites

/-!
# What nodes bring to the row

Collecting registers marks as it comes across them, so the index of a mark
seems to depend on what was collected before. It does not: an index once
given stays. What a node brings to the row can therefore be read off the
node and the registry in the end (`Node.contribution?`), and collecting
nodes gives just that for each of them.
-/

namespace RichDoc

open Pandoc (Inline)

namespace Node

/-- The indexes of the node's marks, each once. -/
def markIndexes (registry : Registry) (node : Node) : List Nat :=
  (node.marks.filterMap registry.index?).eraseDups

/-- The leaf of a text under a code or math mark, the first of them if there are several. -/
def opaqueLeaf? (node : Node) : Option Inline :=
  node.marks.findSome? fun mark =>
    (Container.ofMark (.ofName mark.type) mark).leaf? (node.text.getD "")

/-- What an inline node brings to the row when its marks are registered. -/
def contribution? (settings : Settings) (registry : Registry) (index : Nat) (node : Node) :
    Option Contribution :=
  match node.kind? with
  | some .hardBreak => some (.breakpoint (.leaf .lineBreak))
  | some .note => some (.breakpoint (.note index (Export.blocksOf node.content)))
  | some .indexRef => some (.breakpoint (.leaf (node.indexRef settings)))
  | some .emptySpan => some (.breakpoint (.leaf node.emptySpan))
  | some .text =>
    match node.opaqueLeaf? with
    | some leaf => some (.run [.leaf leaf] [])
    | none =>
      some (.run ((Inline.ofText (node.text.getD "")).map .leaf) (node.markIndexes registry))
  | some .image => some (.run [.leaf node.image] (node.markIndexes registry))
  | some .rawInline => some (.run [.leaf node.rawInline] (node.markIndexes registry))
  | _ => none

end Node

/-! ## Marks that were looked up -/

theorem nodup_eraseDups {α : Type} [BEq α] [LawfulBEq α] (l : List α) : l.eraseDups.Nodup := by
  induction hn : l.length using Nat.strong_induction_on generalizing l with
  | _ n ih =>
      cases l with
      | nil => exact List.nodup_nil
      | cons a rest =>
          rw [List.eraseDups_cons, List.nodup_cons]
          refine ⟨?_, ih _ ?_ _ rfl⟩
          · rw [List.mem_eraseDups]
            simp
          · have := List.length_filter_le (fun b => !b == a) rest
            rw [List.length_cons] at hn
            omega

theorem filterMap_eq_of_forall₂ {α β : Type} {f : α → Option β} {l : List α} {l' : List β}
    (h : List.Forall₂ (fun a b => f a = some b) l l') : l.filterMap f = l' := by
  induction h with
  | nil => rfl
  | cons hab _ ih => rw [List.filterMap_cons_some hab, ih]

theorem Progress.Leads.index? {a b : Progress} (h : a.Leads b) {mark : Mark} {index : Nat}
    (hm : a.registry.index? mark = some index) : b.registry.index? mark = some index := by
  obtain ⟨marks, hb⟩ := h.registered
  rw [hb]
  exact Registry.index?_register hm marks

namespace Export

variable {environment : Environment} {progress after : Progress} {marks more : List Mark}

theorem forall₂_of_mapM_indexOf {indexes : List Nat}
    (h : (marks.mapM indexOf).runFrom environment progress = (.ok indexes, after)) :
    List.Forall₂ (fun mark index => after.registry.index? mark = some index) marks indexes := by
  induction marks generalizing progress indexes with
  | nil =>
      cases h
      exact .nil
  | cons mark rest ih =>
      rw [List.mapM_cons] at h
      obtain ⟨index, between, hfirst, h⟩ := runFrom_bind_eq_ok h
      obtain ⟨indexes, last, hrest, h⟩ := runFrom_bind_eq_ok h
      cases h
      cases hfirst
      have hself := Registry.index?_indexOf_self progress.registry mark
      exact .cons (((steady_mapM_indexOf rest).leads hrest).index? hself) (ih hrest)

theorem markIndexes_eq {node : Node} {indexes : List Nat}
    (h : (markIndexes node.marks).runFrom environment progress = (.ok indexes, after)) :
    indexes = node.markIndexes (after.registry.register more) := by
  obtain ⟨found, between, hfound, h⟩ := runFrom_bind_eq_ok h
  cases h
  have hindexes := (forall₂_of_mapM_indexOf hfound).imp fun _ _ hm =>
    Registry.index?_register hm more
  rw [Node.markIndexes, filterMap_eq_of_forall₂ hindexes]

theorem opaqueLeaf?_eq {text : String} {leaf : Option Inline}
    (h : (opaqueLeaf? text marks).runFrom environment progress = (.ok leaf, after)) :
    leaf = marks.findSome? fun mark => (Container.ofMark (.ofName mark.type) mark).leaf? text := by
  induction marks generalizing progress with
  | nil =>
      cases h
      rfl
  | cons mark rest ih =>
      obtain ⟨index, between, -, h⟩ := runFrom_bind_eq_ok h
      cases hleaf : (Container.ofMark (.ofName mark.type) mark).leaf? text with
      | some found =>
          rw [hleaf] at h
          cases h
          rw [List.findSome?_cons, hleaf]
      | none =>
          rw [hleaf] at h
          rw [List.findSome?_cons, hleaf]
          exact ih h

theorem runFrom_kindOf {node : Node} {kind : NodeKind} (known : node.kind? = some kind) :
    (kindOf node).runFrom environment progress = (.ok kind, progress) := by
  unfold kindOf
  rw [known]
  rfl

theorem kind?_of_kindOf {node : Node} {kind : NodeKind}
    (h : (kindOf node).runFrom environment progress = (.ok kind, after)) :
    node.kind? = some kind := by
  unfold kindOf at h
  split at h
  · next hkind =>
    cases h
    exact hkind
  · cases h

end Export

/-! ## Contributions -/

namespace Prepared

theorem node_ofNode (node : Node) : (ofNode node).node = node := by
  cases node
  rw [ofNode]

theorem children_ofNode (node : Node) : (ofNode node).children = ofNodes node.content := by
  cases node
  rw [ofNode]

theorem ofNodes_append (front rest : List Node) :
    ofNodes (front ++ rest) = ofNodes front ++ ofNodes rest := by
  induction front with
  | nil => rfl
  | cons node front ih => rw [List.cons_append, ofNodes, ih, ofNodes, List.cons_append]

end Prepared

namespace Export

variable {environment : Environment} {progress after : Progress} {node : Node}
  {contribution : Contribution}

/-- A node brings what can be read off it later on, whatever else has been registered by then. -/
theorem contribution?_of_contribute {index : Nat} (more : List Mark)
    (h : (contribute index (Prepared.ofNode node)).runFrom environment progress =
      (.ok contribution, after)) :
    node.contribution? environment.settings (after.registry.register more) index =
      some contribution := by
  obtain ⟨kind, between, hkind, h⟩ := runFrom_bind_eq_ok h
  rw [Prepared.node_ofNode] at hkind h
  have hmarked {leaf : Inline}
      (h : (markedLeaf leaf node.marks).runFrom environment between = (.ok contribution, after)) :
      contribution = .run [.leaf leaf] (node.markIndexes (after.registry.register more)) := by
    obtain ⟨indexes, last, hindexes, h⟩ := runFrom_bind_eq_ok h
    cases h
    rw [← markIndexes_eq hindexes]
  unfold Node.contribution?
  rw [kind?_of_kindOf hkind]
  split at h
  · cases h
    rfl
  · cases h
    rw [Prepared.children_ofNode]
    rfl
  · obtain ⟨environment', last, hread, h⟩ := runFrom_bind_eq_ok h
    cases hread
    cases h
    rfl
  · cases h
    rfl
  · obtain ⟨leaf, last, hleaf, h⟩ := runFrom_bind_eq_ok h
    have hplain : node.opaqueLeaf? = leaf := (opaqueLeaf?_eq hleaf).symm
    dsimp only
    rw [hplain]
    cases leaf with
    | some leaf =>
        cases h
        rfl
    | none =>
        obtain ⟨indexes, last', hindexes, h⟩ := runFrom_bind_eq_ok h
        cases h
        rw [← markIndexes_eq hindexes]
  · rw [hmarked h]
  · rw [hmarked h]
  · cases h

/-- What the nodes bring to the row, each by its place among them. -/
def Contributes (settings : Settings) (registry : Registry) (nodes : List (Node × Nat))
    (contributions : List Contribution) : Prop :=
  List.Forall₂ (fun node contribution =>
    node.1.contribution? settings registry node.2 = some contribution) nodes contributions

/-- Whatever is brought, one of the nodes brings it. -/
theorem Contributes.exists_node {settings : Settings} {registry : Registry}
    {nodes : List (Node × Nat)} {contributions : List Contribution}
    (h : Contributes settings registry nodes contributions) (hc : contribution ∈ contributions) :
    ∃ node ∈ nodes, node.1.contribution? settings registry node.2 = some contribution := by
  induction h with
  | nil => cases hc
  | cons hfirst _ ih =>
      rcases List.mem_cons.mp hc with rfl | hc
      · exact ⟨_, List.mem_cons_self .., hfirst⟩
      · obtain ⟨node, hmem, hnode⟩ := ih hc
        exact ⟨node, List.mem_cons_of_mem _ hmem, hnode⟩

theorem Contributes.exists_contribution {settings : Settings} {registry : Registry}
    {nodes : List (Node × Nat)} {contributions : List Contribution}
    (h : Contributes settings registry nodes contributions) {child : Node × Nat}
    (hc : child ∈ nodes) : ∃ contribution ∈ contributions,
      child.1.contribution? settings registry child.2 = some contribution := by
  induction h with
  | nil => cases hc
  | cons hfirst _ ih =>
      rcases List.mem_cons.mp hc with rfl | hc
      · exact ⟨_, List.mem_cons_self .., hfirst⟩
      · obtain ⟨contribution, hmem, hbrings⟩ := ih hc
        exact ⟨contribution, List.mem_cons_of_mem _ hmem, hbrings⟩

theorem contributes_of_eachChildFrom {nodes : List Node} {contributions : List Contribution}
    (index : Nat) (more : List Mark)
    (h : (eachChildFrom contribute index (Prepared.ofNodes nodes)).runFrom environment progress =
      (.ok contributions, after)) :
    Contributes environment.settings (after.registry.register more) (nodes.zipIdx index)
      contributions := by
  induction nodes generalizing index progress contributions with
  | nil =>
      rw [Prepared.ofNodes] at h
      cases h
      exact .nil
  | cons node rest ih =>
      rw [Prepared.ofNodes] at h
      obtain ⟨first, between, hfirst, h⟩ := runFrom_bind_eq_ok h
      obtain ⟨others, last, hothers, h⟩ := runFrom_bind_eq_ok h
      cases h
      obtain ⟨inner, hinner, rfl⟩ := runFrom_descend_eq_ok hfirst
      have hsteady : (eachChildFrom contribute (index + 1) (Prepared.ofNodes rest)).Steady :=
        steady_eachChildFrom (fun index child _ => steady_contribute index child) (index + 1)
      obtain ⟨marks, hregistry⟩ := (hsteady.leads hothers).registered
      have hnode := contribution?_of_contribute (marks ++ more) hinner
      rw [Registry.register_append] at hnode
      rw [List.zipIdx_cons]
      refine .cons ?_ (ih (index + 1) hothers)
      rw [hregistry]
      exact hnode

/-- Collecting gives the chunks of what the nodes bring, and the ranges over them. -/
theorem exists_contributes_of_collect {nodes : List Node} {chunks : List Chunk}
    {ranges : List MarkRange}
    (h : (collect (Prepared.ofNodes nodes)).runFrom environment progress =
      (.ok (chunks, ranges), after)) :
    ∃ contributions, Contributes environment.settings after.registry nodes.zipIdx contributions ∧
      chunks = contributions.flatMap Contribution.chunks ∧
      ranges = collectRanges contributions := by
  obtain ⟨contributions, last, hcontributions, h⟩ := runFrom_bind_eq_ok h
  cases h
  exact ⟨contributions, contributes_of_eachChildFrom 0 [] hcontributions, rfl, rfl⟩

end Export

/-! ## The marks of contributions -/

/-- Text under the mark is one leaf of its own, and other inlines cannot stand under it. -/
def Mark.isOpaque (mark : Mark) : Bool := (MarkKind.ofName mark.type).isOpaque

theorem Container.holdsText_ofMark (kind : MarkKind) (mark : Mark) :
    (Container.ofMark kind mark).holdsText = kind.isOpaque := by
  cases kind <;> rfl

theorem Container.holdsText_of_leaf?_eq_none {container : Container} {text : String}
    (h : container.leaf? text = none) : container.holdsText = false := by
  cases container with
  | code attr => cases h
  | math type => cases h
  | _ => rfl

namespace Node

variable {node : Node} {settings : Settings} {registry : Registry} {index : Nat}
  {contribution : Contribution}

theorem mem_markIndexes {number : Nat} :
    number ∈ node.markIndexes registry ↔
      ∃ mark ∈ node.marks, registry.index? mark = some number := by
  rw [markIndexes, List.mem_eraseDups, List.mem_filterMap]

theorem nodup_marks (h : node.contribution? settings registry index = some contribution) :
    contribution.marks.Nodup := by
  have hindexes : (node.markIndexes registry).Nodup := nodup_eraseDups _
  unfold contribution? at h
  split at h
  · cases h; exact List.nodup_nil
  · cases h; exact List.nodup_nil
  · cases h; exact List.nodup_nil
  · cases h; exact List.nodup_nil
  · split at h
    · cases h; exact List.nodup_nil
    · cases h; exact hindexes
  · cases h; exact hindexes
  · cases h; exact hindexes
  · cases h

theorem mem_markIndexes_of_mem_marks
    (h : node.contribution? settings registry index = some contribution) {number : Nat}
    (hm : number ∈ contribution.marks) : number ∈ node.markIndexes registry := by
  unfold contribution? at h
  split at h
  · cases h; cases hm
  · cases h; cases hm
  · cases h; cases hm
  · cases h; cases hm
  · split at h
    · cases h; cases hm
    · cases h; exact hm
  · cases h; exact hm
  · cases h; exact hm
  · cases h

/-- The marks of a contribution are the node's, none of them a code or math mark. -/
theorem exists_mark_of_mem_marks
    (h : node.contribution? settings registry index = some contribution)
    (hclear : node.kind? = some .image ∨ node.kind? = some .rawInline →
      ∀ mark ∈ node.marks, mark.isOpaque = false)
    {number : Nat} (hm : number ∈ contribution.marks) :
    ∃ mark ∈ node.marks, registry.index? mark = some number ∧ mark.isOpaque = false := by
  have hindexed (hclear : ∀ mark ∈ node.marks, mark.isOpaque = false)
      (hm : number ∈ node.markIndexes registry) :
      ∃ mark ∈ node.marks, registry.index? mark = some number ∧ mark.isOpaque = false := by
    obtain ⟨mark, hmark, hnumber⟩ := mem_markIndexes.mp hm
    exact ⟨mark, hmark, hnumber, hclear mark hmark⟩
  unfold contribution? at h
  split at h
  · cases h; cases hm
  · cases h; cases hm
  · cases h; cases hm
  · cases h; cases hm
  · split at h
    · cases h; cases hm
    · next hleaf =>
      cases h
      refine hindexed (fun mark hmark => ?_) hm
      have hnone := List.findSome?_eq_none_iff.mp hleaf mark hmark
      rw [Mark.isOpaque, ← Container.holdsText_ofMark _ mark]
      exact Container.holdsText_of_leaf?_eq_none hnone
  · next hkind =>
    cases h
    exact hindexed (hclear (.inl hkind)) hm
  · next hkind =>
    cases h
    exact hindexed (hclear (.inr hkind)) hm
  · cases h

theorem cites_of_leaf? {container : Container} {text : String} {leaf : Inline}
    (h : container.leaf? text = some leaf) : leaf.cites = [] := by
  cases container with
  | code attr => cases h; rfl
  | math type => cases h; rfl
  | _ => cases h

/-- A node brings its footnote if it is one, and otherwise leaves that cite nothing. -/
theorem chunks_of_contribution?
    (h : node.contribution? settings registry index = some contribution) :
    (node.kind? = some .note ∧
      contribution.chunks = [.note index (Export.blocksOf node.content)]) ∨
    ∃ leaves : List Inline, contribution.chunks = leaves.map .leaf ∧
      ∀ leaf ∈ leaves, leaf.cites = [] := by
  have hsingle {leaf : Inline} (hchunks : contribution.chunks = [.leaf leaf])
      (hcites : leaf.cites = []) : ∃ leaves : List Inline,
        contribution.chunks = leaves.map .leaf ∧ ∀ leaf ∈ leaves, leaf.cites = [] :=
    ⟨[leaf], hchunks, List.forall_mem_singleton.mpr hcites⟩
  unfold contribution? at h
  split at h
  · cases h; exact .inr (hsingle rfl rfl)
  · next hnote =>
    cases h
    exact .inl ⟨hnote, rfl⟩
  · cases h; exact .inr (hsingle rfl rfl)
  · cases h; exact .inr (hsingle rfl rfl)
  · split at h
    · next hleaf =>
      cases h
      obtain ⟨mark, -, hmark⟩ := List.exists_of_findSome?_eq_some hleaf
      exact .inr (hsingle rfl (cites_of_leaf? hmark))
    · cases h
      refine .inr ⟨_, rfl, ?_⟩
      rw [← List.flatMap_eq_nil_iff, ← Pandoc.inlinesCites_eq_flatMap]
      exact Pandoc.inlinesCites_ofText _
  · cases h; exact .inr (hsingle rfl (Pandoc.inlinesCites_ofText _))
  · cases h; exact .inr (hsingle rfl rfl)
  · cases h

/-- The footnote that a node brings is its own. -/
theorem note_of_contribution? {place : Nat}
    (h : node.contribution? settings registry place = some contribution)
    {content : Export (List Pandoc.Block)} (hmem : .note index content ∈ contribution.chunks) :
    node.kind? = some .note ∧ index = place ∧ content = Export.blocksOf node.content := by
  rcases chunks_of_contribution? h with ⟨hnote, hchunks⟩ | ⟨leaves, hchunks, -⟩
  · rw [hchunks, List.mem_singleton] at hmem
    exact ⟨hnote, Chunk.note.inj hmem⟩
  · rw [hchunks] at hmem
    obtain ⟨leaf, -, hleaf⟩ := List.mem_map.mp hmem
    cases hleaf

end Node

namespace Export

theorem Contributes.nodup {settings : Settings} {registry : Registry} {nodes : List (Node × Nat)}
    {contributions : List Contribution} (h : Contributes settings registry nodes contributions) :
    ∀ contribution ∈ contributions, contribution.marks.Nodup := by
  intro contribution hc
  obtain ⟨node, -, hnode⟩ := h.exists_node hc
  exact Node.nodup_marks hnode

/-- The footnotes among the chunks are those of the children. -/
theorem note_mem_chunks {settings : Settings} {registry : Registry} {nodes : List Node}
    {contributions : List Contribution}
    (h : Contributes settings registry nodes.zipIdx contributions) {index : Nat}
    {content : Export (List Pandoc.Block)} :
    .note index content ∈ contributions.flatMap Contribution.chunks ↔
      ∃ child, nodes[index]? = some child ∧ child.kind? = some .note ∧
        content = blocksOf child.content := by
  constructor
  · intro hmem
    obtain ⟨contribution, hc, hin⟩ := List.mem_flatMap.mp hmem
    obtain ⟨⟨child, place⟩, hchild, hbrings⟩ := h.exists_node hc
    obtain ⟨hnote, rfl, rfl⟩ := Node.note_of_contribution? hbrings hin
    exact ⟨child, List.mem_zipIdx_iff_getElem?.mp hchild, hnote, rfl⟩
  · rintro ⟨child, hchild, hnote, rfl⟩
    obtain ⟨contribution, hc, hbrings⟩ :=
      h.exists_contribution (@List.mem_zipIdx_iff_getElem? _ (child, index) _ |>.mpr hchild)
    refine List.mem_flatMap.mpr ⟨contribution, hc, ?_⟩
    unfold Node.contribution? at hbrings
    rw [hnote] at hbrings
    cases hbrings
    exact List.mem_singleton_self _

end Export

end RichDoc
