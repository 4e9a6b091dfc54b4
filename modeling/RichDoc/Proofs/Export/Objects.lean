import RichDoc.Proofs.Export.Converted
import RichDoc.Proofs.Export.InTurn
import RichDoc.Proofs.Mark.Identity

/-!
# Objects in running text

Images, raw text, notes, line breaks and empty spans are objects among
inlines. A container keeps the objects that are put into it, and code and
math, which hold text, keep none. So an object is in the output unless a
code or math mark applies to it: one of its own, or, if it is a breakpoint,
one that the nearest children with marks on both sides share
(`Node.hides`). All others are there once each, in the order of the source
(`becomes_of_inlinesOf`).
-/

namespace RichDoc

open Pandoc (Inline)

namespace Pandoc

mutual

/-- The objects in an inline from left to right, without those in an image or a note. -/
def Inline.objects : Inline → List Inline
  | .str _ | .space | .softBreak | .code _ _ | .math _ _ => []
  | .emph content | .underline content | .strong content | .strikeout content
  | .superscript content | .subscript content | .smallCaps content | .quoted _ content
  | .cite _ content | .link _ content _ => objectsIn content
  | .span attr content => if content.isEmpty then [.span attr []] else objectsIn content
  | .lineBreak => [.lineBreak]
  | .rawInline format text => [.rawInline format text]
  | .image attr alt target => [.image attr alt target]
  | .note blocks => [.note blocks]

def objectsIn : List Inline → List Inline
  | [] => []
  | inline :: rest => inline.objects ++ objectsIn rest

end

theorem ofText_eq_nil_iff {text : String} : Inline.ofText text = [] ↔ text = "" := by
  rw [Inline.ofText, List.map_eq_nil_iff, runs, List.splitBy_eq_nil, String.toList_eq_nil_iff]

theorem objects_ofText {text : String} {inline : Inline} (h : inline ∈ Inline.ofText text) :
    inline.objects = [] := by
  obtain ⟨run, -, rfl⟩ := List.mem_map.mp h
  unfold Inline.ofRun
  split
  · split <;> rfl
  · rfl

end Pandoc

open Pandoc (objectsIn)

theorem Container.objects_wrap {container : Container} (h : container.holdsText = false)
    {content : List Inline} (hne : content ≠ []) (noteNumber : Int) :
    (container.wrap content noteNumber).objects = objectsIn content := by
  cases container with
  | code attr => cases h
  | math type => cases h
  | span attr => exact if_neg (by rwa [List.isEmpty_iff])
  | _ => rfl

theorem Container.objects_wrap_of_holdsText {container : Container}
    (h : container.holdsText = true) (content : List Inline) (noteNumber : Int) :
    (container.wrap content noteNumber).objects = [] := by
  cases container with
  | code attr => rfl
  | math type => rfl
  | _ => cases h

/-! ## Objects under containers -/

/-- No container around the leaf holds text only. -/
def keepsLeaf (leaf : Inline × List Opening) : Bool :=
  leaf.2.all fun opening => !opening.container.holdsText

mutual

theorem Nesting.prefix_of_mem_leaves : ∀ (nesting : Nesting) (outer : List Opening),
    ∀ leaf ∈ nesting.leaves outer, outer <+: leaf.2
  | .leaf inline, outer, leaf, h => by
      rw [List.mem_singleton.mp h]
  | .container opening content, outer, leaf, h =>
      (List.prefix_append outer [opening]).trans (prefix_of_mem_leavesIn content _ leaf h)

theorem prefix_of_mem_leavesIn : ∀ (forest : List Nesting) (outer : List Opening),
    ∀ leaf ∈ leavesIn outer forest, outer <+: leaf.2
  | [], _, _, h => nomatch h
  | nesting :: rest, outer, leaf, h => by
      rcases List.mem_append.mp h with h | h
      · exact nesting.prefix_of_mem_leaves outer leaf h
      · exact prefix_of_mem_leavesIn rest outer leaf h

end

/-- The objects of the leaves that are kept. -/
def keptObjects (leaves : List (Inline × List Opening)) : List Inline :=
  (leaves.filter keepsLeaf).flatMap fun leaf => leaf.1.objects

theorem keptObjects_append (leaves more : List (Inline × List Opening)) :
    keptObjects (leaves ++ more) = keptObjects leaves ++ keptObjects more := by
  rw [keptObjects, List.filter_append, List.flatMap_append]
  rfl

theorem inlinesIn_ne_nil {forest : List Nesting} (h : forest ≠ []) : inlinesIn forest ≠ [] := by
  rw [inlinesIn_eq_map]
  exact mt List.map_eq_nil_iff.mp h

mutual

/-- What is in a nesting is what its leaves keep. -/
theorem Nesting.objects_inline : ∀ (nesting : Nesting) (outer : List Opening), nesting.Full →
    (∀ opening ∈ outer, opening.container.holdsText = false) →
    nesting.inline.objects = keptObjects (nesting.leaves outer)
  | .leaf inline, outer, _, houter => by
      have hkeeps : keepsLeaf (inline, outer) = true :=
        List.all_eq_true.mpr fun opening ho => by rw [houter opening ho]; rfl
      rw [Nesting.leaves, keptObjects, List.filter_cons_of_pos hkeeps]
      exact (List.append_nil _).symm
  | .container opening content, outer, hfull, houter => by
      rw [Nesting.inline, Nesting.leaves]
      cases htext : opening.container.holdsText with
      | false =>
          rw [Container.objects_wrap htext (inlinesIn_ne_nil hfull.1)]
          refine objectsIn_inlinesIn content _ hfull.2 (List.forall_mem_append.mpr ⟨houter, ?_⟩)
          exact List.forall_mem_singleton.mpr htext
      | true =>
          rw [Container.objects_wrap_of_holdsText htext]
          have hnone : (leavesIn (outer ++ [opening]) content).filter keepsLeaf = [] := by
            refine List.filter_eq_nil_iff.mpr fun leaf hleaf hkeeps => ?_
            have hmem : opening ∈ leaf.2 := (prefix_of_mem_leavesIn content _ leaf hleaf).subset
              (List.mem_append_right _ (List.mem_singleton_self opening))
            have := List.all_eq_true.mp hkeeps opening hmem
            rw [htext] at this
            cases this
          rw [keptObjects, hnone]
          rfl

theorem objectsIn_inlinesIn : ∀ (forest : List Nesting) (outer : List Opening), FullIn forest →
    (∀ opening ∈ outer, opening.container.holdsText = false) →
    objectsIn (inlinesIn forest) = keptObjects (leavesIn outer forest)
  | [], _, _, _ => rfl
  | nesting :: rest, outer, hfull, houter => by
      rw [inlinesIn, objectsIn, leavesIn, keptObjects_append,
        nesting.objects_inline outer hfull.1 houter, objectsIn_inlinesIn rest outer hfull.2 houter]

end

/-! ## Children that are hidden -/

/-- The types of the nodes that become objects. -/
def NodeKind.isObject : NodeKind → Bool
  | image | rawInline | note | hardBreak | indexRef | emptySpan => true
  | _ => false

/-- The marks are the same: their types are, and the texts of their attributes. -/
def Mark.alike (mark other : Mark) : Bool :=
  mark.type == other.type && mark.canonical == other.canonical

namespace Node

/-- The node becomes an object. -/
def isObject (node : Node) : Bool := node.kind?.any NodeKind.isObject

/-- The code and math marks that a child has for its leaves. A text under such a mark is a leaf of
its own and has none; breakpoints and empty texts do not count. -/
def opaqueMarks? (node : Node) : Option (List Mark) :=
  match node.kind? with
  | some .image | some .rawInline => some (node.marks.filter Mark.isOpaque)
  | some .text =>
    if node.text.getD "" = "" ∧ ∀ mark ∈ node.marks, mark.isOpaque = false then none else some []
  | _ => none

/-- The code and math marks of the nearest child that counts, from the front. -/
def firstOpaque (nodes : List Node) : List Mark := (nodes.findSome? opaqueMarks?).getD []

/-- The code and math marks of the nearest child that counts, from the back. -/
def lastOpaque (nodes : List Node) : List Mark := (nodes.reverse.findSome? opaqueMarks?).getD []

/-- A code or math mark applies to the child that stands between others. -/
def hides (before : List Node) (node : Node) (after : List Node) : Bool :=
  match node.opaqueMarks? with
  | some marks => !marks.isEmpty
  | none => (lastOpaque before).any fun mark => (firstOpaque after).any mark.alike

variable {node : Node} {marks : List Mark}

theorem firstOpaque_cons_of_some (h : node.opaqueMarks? = some marks) (rest : List Node) :
    firstOpaque (node :: rest) = marks := by
  rw [firstOpaque, List.findSome?_cons, h]
  rfl

theorem firstOpaque_cons_of_none (h : node.opaqueMarks? = none) (rest : List Node) :
    firstOpaque (node :: rest) = firstOpaque rest := by
  rw [firstOpaque, List.findSome?_cons, h]
  rfl

theorem lastOpaque_concat_of_some (h : node.opaqueMarks? = some marks) (before : List Node) :
    lastOpaque (before ++ [node]) = marks := by
  rw [lastOpaque, List.reverse_concat]
  exact firstOpaque_cons_of_some h _

theorem lastOpaque_concat_of_none (h : node.opaqueMarks? = none) (before : List Node) :
    lastOpaque (before ++ [node]) = lastOpaque before := by
  rw [lastOpaque, List.reverse_concat]
  exact firstOpaque_cons_of_none h _

theorem opaqueLeaf?_eq_none_iff :
    node.opaqueLeaf? = none ↔ ∀ mark ∈ node.marks, mark.isOpaque = false := by
  have hleaf (container : Container) (text : String) :
      container.leaf? text = none ↔ container.holdsText = false := by
    cases container <;> simp [Container.leaf?, Container.holdsText]
  rw [opaqueLeaf?, List.findSome?_eq_none_iff]
  simp only [hleaf, Container.holdsText_ofMark]
  rfl

end Node

/-! ## Marks by their indexes -/

namespace Registry

/-- Only text is kept of what is under the mark with the index. -/
def holdsText (registry : Registry) (index : Nat) : Bool := (registry.containerAt index).holdsText

/-- Among the indexes, those of code and math marks are the ones of given marks. -/
structure Indexes (registry : Registry) (marks : List Mark) (indexes : List Nat) : Prop where
  registered : ∀ mark ∈ marks, ∃ index, registry.index? mark = some index
  mem_iff : ∀ index, index ∈ indexes ∧ registry.holdsText index = true ↔
    ∃ mark ∈ marks, registry.index? mark = some index

variable {registry : Registry} {mark : Mark} {marks marks' : List Mark} {index : Nat}
  {indexes indexes' : List Nat}

theorem Sound.holdsText (h : registry.Sound) (hm : registry.index? mark = some index) :
    registry.holdsText index = mark.isOpaque := by
  obtain ⟨made, htype, -, hmade⟩ := h.containerAt hm
  rw [Registry.holdsText, hmade, Container.holdsText_ofMark, htype]
  rfl

theorem indexes_nil : registry.Indexes [] [] := ⟨nofun, fun _ => by simp⟩

theorem Indexes.any_holdsText (h : registry.Indexes marks indexes) :
    indexes.any registry.holdsText = !marks.isEmpty := by
  rw [Bool.eq_iff_iff, List.any_eq_true]
  constructor
  · rintro ⟨index, hmem, hholds⟩
    obtain ⟨mark, hmark, -⟩ := (h.mem_iff index).mp ⟨hmem, hholds⟩
    simp [List.ne_nil_of_mem hmark]
  · intro hne
    obtain ⟨mark, hmark⟩ := List.exists_mem_of_ne_nil marks (by simpa using hne)
    obtain ⟨index, hindex⟩ := h.registered mark hmark
    exact ⟨index, (h.mem_iff index).mpr ⟨mark, hmark, hindex⟩⟩

/-- Indexes in common are marks in common. -/
theorem Indexes.any_common (h : registry.Indexes marks indexes)
    (h' : registry.Indexes marks' indexes') :
    (indexes.filter fun index => decide (index ∈ indexes')).any registry.holdsText =
      marks.any fun mark => marks'.any mark.alike := by
  rw [Bool.eq_iff_iff]
  simp only [List.any_eq_true, List.mem_filter, decide_eq_true_eq]
  constructor
  · rintro ⟨index, ⟨hmem, hmem'⟩, hholds⟩
    obtain ⟨mark, hmark, hindex⟩ := (h.mem_iff index).mp ⟨hmem, hholds⟩
    obtain ⟨other, hother, hindex'⟩ := (h'.mem_iff index).mp ⟨hmem', hholds⟩
    refine ⟨mark, hmark, other, hother, ?_⟩
    simpa [Mark.alike] using (index?_eq_iff hindex).mp hindex'
  · rintro ⟨mark, hmark, other, hother, halike⟩
    obtain ⟨index, hindex⟩ := h.registered mark hmark
    have hindex' : registry.index? other = some index :=
      (index?_eq_iff hindex).mpr (by simpa [Mark.alike] using halike)
    obtain ⟨hmem, hholds⟩ := (h.mem_iff index).mpr ⟨mark, hmark, hindex⟩
    exact ⟨index, ⟨hmem, ((h'.mem_iff index).mpr ⟨other, hother, hindex'⟩).1⟩, hholds⟩

end Registry

/-- The marks of the image or the raw text are registered. -/
def Node.Registered (registry : Registry) (node : Node) : Prop :=
  node.kind? = some .image ∨ node.kind? = some .rawInline →
    ∀ mark ∈ node.marks, ∃ index, registry.index? mark = some index

namespace Node

variable {node : Node} {settings : Settings} {registry : Registry} {index : Nat}
  {contribution : Contribution} {marks : List Mark}

theorem indexes_markIndexes (hsound : registry.Sound)
    (hregistered : ∀ mark ∈ node.marks, mark.isOpaque = true →
      ∃ index, registry.index? mark = some index) :
    registry.Indexes (node.marks.filter Mark.isOpaque) (node.markIndexes registry) := by
  constructor
  · intro mark hmark
    obtain ⟨hmem, htext⟩ := List.mem_filter.mp hmark
    exact hregistered mark hmem htext
  · intro index
    rw [mem_markIndexes]
    constructor
    · rintro ⟨⟨mark, hmark, hindex⟩, hholds⟩
      rw [hsound.holdsText hindex] at hholds
      exact ⟨mark, List.mem_filter.mpr ⟨hmark, hholds⟩, hindex⟩
    · rintro ⟨mark, hmark, hindex⟩
      obtain ⟨hmem, htext⟩ := List.mem_filter.mp hmark
      exact ⟨⟨mark, hmem, hindex⟩, (hsound.holdsText hindex).trans htext⟩

/-- A child that counts brings a run, with the code and math marks that it has. -/
theorem exists_run_of_opaqueMarks? (hsound : registry.Sound)
    (hregistered : node.Registered registry)
    (h : node.contribution? settings registry index = some contribution)
    (hmarks : node.opaqueMarks? = some marks) :
    ∃ chunks own, contribution = .run chunks own ∧ chunks.isEmpty = false ∧
      registry.Indexes marks own := by
  unfold contribution? at h
  unfold opaqueMarks? at hmarks
  split at h
  · next known => simp [known] at hmarks
  · next known => simp [known] at hmarks
  · next known => simp [known] at hmarks
  · next known => simp [known] at hmarks
  · next known =>
      simp only [known] at hmarks
      split at hmarks
      · cases hmarks
      · next hcounts =>
          cases hmarks
          split at h
          · cases h
            exact ⟨_, _, rfl, rfl, Registry.indexes_nil⟩
          · next hleaf =>
              cases h
              have hclear := opaqueLeaf?_eq_none_iff.mp hleaf
              have hnil : node.marks.filter Mark.isOpaque = [] := by
                simpa [List.filter_eq_nil_iff] using hclear
              have hindexes := node.indexes_markIndexes hsound fun mark hmark htext => by
                rw [hclear mark hmark] at htext
                cases htext
              rw [hnil] at hindexes
              refine ⟨_, _, rfl, ?_, hindexes⟩
              rw [← Bool.not_eq_true, List.isEmpty_iff, List.map_eq_nil_iff,
                Pandoc.ofText_eq_nil_iff]
              exact fun hempty => hcounts ⟨hempty, hclear⟩
  · next known =>
      cases h
      simp only [known, Option.some.injEq] at hmarks
      subst hmarks
      exact ⟨_, _, rfl, rfl, node.indexes_markIndexes hsound fun mark hmark _ =>
        hregistered (.inl known) mark hmark⟩
  · next known =>
      cases h
      simp only [known, Option.some.injEq] at hmarks
      subst hmarks
      exact ⟨_, _, rfl, rfl, node.indexes_markIndexes hsound fun mark hmark _ =>
        hregistered (.inr known) mark hmark⟩
  · cases h

/-- A child that does not count brings a breakpoint or nothing. -/
theorem breakpoint_or_empty (h : node.contribution? settings registry index = some contribution)
    (hmarks : node.opaqueMarks? = none) :
    (∃ chunk, contribution = .breakpoint chunk) ∨ ∃ own, contribution = .run [] own := by
  unfold contribution? at h
  unfold opaqueMarks? at hmarks
  split at h
  · cases h; exact .inl ⟨_, rfl⟩
  · cases h; exact .inl ⟨_, rfl⟩
  · cases h; exact .inl ⟨_, rfl⟩
  · cases h; exact .inl ⟨_, rfl⟩
  · next known =>
      simp only [known] at hmarks
      split at hmarks
      · next hempty =>
          rw [opaqueLeaf?_eq_none_iff.mpr hempty.2, hempty.1] at h
          cases h
          exact .inr ⟨_, rfl⟩
      · cases hmarks
  · next known => simp [known] at hmarks
  · next known => simp [known] at hmarks
  · cases h

end Node

theorem indexes_nextMarks {settings : Settings} {registry : Registry} {nodes : List (Node × Nat)}
    {contributions : List Contribution} (hsound : registry.Sound)
    (hregistered : ∀ child ∈ nodes, child.1.Registered registry)
    (h : Export.Contributes settings registry nodes contributions) :
    registry.Indexes (Node.firstOpaque (nodes.map Prod.fst)) (nextMarks contributions) := by
  induction h with
  | nil => exact Registry.indexes_nil
  | @cons child contribution nodes contributions hfirst _ ih =>
      obtain ⟨hchild, hrest⟩ := List.forall_mem_cons.mp hregistered
      rw [List.map_cons]
      cases hmarks : child.1.opaqueMarks? with
      | some marks =>
          obtain ⟨chunks, own, rfl, hne, hindexes⟩ :=
            Node.exists_run_of_opaqueMarks? hsound hchild hfirst hmarks
          rw [Node.firstOpaque_cons_of_some hmarks, nextMarks, hne]
          exact hindexes
      | none =>
          rw [Node.firstOpaque_cons_of_none hmarks]
          rcases Node.breakpoint_or_empty hfirst hmarks with ⟨chunk, rfl⟩ | ⟨own, rfl⟩
          · exact ih hrest
          · exact ih hrest

/-! ## Children and their objects -/

theorem forall_mem_of_forall₂ {α β : Type} {R : α → β → Prop} {p : β → Prop} {as : List α}
    {bs : List β} (h : List.Forall₂ R as bs) (hp : ∀ a ∈ as, ∀ b, R a b → p b) :
    ∀ b ∈ bs, p b := by
  induction h with
  | nil => exact nofun
  | cons hab _ ih =>
      obtain ⟨hfirst, hrest⟩ := List.forall_mem_cons.mp hp
      exact List.forall_mem_cons.mpr ⟨hfirst _ hab, ih hrest⟩

theorem exists_append_of_forall₂ {α β : Type} {R : α → β → Prop} {as more : List α} {bs : List β}
    (h : List.Forall₂ R (as ++ more) bs) :
    ∃ cs ds, List.Forall₂ R as cs ∧ List.Forall₂ R more ds ∧ bs = cs ++ ds := by
  induction as generalizing bs with
  | nil => exact ⟨[], bs, .nil, h, rfl⟩
  | cons a rest ih =>
      obtain ⟨b, others, hab, hrest, rfl⟩ := List.forall₂_cons_left_iff.mp h
      obtain ⟨cs, ds, hcs, hds, rfl⟩ := ih hrest
      exact ⟨b :: cs, ds, .cons hab hcs, hds, rfl⟩

/-- What a child has become: the leaf for its type, or the footnote with its own blocks, which were
converted under its place in a conversion that began with some progress. -/
inductive Becomes (environment : Environment) (start : Progress) : Node × Nat → Inline → Prop where
  | image {node : Node} {index : Nat} (known : node.kind? = some .image) :
      Becomes environment start (node, index) node.image
  | rawInline {node : Node} {index : Nat} (known : node.kind? = some .rawInline) :
      Becomes environment start (node, index) node.rawInline
  | hardBreak {node : Node} {index : Nat} (known : node.kind? = some .hardBreak) :
      Becomes environment start (node, index) .lineBreak
  | indexRef {node : Node} {index : Nat} (known : node.kind? = some .indexRef) :
      Becomes environment start (node, index) (node.indexRef environment.settings)
  | emptySpan {node : Node} {index : Nat} (known : node.kind? = some .emptySpan) :
      Becomes environment start (node, index) node.emptySpan
  | note {node : Node} {index : Nat} {before after : Progress} {blocks : List Pandoc.Block}
      (known : node.kind? = some .note)
      (reached : (Export.enter index NodeKind.note.name start).Leads before)
      (converted : (Export.blocksOf node.content).runFrom environment before =
        (.ok blocks, after)) :
      Becomes environment start (node, index) (.note blocks)

section Children

variable {environment : Environment} {start collected : Progress} {registry : Registry}
  {node : Node} {index : Nat} {contribution : Contribution}

/-- A child that becomes an object brings one chunk, and the object is what that gives. -/
theorem exists_chunk_of_isObject (hleads : start.Leads collected) (hobject : node.isObject = true)
    (h : node.contribution? environment.settings registry index = some contribution) :
    ∃ chunk, contribution.chunks = [chunk] ∧
      ∀ inline, chunk.Gives environment collected inline →
        Becomes environment start (node, index) inline ∧ inline.objects = [inline] := by
  unfold Node.contribution? at h
  split at h
  · next known =>
      cases h
      refine ⟨_, rfl, ?_⟩
      rintro _ ⟨⟩
      exact ⟨.hardBreak known, rfl⟩
  · next known =>
      cases h
      refine ⟨_, rfl, ?_⟩
      rintro _ (_ | ⟨reached, converted⟩)
      exact ⟨.note known ((hleads.enter index _).trans reached) converted, rfl⟩
  · next known =>
      cases h
      refine ⟨_, rfl, ?_⟩
      rintro _ ⟨⟩
      exact ⟨.indexRef known, rfl⟩
  · next known =>
      cases h
      refine ⟨_, rfl, ?_⟩
      rintro _ ⟨⟩
      exact ⟨.emptySpan known, rfl⟩
  · next known =>
      simp [Node.isObject, known, NodeKind.isObject] at hobject
  · next known =>
      cases h
      refine ⟨_, rfl, ?_⟩
      rintro _ ⟨⟩
      exact ⟨.image known, rfl⟩
  · next known =>
      cases h
      refine ⟨_, rfl, ?_⟩
      rintro _ ⟨⟩
      exact ⟨.rawInline known, rfl⟩
  · cases h

/-- Any other child brings no objects. -/
theorem objects_of_not_isObject (hobject : node.isObject = false)
    (h : node.contribution? environment.settings registry index = some contribution) :
    ∀ chunk ∈ contribution.chunks, ∀ inline, chunk.Gives environment collected inline →
      inline.objects = [] := by
  unfold Node.contribution? at h
  split at h
  · next known => simp [Node.isObject, known, NodeKind.isObject] at hobject
  · next known => simp [Node.isObject, known, NodeKind.isObject] at hobject
  · next known => simp [Node.isObject, known, NodeKind.isObject] at hobject
  · next known => simp [Node.isObject, known, NodeKind.isObject] at hobject
  · next known =>
      intro chunk hchunk inline hgives
      split at h
      · next leaf hleaf =>
          cases h
          obtain ⟨mark, -, hmark⟩ := List.exists_of_findSome?_eq_some hleaf
          obtain rfl := List.mem_singleton.mp hchunk
          cases hgives
          cases hcontainer : Container.ofMark (.ofName mark.type) mark with
          | code attr =>
              rw [hcontainer] at hmark
              cases hmark
              rfl
          | math type =>
              rw [hcontainer] at hmark
              cases hmark
              rfl
          | _ =>
              rw [hcontainer] at hmark
              cases hmark
      · cases h
        obtain ⟨leaf, hleaf, rfl⟩ := List.mem_map.mp hchunk
        cases hgives
        exact Pandoc.objects_ofText hleaf
  · next known => simp [Node.isObject, known, NodeKind.isObject] at hobject
  · next known => simp [Node.isObject, known, NodeKind.isObject] at hobject
  · cases h

/-- Whether the child is an object or not, what is left of its leaves are its objects, if it is not
hidden. -/
theorem becomes_of_gives (hleads : start.Leads collected)
    (h : node.contribution? environment.settings registry index = some contribution)
    {inlines : List Inline}
    (hgives : List.Forall₂ (Chunk.Gives environment collected) contribution.chunks inlines)
    (hidden : Bool) :
    List.Forall₂ (Becomes environment start)
      (if node.isObject && !hidden then [(node, index)] else [])
      (if hidden then [] else inlines.flatMap Inline.objects) := by
  cases hidden with
  | true => simp
  | false =>
      cases hobject : node.isObject with
      | true =>
          obtain ⟨chunk, hchunks, hbecomes⟩ := exists_chunk_of_isObject hleads hobject h
          rw [hchunks] at hgives
          obtain ⟨inline, rest, hinline, hrest, rfl⟩ := List.forall₂_cons_left_iff.mp hgives
          obtain rfl := List.forall₂_nil_left_iff.mp hrest
          obtain ⟨hbecome, hobjects⟩ := hbecomes inline hinline
          simpa [hobjects] using hbecome
      | false =>
          have hnone : inlines.flatMap Inline.objects = [] :=
            List.flatMap_eq_nil_iff.mpr
              (forall_mem_of_forall₂ hgives (objects_of_not_isObject hobject h))
          simp [hnone]

end Children

/-! ## Rows of children -/

/-- The children that become objects and are not hidden, with their places. -/
def shown (nodes : List Node) : List (Node × Nat) :=
  nodes.zipIdx.filter fun child =>
    child.1.isObject && !child.1.hides (nodes.take child.2) (nodes.drop (child.2 + 1))

/-- Those of the children that are left behind some others. -/
def shownFrom (before nodes : List Node) : List (Node × Nat) :=
  (nodes.zipIdx before.length).filter fun child =>
    child.1.isObject && !child.1.hides ((before ++ nodes).take child.2)
      ((before ++ nodes).drop (child.2 + 1))

theorem shownFrom_cons (before : List Node) (node : Node) (after : List Node) :
    shownFrom before (node :: after) =
      (if node.isObject && !node.hides before after then [(node, before.length)] else []) ++
        shownFrom (before ++ [node]) after := by
  have htake : (before ++ node :: after).take before.length = before := List.take_left
  have hdrop : (before ++ node :: after).drop (before.length + 1) = after := by
    rw [List.append_cons]
    exact List.drop_left' (by simp)
  rw [shownFrom, List.zipIdx_cons, List.filter_cons, htake, hdrop, shownFrom, ← List.append_cons,
    List.length_append]
  split <;> rfl

/-- The objects of the leaves to which no code or math mark applies. -/
def visibleObjects (registry : Registry) (leaves : List Inline) (marks : List (List Nat)) :
    List Inline :=
  (leaves.zip marks).flatMap fun leaf =>
    if leaf.2.any registry.holdsText then [] else leaf.1.objects

section Rows

variable {environment : Environment} {start collected : Progress} {registry : Registry}

theorem visibleObjects_cons (leaf : Inline) (rest : List Inline) (marks : List Nat)
    (others : List (List Nat)) :
    visibleObjects registry (leaf :: rest) (marks :: others) =
      (if marks.any registry.holdsText then [] else leaf.objects) ++
        visibleObjects registry rest others := rfl

theorem visibleObjects_append {leaves more : List Inline} {marks others : List (List Nat)}
    (h : leaves.length = marks.length) :
    visibleObjects registry (leaves ++ more) (marks ++ others) =
      visibleObjects registry leaves marks ++ visibleObjects registry more others := by
  rw [visibleObjects, List.zip_append h, List.flatMap_append]
  rfl

theorem visibleObjects_replicate (leaves : List Inline) (marks : List Nat) :
    visibleObjects registry leaves (List.replicate leaves.length marks) =
      if marks.any registry.holdsText then [] else leaves.flatMap Inline.objects := by
  induction leaves with
  | nil => simp [visibleObjects]
  | cons leaf rest ih =>
      rw [List.length_cons, List.replicate_succ, visibleObjects_cons, ih]
      split <;> rfl

/-- The marks of a child's leaves, if it has any, tell if it is hidden. -/
theorem exists_appliedFrom_cons {settings : Settings} {before after : List Node} {node : Node}
    {index : Nat} {last : List Nat} {contribution : Contribution}
    {contributions : List Contribution} (hsound : registry.Sound)
    (hlast : registry.Indexes (Node.lastOpaque before) last)
    (hregistered : ∀ child ∈ node :: after, child.Registered registry)
    (hfirst : node.contribution? settings registry index = some contribution)
    (hrest : Export.Contributes settings registry (after.zipIdx (index + 1)) contributions) :
    ∃ own next, appliedFrom last (contribution :: contributions) =
        List.replicate contribution.chunks.length own ++ appliedFrom next contributions ∧
      (contribution.chunks ≠ [] → own.any registry.holdsText = node.hides before after) ∧
      registry.Indexes (Node.lastOpaque (before ++ [node])) next := by
  obtain ⟨hnode, hafter⟩ := List.forall_mem_cons.mp hregistered
  cases hmarks : node.opaqueMarks? with
  | some marks =>
      obtain ⟨chunks, own, rfl, hne, hindexes⟩ :=
        Node.exists_run_of_opaqueMarks? hsound hnode hfirst hmarks
      refine ⟨own, own, by rw [appliedFrom, hne]; rfl, fun _ => ?_, ?_⟩
      · rw [hindexes.any_holdsText, Node.hides, hmarks]
      · rwa [Node.lastOpaque_concat_of_some hmarks]
  | none =>
      rw [Node.lastOpaque_concat_of_none hmarks]
      rcases Node.breakpoint_or_empty hfirst hmarks with ⟨chunk, rfl⟩ | ⟨own, rfl⟩
      · refine ⟨_, last, rfl, fun _ => ?_, hlast⟩
        have hnext := indexes_nextMarks hsound (fun child hchild =>
          hafter child.1 (List.fst_mem_of_mem_zipIdx hchild)) hrest
        rw [List.zipIdx_map_fst] at hnext
        rw [hlast.any_common hnext, Node.hides, hmarks]
      · exact ⟨own, last, rfl, fun hne => absurd rfl hne, hlast⟩

/-- The objects that can be seen in a row are those of the children that are not hidden. -/
theorem becomes_visibleObjects (before nodes : List Node) {leaves : List Inline}
    {contributions : List Contribution} {last : List Nat} (hsound : registry.Sound)
    (hleads : start.Leads collected) (hlast : registry.Indexes (Node.lastOpaque before) last)
    (hregistered : ∀ node ∈ nodes, node.Registered registry)
    (hcontributes : Export.Contributes environment.settings registry (nodes.zipIdx before.length)
      contributions)
    (hgives : List.Forall₂ (Chunk.Gives environment collected)
      (contributions.flatMap Contribution.chunks) leaves) :
    List.Forall₂ (Becomes environment start) (shownFrom before nodes)
      (visibleObjects registry leaves (appliedFrom last contributions)) := by
  induction nodes generalizing before last contributions leaves with
  | nil =>
      cases hcontributes
      cases hgives
      exact .nil
  | cons node after ih =>
      rw [List.zipIdx_cons] at hcontributes
      obtain ⟨contribution, others, hfirst, hrest, rfl⟩ :=
        List.forall₂_cons_left_iff.mp hcontributes
      rw [List.flatMap_cons] at hgives
      obtain ⟨inlines, more, hinlines, hmore, rfl⟩ := exists_append_of_forall₂ hgives
      obtain ⟨own, next, happlied, hhides, hnext⟩ :=
        exists_appliedFrom_cons hsound hlast hregistered hfirst hrest
      have hown : visibleObjects registry inlines (List.replicate inlines.length own) =
          if node.hides before after then [] else inlines.flatMap Inline.objects := by
        rw [visibleObjects_replicate]
        by_cases hne : contribution.chunks = []
        · rw [hne] at hinlines
          cases hinlines
          simp
        · rw [hhides hne]
      rw [happlied, hinlines.length_eq, visibleObjects_append (by simp), hown, shownFrom_cons]
      refine List.rel_append (becomes_of_gives hleads hfirst hinlines _) ?_
      refine ih (before ++ [node]) hnext (List.forall_mem_cons.mp hregistered).2 ?_ hmore
      rwa [List.length_append]

end Rows

/-! ## Rows that are assembled -/

section Leaves

variable {registry : Registry}

/-- Untangling puts no mark on a leaf that it did not have. -/
theorem mem_of_mem_emptiedAt {order : Nat → Nat → Ordering} {contributions : List Contribution}
    {pieces : List MarkRange} (hnodup : ∀ contribution ∈ contributions, contribution.marks.Nodup)
    (hpieces : untangle order (collectRanges contributions) = .ok pieces) {position mark : Nat}
    {marks : List Nat} (happlied : (applied contributions)[position]? = some marks)
    (hm : mark ∈ emptiedAt position pieces) : mark ∈ marks := by
  obtain ⟨piece, hemptied, rfl⟩ := List.mem_map.mp hm
  obtain ⟨hp, hat⟩ := List.mem_filter.mp hemptied
  obtain ⟨rfl, -⟩ := of_decide_eq_true hat
  obtain ⟨range, hr, hcut⟩ :=
    cutFrom_untangle (nonempty_of_mem_collectRanges hnodup) hpieces piece hp
  obtain ⟨found, hfound, hmem⟩ := exists_applied_of_covers hnodup hr ⟨hcut.left, hcut.inside⟩
  rw [happlied] at hfound
  cases hfound
  rwa [hcut.mark]

/-- Whether a leaf is kept can be told from the marks that it carries, also if some are doubled. -/
theorem keepsLeaf_eq {leaf : Inline × List Opening} {marks doubles : List Nat}
    (hcontained : ∀ opening ∈ leaf.2, opening.container = registry.containerAt opening.range.mark)
    (hcarries : Carries leaf (marks ++ doubles)) (hdoubles : ∀ mark ∈ doubles, mark ∈ marks) :
    keepsLeaf leaf = !marks.any registry.holdsText := by
  have hmem (mark : Nat) : mark ∈ marks ↔ ∃ opening ∈ leaf.2, opening.range.mark = mark := by
    rw [← List.mem_map, hcarries.mem_iff, List.mem_append]
    exact ⟨.inl, fun h => h.elim id (hdoubles mark)⟩
  have hsame : leaf.2.any (fun opening => opening.container.holdsText) =
      marks.any registry.holdsText := by
    rw [Bool.eq_iff_iff, List.any_eq_true, List.any_eq_true]
    constructor
    · rintro ⟨opening, ho, hholds⟩
      rw [hcontained opening ho] at hholds
      exact ⟨_, (hmem _).mpr ⟨opening, ho, rfl⟩, hholds⟩
    · rintro ⟨mark, hmark, hholds⟩
      obtain ⟨opening, ho, rfl⟩ := (hmem mark).mp hmark
      exact ⟨opening, ho, by rwa [hcontained opening ho]⟩
  rw [keepsLeaf, ← hsame, List.not_any_eq_all_not]

theorem forall₂_keepsLeaf {order : Nat → Nat → Ordering} {contributions : List Contribution}
    {pieces : List MarkRange} (hnodup : ∀ contribution ∈ contributions, contribution.marks.Nodup)
    (hpieces : untangle order (collectRanges contributions) = .ok pieces)
    {leaves : List (Inline × List Opening)}
    (hcontained : ∀ leaf ∈ leaves, ∀ opening ∈ leaf.2,
      opening.container = registry.containerAt opening.range.mark)
    (hcarries : List.Forall₂ Carries leaves (doubled pieces contributions)) :
    List.Forall₂ (fun leaf own => keepsLeaf leaf = !own.any registry.holdsText) leaves
      (applied contributions) := by
  obtain ⟨hlength, hcarries⟩ := List.forall₂_iff_get.mp hcarries
  rw [doubled, List.length_mapIdx] at hlength
  refine List.forall₂_iff_get.mpr ⟨hlength, fun position hleaf happlied => ?_⟩
  have hcarry := hcarries position hleaf (by rwa [doubled, List.length_mapIdx])
  simp only [doubled, List.get_eq_getElem, List.getElem_mapIdx] at hcarry
  exact keepsLeaf_eq (hcontained _ (List.get_mem _ _)) hcarry fun mark =>
    mem_of_mem_emptiedAt hnodup hpieces (List.getElem?_eq_getElem happlied)

theorem keptObjects_eq_visibleObjects {leaves : List (Inline × List Opening)}
    {marks : List (List Nat)}
    (h : List.Forall₂ (fun leaf own => keepsLeaf leaf = !own.any registry.holdsText) leaves
      marks) :
    keptObjects leaves = visibleObjects registry (leaves.map Prod.fst) marks := by
  induction h with
  | nil => rfl
  | @cons leaf own rest others hkeeps _ ih =>
      rw [List.map_cons, visibleObjects_cons, ← ih, keptObjects, List.filter_cons, hkeeps]
      cases own.any registry.holdsText <;> rfl

end Leaves

/-! ## Nodes that are converted -/

namespace Export

variable {environment : Environment} {before after : Progress} {nodes : List Node}
  {written : List Inline}

/-- An image or raw text that was collected has its marks registered. -/
theorem registered_of_contribute {node : Node} {index : Nat} {contribution : Contribution}
    (h : (contribute index (Prepared.ofNode node)).runFrom environment before =
      (.ok contribution, after)) : node.Registered after.registry := by
  unfold contribute at h
  dsimp only at h
  rw [Prepared.node_ofNode] at h
  obtain ⟨kind, known, h⟩ := exists_kind_of_bind_kindOf h
  have hmarked {leaf : Inline}
      (h : (markedLeaf leaf node.marks).runFrom environment before = (.ok contribution, after)) :
      ∀ mark ∈ node.marks, ∃ index, after.registry.index? mark = some index := by
    obtain ⟨indexes, between, hindexes, h⟩ := runFrom_bind_eq_ok h
    cases h
    obtain ⟨found, last, hfound, h⟩ := runFrom_bind_eq_ok hindexes
    cases h
    exact forall_mem_of_forall₂ (forall₂_of_mapM_indexOf hfound).flip
      fun index _ mark hindex => ⟨index, hindex⟩
  rintro (hkind | hkind)
  · obtain rfl := Option.some.inj (known.symm.trans hkind)
    exact hmarked h
  · obtain rfl := Option.some.inj (known.symm.trans hkind)
    exact hmarked h

theorem registered_of_collectOf {row : List Chunk × List MarkRange}
    (h : (collectOf nodes).runFrom environment before = (.ok row, after)) :
    ∀ node ∈ nodes, node.Registered after.registry := by
  obtain ⟨contributions, last, hcontributions, h⟩ := runFrom_bind_eq_ok h
  cases h
  have hchildren := (inTurn_of_eachChildFrom 0 hcontributions).forall_mem
    (P := fun child progress => child.1.Registered progress.registry)
    (fun child s contribution t hstep => by
      obtain ⟨inner, hinner, rfl⟩ := runFrom_descend_eq_ok hstep
      have hregistered := registered_of_contribute hinner
      exact hregistered)
    (fun child s contribution t hstep other hs hkind mark hmark => by
      obtain ⟨index, hindex⟩ := hs hkind mark hmark
      exact ⟨index, (((steady_contribute _ _).descend _ _).leads hstep).index? hindex⟩)
  intro node hnode
  obtain ⟨index, hindex⟩ := List.mem_iff_getElem?.mp hnode
  exact hchildren (node, index) (List.mem_zipIdx_iff_getElem?.mpr hindex)

/-- Inlines that were converted are what is left of a tree, with a container for each piece of the
collected ranges and a leaf for each of the chunks, under the pieces that hold its position. -/
theorem exists_forest_of_inlinesOf
    (h : (inlinesOf nodes).runFrom environment before = (.ok written, after)) :
    ∃ (contributions : List Contribution) (collected : Progress) (pieces : List MarkRange)
      (forest : List Nesting) (leaves : List Inline),
      (collectOf nodes).runFrom environment before =
        (.ok (contributions.flatMap Contribution.chunks, collectRanges contributions),
          collected) ∧
      Contributes environment.settings collected.registry nodes.zipIdx contributions ∧
      untangle (collected.registry.compare environment.priority) (collectRanges contributions) =
        .ok pieces ∧
      List.Forall₂ (Chunk.Gives environment collected)
        (contributions.flatMap Contribution.chunks) leaves ∧
      written = inlinesIn forest ∧
      leavesIn [] forest = leaves.mapIdx (fun position leaf =>
        (leaf, (openingsIn forest).filter fun opening =>
          decide (opening.range.Holds position))) ∧
      (openingsIn forest).map Opening.range = pieces ∧
      (∀ opening ∈ openingsIn forest,
        opening.container = collected.registry.containerAt opening.range.mark) ∧
      FullIn forest := by
  obtain ⟨chunks, ranges, collected, pieces, hcollect, hpieces, hassemble⟩ :=
    exists_stages_of_inlinesOf h
  obtain ⟨contributions, hcontributes, rfl, rfl⟩ := exists_contributes_of_collect hcollect
  have hnodup := hcontributes.nodup
  have hne := nonempty_of_mem_collectRanges hnodup
  have hcut := cutFrom_untangle hne hpieces
  have hsteady : ∀ chunk ∈ contributions.flatMap Contribution.chunks, chunk.Steady :=
    yields_collect (Prepared.steady_ofNodes nodes) _ _ _ _ hcollect
  obtain ⟨forest, leaves, hwritten, hgives, hplaced, hranges, hcontained, hfull⟩ :=
    full_nesting_of_assemble hsteady (pairwise_untangle hpieces) (laminar_untangle hne hpieces)
      (fun piece hp => by
        obtain ⟨range, hr, hpiece⟩ := hcut piece hp
        exact Nat.lt_of_lt_of_le hpiece.inside (stop_le_of_mem_collectRanges hnodup range hr))
      (fun piece hp => by
        obtain ⟨range, hr, hpiece⟩ := hcut piece hp
        obtain ⟨mark, hindex⟩ := exists_index?_of_mem_collectRanges hcontributes hnodup hr
        obtain ⟨entry, hentry, -⟩ := Registry.exists_stands hindex
        exact ⟨entry, by rwa [hpiece.mark]⟩) hassemble
  exact ⟨contributions, collected, pieces, forest, leaves, hcollect, hcontributes, hpieces, hgives,
    hwritten, hplaced, hranges, hcontained, hfull⟩

/-- The objects in inlines are those of the leaves to which no code or math mark applies. -/
theorem exists_visibleObjects_of_inlinesOf
    (h : (inlinesOf nodes).runFrom environment before = (.ok written, after)) :
    ∃ (contributions : List Contribution) (collected : Progress) (leaves : List Inline),
      (collectOf nodes).runFrom environment before =
        (.ok (contributions.flatMap Contribution.chunks, collectRanges contributions),
          collected) ∧
      Contributes environment.settings collected.registry nodes.zipIdx contributions ∧
      List.Forall₂ (Chunk.Gives environment collected)
        (contributions.flatMap Contribution.chunks) leaves ∧
      objectsIn written = visibleObjects collected.registry leaves (applied contributions) := by
  obtain ⟨contributions, collected, pieces, forest, leaves, hcollect, hcontributes, hpieces,
    hgives, rfl, hplaced, hranges, hcontained, hfull⟩ := exists_forest_of_inlinesOf h
  have hnodup := hcontributes.nodup
  have hcarries := carries_of_placed hnodup hpieces hgives.length_eq.symm hranges hplaced
  have hkeeps := forall₂_keepsLeaf hnodup hpieces (fun leaf hleaf opening ho => by
    rw [hplaced] at hleaf
    obtain ⟨position, hposition, rfl⟩ := List.mem_mapIdx.mp hleaf
    exact hcontained opening (List.mem_of_mem_filter ho)) hcarries
  have hleaves : (leavesIn [] forest).map Prod.fst = leaves := by
    rw [hplaced]
    exact List.ext_getElem (by simp) (by simp)
  refine ⟨contributions, collected, leaves, hcollect, hcontributes, hgives, ?_⟩
  rw [objectsIn_inlinesIn forest [] hfull nofun, keptObjects_eq_visibleObjects hkeeps, hleaves]

/-- **Objects in running text.** Whatever marks are on the nodes, if these convert, the objects in
the inlines are what the nodes have become that are objects and not hidden, each once and in the
order of the nodes. A node is hidden by a code or math mark: an image or raw text by one of its
own, a breakpoint by one that the nearest nodes with marks before it and behind it have in
common. -/
theorem becomes_of_inlinesOf (environment : Environment) (known : List Mark) (citations : Nat)
    (path : List String) (nodes : List Node)
    (h : (inlinesOf nodes).runFrom environment ⟨.ofMarks known, citations, path⟩ =
      (.ok written, after)) :
    List.Forall₂ (Becomes environment ⟨.ofMarks known, citations, path⟩) (shown nodes)
      (objectsIn written) := by
  obtain ⟨contributions, collected, leaves, hcollect, hcontributes, hgives, hobjects⟩ :=
    exists_visibleObjects_of_inlinesOf h
  have hleads := (steady_collect _).leads hcollect
  have hsound : collected.registry.Sound := by
    obtain ⟨marks, hregistry⟩ := hleads.registered
    rw [hregistry]
    exact (Registry.sound_ofMarks known).register marks
  rw [hobjects]
  exact becomes_visibleObjects [] nodes hsound hleads Registry.indexes_nil
    (registered_of_collectOf hcollect) hcontributes hgives

/-- A strong text, a break, and an image, a note and raw text that are all code, the raw text strong
too, and a second note before an empty span. What is code is not there any more. -/
theorem becomes_of_inlinesOf_seven :
    let rule : Node := { type := "horizontalRule" }
    let nodes : List Node :=
      [{ type := "text", text := some "a", marks := [⟨"strong", []⟩] },
       { type := "hardBreak" },
       { type := "image", marks := [⟨"code", []⟩] },
       { type := "note", content := [rule] },
       { type := "rawInline", marks := [⟨"strong", []⟩, ⟨"code", []⟩] },
       { type := "note", content := [rule] },
       { type := "emptySpan" }]
    ∃ written after,
      (inlinesOf nodes).runFrom {} ⟨.ofMarks [], 0, []⟩ = (.ok written, after) ∧
      (shown nodes).map Prod.snd = [1, 5, 6] ∧
      List.Forall₂ (Becomes {} ⟨.ofMarks [], 0, []⟩) (shown nodes) (objectsIn written) := by
  intro rule nodes
  have hrun : ∃ written after,
      (inlinesOf nodes).runFrom {} ⟨.ofMarks [], 0, []⟩ = (.ok written, after) :=
    ⟨_, _, by cbv⟩
  obtain ⟨written, after, hrun⟩ := hrun
  exact ⟨written, after, hrun, by decide, becomes_of_inlinesOf {} [] 0 [] nodes hrun⟩

/-- A note between two images that are code. All three are objects, and none of them is left. -/
theorem objectsIn_eq_nil_of_code :
    let image : Node := { type := "image", marks := [⟨"code", []⟩] }
    let nodes : List Node :=
      [image, { type := "note", content := [{ type := "horizontalRule" }] }, image]
    let written : List Inline := [.code {} ""]
    (∀ node ∈ nodes, node.isObject = true) ∧
      ((inlinesOf nodes).runFrom {} ⟨.ofMarks [], 0, []⟩).1 = .ok written ∧
      objectsIn written = [] :=
  ⟨by decide, by cbv, rfl⟩

end Export

end RichDoc
