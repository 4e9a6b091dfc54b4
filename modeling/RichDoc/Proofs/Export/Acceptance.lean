import RichDoc.Proofs.Document.Grammar
import RichDoc.Proofs.Export.Assembly
import RichDoc.Proofs.Export.Verdict

/-!
# What is accepted

Every converter decides whether the nodes that it looks at fit where they
stand (`Node.Fits`), and from the leaves up the conversions of all nodes do
(`Node.judged`). So a document is accepted just when its tree fits the
grammar, unless an untangling is stopped on the way.

A footnote is found when the children of its container are collected and
converted when the chunks are assembled. The chunks say which footnotes are
left to decide (`Node.Keeps`).
-/

namespace RichDoc

/-- The conversions of the node, and of all nodes below it, decide whether it fits. -/
inductive Node.Judged : Node → Prop where
  | intro {node : Node} (block : (Prepared.ofNode node).block.Decides node (node.Fits .block))
      (metaValue : (Prepared.ofNode node).metaValue.Decides node (node.Fits .metaValue))
      (children : ∀ child ∈ node.content, child.Judged) : Judged node

namespace Node

variable {node : Node}

theorem Judged.block (h : node.Judged) :
    (Prepared.ofNode node).block.Decides node (node.Fits .block) := by
  cases h with | intro block _ _ => exact block

theorem Judged.metaValue (h : node.Judged) :
    (Prepared.ofNode node).metaValue.Decides node (node.Fits .metaValue) := by
  cases h with | intro _ metaValue _ => exact metaValue

theorem Judged.children (h : node.Judged) : ∀ child ∈ node.content, child.Judged := by
  cases h with | intro _ _ children => exact children

/-- The node is of a type that may stand among inlines. -/
def StandsInline (node : Node) : Prop :=
  ∃ kind holding, node.kind? = some kind ∧ Position.inline.holds kind = some holding

theorem fits_inline_iff : node.Fits .inline ↔ node.StandsInline ∧
    (node.kind? = some .note → ∀ child ∈ node.content, child.Fits .block) := by
  constructor
  · rintro ⟨known, allowed, -, held⟩
    refine ⟨⟨_, _, known, allowed⟩, ?_⟩
    intro hnote
    obtain rfl := Option.some.inj (known.symm.trans hnote)
    cases allowed
    exact held _ rfl
  · rintro ⟨⟨kind, holding, known, allowed⟩, hnote⟩
    refine ⟨known, allowed, ?_, ?_⟩
    · cases kind <;> trivial
    · rintro inner rfl
      cases kind <;> cases allowed
      exact hnote known

theorem term_or_data {holding : Holding} {kind : NodeKind}
    (allowed : Position.definition.holds kind = some holding) :
    kind = .definitionTerm ∨ kind = .definitionData := by
  cases kind <;> first | exact .inl rfl | exact .inr rfl | cases allowed

/-- What a chunk of the node's children leaves to decide: whether its footnote holds blocks. -/
def Keeps (node : Node) : Chunk → Prop
  | .leaf _ => True
  | .note index _ =>
    ∀ child, node.content[index]? = some child → ∀ inner ∈ child.content, inner.Fits .block

end Node

namespace Export

variable {α : Type} {node child : Node} {kind : NodeKind}

/-- A type that may not stand at the position is refused. -/
theorem decides_refused {position : Position} (known : node.kind? = some kind)
    (misplaced : position.holds kind = none) (message : String) :
    (structural message : Export α).Decides node (node.Fits position) :=
  decides_structural known message (Node.not_fits known misplaced)

/-- A type that may stand at the position is accepted if nobody looks at what it holds. -/
theorem decides_unread {position : Position} (known : node.kind? = some kind)
    (allowed : position.holds kind = some .unread) (arranged : node.Arranged kind) (x : α) :
    (pure x : Export α).Decides node (node.Fits position) :=
  .pure x ((Node.fits_of_unread known allowed).mpr arranged)

/-- A type without more to it is accepted if what it holds is. -/
theorem Decides.fits {convert : Export α} {position inner : Position}
    (h : convert.Decides node (∀ child ∈ node.content, child.Fits inner))
    (known : node.kind? = some kind) (allowed : position.holds kind = some (.each inner))
    (arranged : node.Arranged kind) : convert.Decides node (node.Fits position) := by
  rw [Node.fits_of_each known allowed]
  exact h.congr (and_iff_right arranged).symm

theorem decides_blocks (known : node.kind? = some kind)
    (h : ∀ child ∈ node.content, child.Judged) :
    (blocks (Prepared.ofNodes node.content)).Decides node
      (∀ child ∈ node.content, child.Fits .block) :=
  decides_eachChild known fun _ child hc => (h child hc).block

/-! ## Inlines -/

theorem decides_indexOf (mark : Mark) : (indexOf mark).Decides node True :=
  .of_succeeds (steady_indexOf mark) fun _ _ => ⟨_, _, rfl⟩

theorem decides_read : (read : Export Environment).Decides node True :=
  .of_succeeds steady_read fun _ _ => ⟨_, _, rfl⟩

theorem decides_opaqueLeaf? (text : String) (marks : List Mark) :
    (opaqueLeaf? text marks).Decides node True := by
  induction marks with
  | nil => exact .pure none trivial
  | cons mark rest ih =>
      refine ((decides_indexOf mark).bind (Q := True) ?_).congr (and_iff_left trivial)
      intro _
      split
      · exact .pure _ trivial
      · exact ih

theorem decides_markIndexes (marks : List Mark) : (markIndexes marks).Decides node True := by
  have hmap : (marks.mapM indexOf).Decides node True := by
    induction marks with
    | nil => exact .pure [] trivial
    | cons mark rest ih =>
        rw [List.mapM_cons]
        exact ((decides_indexOf mark).bind fun x => ih.bind_pure (x :: ·)).congr
          (and_iff_left trivial)
  exact hmap.bind_pure List.eraseDups

theorem decides_markedLeaf (leaf : Pandoc.Inline) (marks : List Mark) :
    (markedLeaf leaf marks).Decides node True :=
  (decides_markIndexes marks).bind_pure _

theorem decides_contribute (index : Nat) (node : Node) :
    (contribute index (Prepared.ofNode node)).Decides node node.StandsInline := by
  unfold contribute
  dsimp only
  rw [Prepared.node_ofNode]
  refine decides_kindOf ?_ fun kind known => ?_
  · rintro unknown ⟨kind, holding, known, -⟩
    rw [unknown] at known
    cases known
  · have hstands {holding} (allowed : Position.inline.holds kind = some holding) :
        node.StandsInline := ⟨kind, holding, known, allowed⟩
    split
    · exact .pure _ (hstands rfl)
    · exact .pure _ (hstands rfl)
    · exact (Decides.bind_pure _ decides_read).congr (iff_of_true trivial (hstands rfl))
    · exact .pure _ (hstands rfl)
    · refine ((decides_opaqueLeaf? _ _).bind (Q := True) fun leaf => ?_).congr
        (iff_of_true ⟨trivial, trivial⟩ (hstands rfl))
      split
      · exact .pure _ trivial
      · exact (decides_markIndexes _).bind_pure _
    · exact (decides_markedLeaf _ _).congr (iff_of_true trivial (hstands rfl))
    · exact (decides_markedLeaf _ _).congr (iff_of_true trivial (hstands rfl))
    · refine decides_structural known _ ?_
      rintro ⟨kind', holding, known', allowed⟩
      obtain rfl := Option.some.inj (known.symm.trans known')
      cases kind <;> contradiction

theorem decides_untangled {ranges : List MarkRange}
    (h : ∀ range ∈ ranges, range.start < range.stop) : (untangled ranges).Decides node True := by
  refine ⟨steady_untangled ranges, fun environment progress => ?_⟩
  rw [untangled, runFrom_bind_ok (show markOrder.runFrom environment progress =
    (.ok (progress.registry.compare environment.priority), progress) from rfl)]
  cases huntangle : untangle (progress.registry.compare environment.priority) ranges with
  | ok pieces => trivial
  | error cause => exact ⟨.diverged h huntangle, fun hsure => absurd rfl (hsure cause)⟩

theorem decides_openAt (position : Nat) (nest : Nest) (numbered : List (Nat × Nat))
    (ranges : List MarkRange) : (openAt position nest numbered ranges).Decides node True := by
  induction ranges generalizing nest numbered with
  | nil => exact .pure _ trivial
  | cons range rest ih =>
      have hopen : (openFrame nest numbered range).Decides node True := by
        refine .of_succeeds (steady_openFrame _ _ _) fun environment progress => ?_
        obtain ⟨_, _, _, hrun, -⟩ := @runFrom_openFrame environment progress nest numbered range
        exact ⟨_, _, hrun⟩
      unfold openAt
      split
      · exact (hopen.bind fun opened => ih opened.1 opened.2).congr (and_iff_left trivial)
      · exact .pure _ trivial

/-- What the chunk leaves to decide is decided when it is emitted. -/
theorem decides_emit (known : node.kind? = some kind) {chunk : Chunk}
    (hnote : ∀ index content, chunk = .note index content → ∃ child,
      node.content[index]? = some child ∧ child.kind? = some .note ∧
        content = blocksOf child.content)
    (h : ∀ child ∈ node.content, child.Judged) : (emit chunk).Decides node (node.Keeps chunk) := by
  cases chunk with
  | leaf inline => exact .pure inline trivial
  | note index content =>
      obtain ⟨child, hchild, hkind, rfl⟩ := hnote index content rfl
      have hblocks : (blocksOf child.content).Decides child
          (node.Keeps (.note index (blocksOf child.content))) := by
        refine (decides_blocks hkind (h child (List.mem_of_getElem? hchild)).children).congr ?_
        simp only [Node.Keeps, hchild, Option.some.injEq, forall_eq']
      have hname : NodeKind.note.name = child.type := NodeKind.name_of_ofName? hkind
      rw [emit, hname]
      exact (hblocks.map _).descend known hchild

theorem decides_assemble (known : node.kind? = some kind) {chunks : List Chunk}
    (hnotes : ∀ index content, .note index content ∈ chunks → ∃ child,
      node.content[index]? = some child ∧ child.kind? = some .note ∧
        content = blocksOf child.content)
    (h : ∀ child ∈ node.content, child.Judged) (ranges : List MarkRange) :
    (assemble chunks ranges).Decides node (∀ chunk ∈ chunks, node.Keeps chunk) := by
  have hwalk (position : Nat) (assembly : Assembly) :
      (assembleFrom position assembly chunks).Decides node
        (∀ chunk ∈ chunks, node.Keeps chunk) := by
    induction chunks generalizing position assembly with
    | nil => exact .pure assembly nofun
    | cons chunk rest ih =>
        have hemit := decides_emit known
          (fun index content heq => hnotes index content (heq ▸ List.mem_cons_self ..)) h
        have hrest := ih fun index content hmem =>
          hnotes index content (List.mem_cons_of_mem chunk hmem)
        rw [assembleFrom]
        refine ((decides_openAt _ _ _ _).bind fun _ => hemit.bind fun _ =>
          hrest (position + 1) _).congr ?_
        rw [true_and, List.forall_mem_cons]
  exact (hwalk 0 { pending := ranges }).bind_pure _

theorem decides_collect (known : node.kind? = some kind) :
    (collect (Prepared.ofNodes node.content)).Decides node
      (∀ child ∈ node.content, child.StandsInline) :=
  (decides_eachChild known fun index child _ => decides_contribute index child).bind_pure _

/-- Children are accepted as inlines just if they fit there, footnotes and all. -/
theorem decides_inlines (known : node.kind? = some kind)
    (h : ∀ child ∈ node.content, child.Judged) :
    (inlines (Prepared.ofNodes node.content)).Decides node
      (∀ child ∈ node.content, child.Fits .inline) := by
  have hcollected : (collect (Prepared.ofNodes node.content)).Yields fun row =>
      ∃ settings registry contributions,
        Contributes settings registry node.content.zipIdx contributions ∧
          row = (contributions.flatMap Contribution.chunks, collectRanges contributions) := by
    rintro environment progress ⟨chunks, ranges⟩ after hrun
    obtain ⟨contributions, hcontributes, rfl, rfl⟩ := exists_contributes_of_collect hrun
    exact ⟨_, _, contributions, hcontributes, rfl⟩
  refine ((decides_collect known).bind_of_yields (Q := ∀ child ∈ node.content, child.kind? = some .note →
    ∀ inner ∈ child.content, inner.Fits .block) hcollected ?_).congr ?_
  · rintro _ ⟨settings, registry, contributions, hcontributes, rfl⟩
    have hnotes := @note_mem_chunks _ _ _ _ hcontributes
    have hne := nonempty_of_mem_collectRanges hcontributes.nodup
    refine ((decides_untangled hne).bind fun pieces =>
      decides_assemble known (fun index content => hnotes.mp) h pieces).congr ?_
    rw [true_and]
    constructor
    · intro hkeeps child hmem hnote
      obtain ⟨index, hchild⟩ := List.getElem?_of_mem hmem
      exact hkeeps _ (hnotes.mpr ⟨child, hchild, hnote, rfl⟩) child hchild
    · intro hfit chunk hmem
      cases chunk with
      | leaf inline => trivial
      | note index content =>
          obtain ⟨child, hchild, hnote, -⟩ := hnotes.mp hmem
          intro other hother
          obtain rfl := Option.some.inj (hchild.symm.trans hother)
          exact hfit child (List.mem_of_getElem? hchild) hnote
  · simp only [Node.fits_inline_iff]
    exact forall₂_and.symm

/-! ## Lists -/

theorem decides_listItem (h : child.Judged) (index : Nat) :
    (listItem index (Prepared.ofNode child)).Decides child (child.Fits .listItem) := by
  unfold listItem
  rw [Prepared.node_ofNode, Prepared.children_ofNode]
  refine decides_kindOf Node.not_fits_of_unknown fun kind known => ?_
  split
  · exact (decides_blocks known h.children).fits known rfl trivial
  · exact decides_refused known (by cases kind <;> first | contradiction | rfl) _

theorem decides_listItems (known : node.kind? = some kind)
    (h : ∀ child ∈ node.content, child.Judged) :
    (listItems (Prepared.ofNodes node.content)).Decides node
      (∀ child ∈ node.content, child.Fits .listItem) :=
  decides_eachChild known fun index child hc => decides_listItem (h child hc) index

/-- How many definitions are due for the last term of the items, if there is one. -/
def dueOf : List Pandoc.Definition → Option Nat
  | [] => none
  | ⟨_, []⟩ :: _ => some 1
  | ⟨_, _ :: _⟩ :: _ => some 0

/-- How many definitions are due once a term or a definition has been added. -/
def dueAfter : NodeKind → Nat
  | .definitionTerm => 1
  | _ => 0

/-- A term or a definition may be the next one. -/
def MayFollow (due : Option Nat) : NodeKind → Prop
  | .definitionTerm => due ≠ some 1
  | .definitionData => due ≠ none
  | _ => False

theorem dueOf_cases : ∀ items : List Pandoc.Definition,
    dueOf items = none ∨ dueOf items = some 0 ∨ dueOf items = some 1
  | [] => .inl rfl
  | ⟨_, []⟩ :: _ => .inr (.inr rfl)
  | ⟨_, _ :: _⟩ :: _ => .inr (.inl rfl)

theorem dueOf_ne_one {items : List Pandoc.Definition}
    (h : ∀ term rest, items = ⟨term, []⟩ :: rest → False) : dueOf items ≠ some 1 := by
  rcases items with _ | ⟨⟨term, _ | ⟨first, more⟩⟩, rest⟩
  · exact nofun
  · exact fun _ => h _ _ rfl
  · exact nofun

theorem definesAfter_dueOf_nil (items : List Pandoc.Definition) :
    DefinesAfter (dueOf items) [] ↔ dueOf items ≠ some 1 := by
  rcases dueOf_cases items with hdue | hdue | hdue
  · rw [hdue]
    exact iff_of_true .nil nofun
  · rw [hdue, definesAfter_nil]
    simp
  · rw [hdue, definesAfter_nil]
    simp

theorem definesAfter_dueOf_cons (items : List Pandoc.Definition) {kinds : List NodeKind}
    (hkind : kind = .definitionTerm ∨ kind = .definitionData) :
    DefinesAfter (dueOf items) (kind :: kinds) ↔
      MayFollow (dueOf items) kind ∧ DefinesAfter (some (dueAfter kind)) kinds := by
  rcases hkind with rfl | rfl
  · rcases dueOf_cases items with hdue | hdue | hdue
    · rw [hdue]
      exact defines_term_iff.trans (and_iff_right nofun).symm
    · rw [hdue, definesAfter_term]
      simp [MayFollow, dueAfter]
    · rw [hdue, definesAfter_term]
      simp [MayFollow]
  · rcases dueOf_cases items with hdue | hdue | hdue
    · rw [hdue]
      exact iff_of_false (fun defines => nomatch kind_eq_of_defines defines)
        fun hboth => hboth.1 rfl
    · rw [hdue, definesAfter_data]
      simp [MayFollow, dueAfter]
    · rw [hdue, definesAfter_data]
      simp [MayFollow, dueAfter]

theorem yields_definitionPart (items : List Pandoc.Definition) :
    (definitionPart items (Prepared.ofNode child)).Yields fun items' =>
      ∃ kind, child.kind? = some kind ∧ dueOf items' = some (dueAfter kind) := by
  intro environment progress items' after hrun
  obtain ⟨kind, between, hkind, h⟩ := runFrom_bind_eq_ok hrun
  rw [Prepared.node_ofNode] at hkind
  refine ⟨kind, kind?_of_kindOf hkind, ?_⟩
  split at h
  · split at h
    · cases h
    · obtain ⟨term, last, -, h⟩ := runFrom_bind_eq_ok h
      cases h
      rfl
  · split at h
    · cases h
    · next term definitions rest =>
      obtain ⟨content, last, -, h⟩ := runFrom_bind_eq_ok h
      cases h
      cases definitions <;> rfl
  · cases h

theorem decides_definitionPart (h : child.Judged) (items : List Pandoc.Definition) :
    (definitionPart items (Prepared.ofNode child)).Decides child
      (child.Fits .definition ∧
        ∀ kind, child.kind? = some kind → MayFollow (dueOf items) kind) := by
  unfold definitionPart
  rw [Prepared.node_ofNode, Prepared.children_ofNode]
  refine decides_kindOf (fun unknown hboth => Node.not_fits_of_unknown unknown hboth.1)
    fun kind known => ?_
  simp only [known, Option.some.injEq, forall_eq']
  split
  · have hinlines : (inlines (Prepared.ofNodes child.content)).Decides child
        (child.Fits .definition) := (decides_inlines known h.children).fits known rfl trivial
    split
    · exact decides_structural known _ fun hboth => hboth.2 rfl
    · next hno =>
      exact (hinlines.bind_pure _).congr (and_iff_left (dueOf_ne_one hno)).symm
  · have hblocks : (blocks (Prepared.ofNodes child.content)).Decides child
        (child.Fits .definition) := (decides_blocks known h.children).fits known rfl trivial
    split
    · exact decides_structural known _ fun hboth => hboth.2 rfl
    · next term definitions rest =>
      refine (hblocks.bind_pure _).congr (and_iff_left ?_).symm
      cases definitions <;> simp [MayFollow, dueOf]
  · exact decides_structural known _ fun hboth =>
      Node.not_fits known (by cases kind <;> first | contradiction | rfl) hboth.1

/-- The rest of a definition list fits if it may follow the items so far. -/
theorem decides_foldDefinitions (known : node.kind? = some kind)
    (h : ∀ child ∈ node.content, child.Judged)
    {finish : List Pandoc.Definition → Export α}
    (hfinish : ∀ items, (finish items).Decides node (dueOf items ≠ some 1)) (index : Nat)
    (items : List Pandoc.Definition) :
    (foldChildren definitionPart index items (Prepared.ofNodes (node.content.drop index))
      >>= finish).Decides node
      (DefinesAfter (dueOf items) ((node.content.drop index).filterMap Node.kind?) ∧
        ∀ child ∈ node.content.drop index, child.Fits .definition) := by
  generalize hnodes : node.content.drop index = nodes
  induction nodes generalizing index items with
  | nil =>
      rw [Prepared.ofNodes, foldChildren, pure_bind]
      refine (hfinish items).congr ?_
      rw [List.filterMap_nil, definesAfter_dueOf_nil]
      simp
  | cons child rest ih =>
      obtain ⟨hchild, hrest⟩ := child_of_drop hnodes
      have hpart := decides_definitionPart (h child (List.mem_of_getElem? hchild)) items
      rw [Prepared.ofNodes, foldChildren, Prepared.node_ofNode, bind_assoc]
      refine ((hpart.descend known hchild).bind_of_yields
        (Q := (∀ kind, child.kind? = some kind →
          DefinesAfter (some (dueAfter kind)) (rest.filterMap Node.kind?)) ∧
            ∀ other ∈ rest, other.Fits .definition)
        ((yields_definitionPart items).descend _ _) ?_).congr ?_
      · rintro items' ⟨kind, hkind, hdue⟩
        refine (ih (index + 1) items' hrest).congr ?_
        simp [hkind, hdue]
      · rw [List.forall_mem_cons]
        constructor
        · rintro ⟨⟨hfits, hmay⟩, hdefines, hall⟩
          refine ⟨?_, hfits, hall⟩
          obtain ⟨hkind, allowed, -, -⟩ := hfits
          rw [List.filterMap_cons_some hkind]
          exact (definesAfter_dueOf_cons items (Node.term_or_data allowed)).mpr
            ⟨hmay _ hkind, hdefines _ hkind⟩
        · rintro ⟨hdefines, hfits, hall⟩
          have hfit := hfits
          obtain ⟨hkind, allowed, -, -⟩ := hfits
          rw [List.filterMap_cons_some hkind,
            definesAfter_dueOf_cons items (Node.term_or_data allowed)] at hdefines
          simp only [hkind, Option.some.injEq, forall_eq']
          exact ⟨⟨hfit, hdefines.1⟩, hdefines.2, hall⟩

theorem decides_definitionList (known : node.kind? = some kind)
    (h : ∀ child ∈ node.content, child.Judged) :
    (definitionList (Prepared.ofNodes node.content)).Decides node
      (Defines node.contentKinds ∧ ∀ child ∈ node.content, child.Fits .definition) := by
  refine decides_foldDefinitions known h (fun items => ?_) 0 []
  split
  · exact decides_structural known _ fun hdue => hdue rfl
  · next hno =>
    exact .pure _ (dueOf_ne_one hno)

/-! ## Figures -/

theorem decides_figurePart (h : child.Judged) (index : Nat) :
    (figurePart index (Prepared.ofNode child)).Decides child (child.Fits .figurePart) := by
  unfold figurePart
  rw [Prepared.node_ofNode, Prepared.children_ofNode]
  refine decides_kindOf Node.not_fits_of_unknown fun kind known => ?_
  split
  · exact ((decides_inlines known h.children).fits known rfl trivial).map _
  · refine (h.block.map _).congr (Node.fits_congr known ?_)
    cases kind <;> first | contradiction | rfl

theorem decides_figure (known : node.kind? = some kind)
    (h : ∀ child ∈ node.content, child.Judged) :
    (figure node (Prepared.ofNodes node.content)).Decides node
      (∀ child ∈ node.content, child.Fits .figurePart) :=
  (decides_eachChild known fun index child hc =>
    decides_figurePart (h child hc) index).bind_pure _

/-! ## Metadata -/

theorem decides_metaEntry (h : child.Judged) (index : Nat) :
    (metaEntry index (Prepared.ofNode child)).Decides child (child.Fits .metaEntry) := by
  unfold metaEntry
  rw [Prepared.node_ofNode, Prepared.children_ofNode]
  refine decides_kindOf Node.not_fits_of_unknown fun kind known => ?_
  dsimp only
  by_cases hkind : kind = .metaEntry
  · subst hkind
    rw [if_neg (not_not_intro rfl), Node.fits_of_each known rfl]
    cases hkey : child.attrs.string? "key" with
    | none =>
        refine decides_structural known _ ?_
        rintro ⟨⟨hsome, -⟩, -⟩
        rw [hkey] at hsome
        cases hsome
    | some key =>
        have hone : (child.attrs.string? "key").isSome = true := by rw [hkey]; rfl
        rcases hcontent : child.content with _ | ⟨value, _ | ⟨second, rest⟩⟩
        · refine decides_structural known _ ?_
          rintro ⟨⟨-, hlength⟩, -⟩
          rw [hcontent] at hlength
          cases hlength
        · have hvalue : child.content[0]? = some value := by rw [hcontent]; rfl
          have hdecides := (h.children value (List.mem_of_getElem? hvalue)).metaValue.descend
            known hvalue
          rw [Prepared.ofNodes, Prepared.ofNodes]
          dsimp only
          rw [Prepared.node_ofNode]
          refine (hdecides.bind_pure (key, ·)).congr ?_
          rw [List.forall_mem_singleton]
          exact (and_iff_right ⟨hone, by rw [hcontent]; rfl⟩).symm
        · refine decides_structural known _ ?_
          rintro ⟨⟨-, hlength⟩, -⟩
          rw [hcontent] at hlength
          cases hlength
  · rw [if_pos hkind]
    refine decides_structural_bind known _ _ ?_
    exact Node.not_fits known (by cases kind <;> first | contradiction | rfl)

theorem decides_metadata (known : node.kind? = some kind)
    (h : ∀ child ∈ node.content, child.Judged) :
    (metadata (Prepared.ofNodes node.content)).Decides node
      (∀ child ∈ node.content, child.Fits .metaEntry) :=
  (decides_eachChild known fun index child hc =>
    decides_metaEntry (h child hc) index).bind_pure _

theorem decides_metaValueOf (h : ∀ child ∈ node.content, child.Judged) :
    (metaValueOf node (Prepared.ofNodes node.content)).Decides node (node.Fits .metaValue) := by
  refine decides_kindOf Node.not_fits_of_unknown fun kind known => ?_
  split
  · exact ((decides_metadata known h).fits known rfl trivial).map _
  · exact ((decides_eachChild known fun _ item hi =>
      (h item hi).metaValue).fits known rfl trivial).map _
  · exact decides_unread known rfl trivial _
  · exact decides_unread known rfl trivial _
  · exact ((decides_inlines known h).fits known rfl trivial).map _
  · exact ((decides_blocks known h).fits known rfl trivial).map _
  · exact decides_refused known (by cases kind <;> first | contradiction | rfl) _

/-! ## Tables -/

theorem decides_span (known : node.kind? = some kind) (attrs : Attributes) (key : String) :
    (span attrs key).Decides node (∀ n, attrs.integer? key = some n → n ≤ 1000) := by
  unfold span
  split
  · next hnone =>
    exact .pure _ (by simp [hnone])
  · next n hsome =>
    simp only [hsome, Option.some.injEq, forall_eq']
    split
    · next hle =>
      exact .pure _ (le_trans (le_max_right 1 n) hle)
    · next hle =>
      refine decides_structural known _ ?_
      intro hn
      exact hle (max_le (by decide) hn)

theorem decides_cell (h : child.Judged) (index : Nat) :
    (cell index (Prepared.ofNode child)).Decides child (child.Fits .cell) := by
  unfold cell
  rw [Prepared.node_ofNode, Prepared.children_ofNode]
  refine decides_kindOf Node.not_fits_of_unknown fun kind known => ?_
  have hcell : (do
      let rowSpan ← span child.attrs "rowspan"
      let colSpan ← span child.attrs "colspan"
      let content ← blocks (Prepared.ofNodes child.content)
      return ⟨child.attrs.element, cellAlignment child.attrs, rowSpan, colSpan, content⟩ :
      Export Pandoc.Cell).Decides child
        ((∀ key ∈ ["rowspan", "colspan"], ∀ n, child.attrs.integer? key = some n → n ≤ 1000) ∧
          ∀ inner ∈ child.content, inner.Fits .block) := by
    refine ((decides_span known _ _).bind fun _ => (decides_span known _ _).bind fun _ =>
      (decides_blocks known h.children).bind_pure _).congr ?_
    simp [and_assoc]
  split
  · rw [Node.fits_of_each known rfl]
    exact hcell
  · rw [Node.fits_of_each known rfl]
    exact hcell
  · exact decides_refused known (by cases kind <;> first | contradiction | rfl) _

theorem decides_rowOf (known : child.kind? = some kind) (h : child.Judged) :
    (rowOf (Prepared.ofNode child)).Decides child (∀ inner ∈ child.content, inner.Fits .cell) := by
  unfold rowOf
  rw [Prepared.node_ofNode, Prepared.children_ofNode]
  exact (decides_eachChild known fun index inner hi =>
    decides_cell (h.children inner hi) index).bind_pure _

theorem decides_row (h : child.Judged) (index : Nat) :
    (row index (Prepared.ofNode child)).Decides child (child.Fits .row) := by
  unfold row
  rw [Prepared.node_ofNode]
  refine decides_kindOf Node.not_fits_of_unknown fun kind known => ?_
  split
  · exact (decides_rowOf known h).fits known rfl trivial
  · exact decides_refused known (by cases kind <;> first | contradiction | rfl) _

theorem decides_rows (known : node.kind? = some kind) (h : ∀ child ∈ node.content, child.Judged) :
    (rows (Prepared.ofNodes node.content)).Decides node
      (∀ child ∈ node.content, child.Fits .row) :=
  decides_eachChild known fun index child hc => decides_row (h child hc) index

theorem decides_tablePart (h : child.Judged) (index : Nat) :
    (tablePart index (Prepared.ofNode child)).Decides child (child.Fits .tablePart) := by
  unfold tablePart
  rw [Prepared.node_ofNode, Prepared.children_ofNode]
  refine decides_kindOf Node.not_fits_of_unknown fun kind known => ?_
  split
  · exact ((decides_rows known h.children).fits known rfl trivial).bind_pure _
  · exact ((decides_rows known h.children).fits known rfl trivial).bind_pure _
  · exact ((decides_rows known h.children).fits known rfl trivial).bind_pure _
  · exact ((decides_rowOf known h).fits known rfl trivial).map _
  · exact decides_refused known (by cases kind <;> first | contradiction | rfl) _

theorem yields_tablePart (index : Nat) (child : Node) :
    (tablePart index (Prepared.ofNode child)).Yields fun part =>
      child.kind? = some .tableRow ↔ part.bareRow?.isSome = true := by
  intro environment progress part after hrun
  obtain ⟨kind, between, hkind, h⟩ := runFrom_bind_eq_ok hrun
  rw [Prepared.node_ofNode] at hkind
  rw [kind?_of_kindOf hkind]
  split at h
  · obtain ⟨rows, last, -, h⟩ := runFrom_bind_eq_ok h
    cases h
    exact iff_of_false nofun nofun
  · obtain ⟨rows, last, -, h⟩ := runFrom_bind_eq_ok h
    cases h
    exact iff_of_false nofun nofun
  · obtain ⟨rows, last, -, h⟩ := runFrom_bind_eq_ok h
    cases h
    exact iff_of_false nofun nofun
  · rw [map_eq_pure_bind] at h
    obtain ⟨row, last, -, h⟩ := runFrom_bind_eq_ok h
    cases h
    exact iff_of_true rfl rfl
  · cases h

/-- Bare rows are accepted by themselves, and sections are. -/
theorem decides_tableSections (known : node.kind? = some kind) (attrs : Attributes)
    {parts : List TablePart}
    (hparts : List.Forall₂ (fun (child : Node) (part : TablePart) =>
      child.kind? = some .tableRow ↔ part.bareRow?.isSome = true) node.content parts) :
    (tableSections attrs parts).Decides node (node.Arranged .table) := by
  have hall := forall_mem_iff_of_forall₂ hparts
  have hnone := forall_mem_iff_of_forall₂ (hparts.imp fun _ _ => not_congr)
  have harranged : node.Arranged .table ↔
      (∀ part ∈ parts, part.bareRow?.isSome = true) ∨
        ∀ part ∈ parts, ¬ part.bareRow?.isSome = true := or_congr hall hnone
  rw [show node.Arranged .table = _ from propext harranged]
  unfold tableSections
  dsimp only
  split
  · next hempty =>
    refine .pure _ (.inr ?_)
    simpa using hempty
  · next hempty =>
    have hcount : parts.length = (parts.filterMap TablePart.bareRow?).length ↔
        ∀ part ∈ parts, part.bareRow?.isSome = true := by
      rw [List.length_filterMap_eq_countP, eq_comm, List.countP_eq_length]
    split
    · next hmixed =>
      refine decides_structural known _ ?_
      rintro (hrows | hsections)
      · exact hmixed (hcount.mpr hrows)
      · exact hempty (by simpa using hsections)
    · next hsame =>
      exact .pure _ (.inl (hcount.mp (not_not.mp hsame)))

theorem decides_table (known : node.kind? = some .table)
    (h : ∀ child ∈ node.content, child.Judged) :
    (table node (Prepared.ofNodes node.content)).Decides node
      ((∀ child ∈ node.content, child.Fits .tablePart) ∧ node.Arranged .table) :=
  (decides_eachChild known fun index child hc =>
    decides_tablePart (h child hc) index).bind_of_yields
      (forall₂_of_eachChildFrom (fun index child _ => yields_tablePart index child) 0)
      fun _ hparts => (decides_tableSections known _ hparts).bind_pure _

/-! ## Blocks -/

theorem decides_blockOf (h : ∀ child ∈ node.content, child.Judged) :
    (blockOf node (Prepared.ofNodes node.content)).Decides node (node.Fits .block) := by
  refine decides_kindOf Node.not_fits_of_unknown fun kind known => ?_
  split
  · exact ((decides_inlines known h).fits known rfl trivial).map _
  · exact ((decides_inlines known h).fits known rfl trivial).map _
  · exact ((decides_listItems known h).fits known rfl trivial).map _
  · exact ((decides_listItems known h).fits known rfl trivial).map _
  · rw [Node.fits_of_each known rfl]
    exact decides_definitionList known h
  · exact ((decides_blocks known h).fits known rfl trivial).map _
  · exact decides_unread known rfl trivial _
  · exact decides_unread known rfl trivial _
  · exact ((decides_blocks known h).fits known rfl trivial).map _
  · exact ((decides_blocks known h).fits known rfl trivial).map _
  · exact ((decides_blocks known h).fits known rfl trivial).map _
  · exact (decides_figure known h).fits known rfl trivial
  · exact decides_unread known rfl trivial _
  · rw [Node.fits_of_each known rfl]
    exact (decides_table known h).congr and_comm
  · exact decides_unread known rfl trivial _
  · exact decides_refused known (by cases kind <;> first | contradiction | rfl) _

end Export

namespace Node

mutual

/-- The conversions of a node, and of all nodes below it, decide whether it fits. -/
theorem judged : ∀ node : Node, node.Judged
  | ⟨type, attrs, content, marks, text⟩ => by
      have hchildren := judgedIn content
      refine .intro ?_ ?_ hchildren
      · rw [Prepared.ofNode]
        exact Export.decides_blockOf hchildren
      · rw [Prepared.ofNode]
        exact Export.decides_metaValueOf hchildren

theorem judgedIn : ∀ nodes : List Node, ∀ node ∈ nodes, node.Judged
  | [] => nofun
  | node :: rest => List.forall_mem_cons.mpr ⟨judged node, judgedIn rest⟩

end

end Node

/-! ## Documents -/

namespace Export

variable {root : Node}

theorem decides_documentPart (index : Nat) (child : Node) :
    (documentPart index (Prepared.ofNode child)).Decides child
      (child.Fits .top ∧ (child.kind? = some .metadata → index = 0)) := by
  have h := child.judged
  unfold documentPart
  rw [Prepared.node_ofNode, Prepared.children_ofNode]
  refine decides_kindOf (fun unknown hboth => Node.not_fits_of_unknown unknown hboth.1)
    fun kind known => ?_
  split
  · split
    · next hfirst =>
      exact (((decides_metadata known h.children).fits known rfl trivial).map _).congr
        (and_iff_left fun _ => hfirst).symm
    · next hlater =>
      exact decides_structural known _ fun hboth => hlater (hboth.2 known)
  · next hkind =>
    have hfits : child.Fits .block ↔ child.Fits .top := Node.fits_congr known (by
      cases kind <;> first | contradiction | rfl)
    refine (h.block.map _).congr (hfits.trans (and_iff_left ?_).symm)
    intro hmetadata
    exact absurd (Option.some.inj (known.symm.trans hmetadata)) hkind

/-- Only the first child of a root may be metadata. -/
theorem fits_children_iff :
    (∀ i child, root.content[i]? = some child →
      child.Fits .top ∧ (child.kind? = some .metadata → i = 0)) ↔
    root.Arranged .doc ∧ ∀ child ∈ root.content, child.Fits .top := by
  constructor
  · intro h
    constructor
    · intro child hmem hmetadata
      obtain ⟨i, hi⟩ := List.getElem?_of_mem hmem
      rw [List.getElem?_tail] at hi
      exact absurd ((h (i + 1) child hi).2 hmetadata) (Nat.succ_ne_zero i)
    · intro child hmem
      obtain ⟨i, hi⟩ := List.getElem?_of_mem hmem
      exact (h i child hi).1
  · rintro ⟨hfirst, hfits⟩ i child hchild
    refine ⟨hfits child (List.mem_of_getElem? hchild), ?_⟩
    intro hmetadata
    cases i with
    | zero => rfl
    | succ i =>
        rw [← List.getElem?_tail] at hchild
        exact absurd hmetadata (hfirst child (List.mem_of_getElem? hchild))

/-- The conversion of a document decides whether its tree fits the grammar. -/
theorem decides_documentOf (root : Node) : (documentOf root).Decides root (root.Fits .root) := by
  refine decides_kindOf Node.not_fits_of_unknown fun kind known => ?_
  split
  · have hparts := decides_eachChild_placed known fun index child _ =>
      decides_documentPart index child
    rw [Node.fits_of_each known rfl]
    refine (hparts.bind fun _ => decides_read.bind_pure _).congr ?_
    rw [and_true]
    exact fits_children_iff
  · exact decides_refused known (by cases kind <;> first | contradiction | rfl) _

end Export

namespace Node

/-- **What is accepted.** A document is converted just when its tree fits the grammar, unless an
untangling is stopped on the way, which happens only to ranges that are not empty. -/
theorem exists_toDocument_iff (environment : Environment) (root : Node) :
    ((∃ document, root.toDocument environment = .ok document) ↔
      root.Fits .root ∧ ∀ cause, root.toDocument environment ≠ .error (.diverged cause)) ∧
    ∀ cause, root.toDocument environment = .error (.diverged cause) →
      ∃ (registry : Registry) (ranges : List MarkRange),
        (∀ range ∈ ranges, range.start < range.stop) ∧
          untangle (registry.compare environment.priority) ranges = .error cause := by
  have hjudges := (Export.decides_documentOf root).judges environment {}
  have hrun : root.toDocument environment =
    ((Export.documentOf root).runFrom environment {}).1 := rfl
  rw [← hrun] at hjudges
  cases hresult : root.toDocument environment with
  | ok document =>
      rw [hresult] at hjudges
      exact ⟨iff_of_true ⟨document, rfl⟩ ⟨hjudges, nofun⟩, nofun⟩
  | error error =>
      rw [hresult] at hjudges
      refine ⟨iff_of_false nofun ?_, ?_⟩
      · rintro ⟨hfits, hsure⟩
        exact hjudges.2 (fun cause heq => hsure cause (congrArg _ heq)) hfits
      · rintro cause ⟨⟩
        exact hjudges.1.exists_ranges

end Node

end RichDoc
