import RichDoc.Proofs.Document.Grammar
import RichDoc.Proofs.Export.Numbering

/-!
# The citations of a document are numbered as they come up

A row is numbered together with its footnotes (`Export.numbers_inlinesOf`),
and conversions that are run one after the other go on where the last one
stopped (`Numbered.append`). So the conversion of every node numbers its
citations by the pieces of the ranges in it and below it, as long as there
are no metadata, figures and tables: metadata are written apart from the
blocks, and the captions of figures and the sections of tables in an order
of their own.
-/

namespace RichDoc

open Pandoc (Inline Block Citation Definition inlinesCites inlinesCites_singleton
  inlinesCites_ofText blocksCites blocksCites_eq_flatMap itemsCites itemsCites_eq_flatMap
  definitionsCites definitionsCites_eq_flatMap)

/-! ## One after the other -/

section Numbered

variable {seen pieces ranges pieces' ranges' : List RangeKey} {between after : Progress}
  {cites cites' : List (List Citation)}

theorem Numbered.nil (hciting : after.registry.Citing) (hcounted : seen.length = after.citations) :
    Numbered seen after [] [] [] :=
  ⟨hciting, hcounted, .nil, fun _ => .rfl⟩

theorem Numbered.append (h : Numbered seen between cites pieces ranges)
    (h' : Numbered (grow seen pieces) after cites' pieces' ranges') :
    Numbered seen after (cites ++ cites') (pieces ++ pieces') (ranges ++ ranges') := by
  refine ⟨h'.citing, ?_, ?_, fun key => ?_⟩
  · rw [grow_append]
    exact h'.counted
  · rw [grow_append]
    exact List.rel_append (h.labelled.mono (prefix_grow _ _)) h'.labelled
  · rw [List.mem_append, List.mem_append, h.complete, h'.complete]

end Numbered

namespace Export

variable {α β σ : Type} {environment : Environment} {fresh : List RangeKey → Prop}
  {brings : α → List (List Citation) → Prop} {brings' : β → List (List Citation) → Prop}
  {pieces ranges : Registry → List RangeKey} {before after : Progress} {way : List Nat}
  {node : Node} {kind : NodeKind} {nodes : List Node}

/-- What follows may fail, but neither registers nor numbers anything. -/
theorem Numbers.finish {convert : Export α} {next : α → Export β}
    (h : convert.Numbers environment fresh brings pieces ranges)
    (hsteady : ∀ x, (next x).Steady)
    (hnext : ∀ x y between last, (next x).runFrom environment between = (.ok y, last) →
      last = between ∧ ∀ cites, brings x cites → brings' y cites) :
    (convert >>= next).Numbers environment fresh brings' pieces ranges := by
  refine ⟨h.steady.bind hsteady, ?_⟩
  intro before y after hrun hciting more seen hfresh hcounted
  obtain ⟨x, between, hconvert, hlast⟩ := runFrom_bind_eq_ok hrun
  obtain ⟨rfl, hbrings⟩ := hnext x y _ _ hlast
  obtain ⟨cites, hx, hnumbered⟩ := h.numbered hconvert hciting more seen hfresh hcounted
  exact ⟨cites, hbrings cites hx, hnumbered⟩

theorem Numbers.map {convert : Export α}
    (h : convert.Numbers environment fresh brings pieces ranges) (f : α → β)
    (hf : ∀ x cites, brings x cites → brings' (f x) cites) :
    (f <$> convert).Numbers environment fresh brings' pieces ranges := by
  rw [map_eq_pure_bind]
  refine h.finish (fun x => steady_pure (f x)) fun x y between last hrun => ?_
  cases hrun
  exact ⟨rfl, hf x⟩

theorem Numbers.imp {convert : Export α} {brings' : α → List (List Citation) → Prop}
    (h : convert.Numbers environment fresh brings pieces ranges)
    (himp : ∀ x cites, brings x cites → brings' x cites) :
    convert.Numbers environment fresh brings' pieces ranges := by
  refine ⟨h.steady, fun hrun hciting more seen hfresh hcounted => ?_⟩
  obtain ⟨cites, hx, hnumbered⟩ := h.numbered hrun hciting more seen hfresh hcounted
  exact ⟨cites, himp _ _ hx, hnumbered⟩

/-- A conversion that gives no result numbers anything. -/
theorem numbers_structural (message : String) :
    (structural message : Export α).Numbers environment fresh brings pieces ranges :=
  ⟨steady_structural message, fun h => nomatch h⟩

theorem numbers_kindOf {next : NodeKind → Export α}
    (h : ∀ kind, node.kind? = some kind →
      (next kind).Numbers environment fresh brings pieces ranges) :
    (kindOf node >>= next).Numbers environment fresh brings pieces ranges := by
  have hknown : (kindOf node).Yields fun kind => node.kind? = some kind :=
    fun _ _ _ _ hkind => kind?_of_kindOf hkind
  refine ⟨(steady_kindOf node).bind_of_yields hknown fun kind known => (h kind known).steady, ?_⟩
  intro before x after hrun
  obtain ⟨kind, between, hkind, hnext⟩ := runFrom_bind_eq_ok hrun
  have known := kind?_of_kindOf hkind
  obtain rfl : before = between := (Prod.mk.inj ((runFrom_kindOf known).symm.trans hkind)).2
  exact (h kind known).numbered hnext

/-! ## Nodes and their children -/

/-- The conversion is one of a node at the end of a way, and numbers the citations there. -/
abbrev NumbersAt (environment : Environment) (convert : Export α)
    (brings : α → List (List Citation) → Prop) (way : List Nat) (node : Node) : Prop :=
  convert.Numbers environment (Fresh way) brings
    (fun registry => node.piecesAt environment registry way)
    (fun registry => rangesOf environment registry (node.rows way))

/-- The conversion is one of children from an index on, and numbers the citations there. -/
abbrev NumbersFrom (environment : Environment) (convert : Export α)
    (brings : α → List (List Citation) → Prop) (way : List Nat) (index : Nat)
    (nodes : List Node) : Prop :=
  convert.Numbers environment (fun seen => ∀ i ≥ index, Fresh (way ++ [i]) seen) brings
    (fun registry => (piecesFrom environment registry way index nodes).flatten)
    (fun registry => rangesOf environment registry (rowsFrom way index nodes))

theorem numbersFrom_nil {x : α} (h : brings x []) (index : Nat) :
    (pure x : Export α).NumbersFrom environment brings way index [] := by
  refine ⟨steady_pure x, ?_⟩
  rintro before _ _ ⟨⟩ hciting more seen - hcounted
  exact ⟨[], h, .nil hciting hcounted⟩

/-- A child and the children behind it, whose conversion may depend on what the child became. -/
theorem numbersFrom_cons {convert : Export α} {next : α → Export β} {index : Nat} {child : Node}
    {rest : List Node} {later : α → β → List (List Citation) → Prop}
    (hchild : convert.NumbersAt environment brings (way ++ [index]) child)
    (hrest : ∀ x, (next x).NumbersFrom environment (later x) way (index + 1) rest)
    (hall : ∀ x y cites cites', brings x cites → later x y cites' → brings' y (cites ++ cites')) :
    (descend index child.type convert >>= next).NumbersFrom environment brings' way index
      (child :: rest) := by
  refine ⟨(hchild.steady.descend _ _).bind fun x => (hrest x).steady, ?_⟩
  intro before y after hrun hciting more seen hfresh hcounted
  obtain ⟨x, between, hfirst, hlast⟩ := runFrom_bind_eq_ok hrun
  obtain ⟨inner, hinner, rfl⟩ := runFrom_descend_eq_ok hfirst
  -- what is registered behind the child is registered more, as far as the child goes
  obtain ⟨late, hlate⟩ := ((hrest x).steady.leads hlast).registered
  have hgrown : after.registry.register more = inner.registry.register (late ++ more) := by
    rw [hlate, Registry.register_append]
    rfl
  obtain ⟨cites, hx, hnumbered⟩ := hchild.numbered hinner hciting (late ++ more) seen
    (hfresh index (Nat.le_refl _)) hcounted
  rw [← hgrown] at hnumbered
  have hfresh' : ∀ i ≥ index + 1, Fresh (way ++ [i]) (grow seen
      (child.piecesAt environment (after.registry.register more) (way ++ [index]))) := by
    intro i hi
    refine fresh_grow (hfresh i (by omega)) fun key hkey hbegins => ?_
    have := eq_of_prefixes (Node.prefix_of_mem_piecesAt _ child key hkey) hbegins
    omega
  obtain ⟨cites', hy, hothers⟩ := (hrest x).numbered hlast hnumbered.citing more _ hfresh'
    hnumbered.counted
  refine ⟨cites ++ cites', hall x y cites cites' hx hy, ?_⟩
  rw [piecesFrom, List.flatten_cons, rowsFrom, rangesOf, List.flatMap_append]
  exact hnumbered.append hothers

/-- Children are numbered one after the other. -/
theorem numbersFrom_eachChildFrom {convert : Nat → Prepared → Export α}
    {cites : α → List (List Citation)}
    (h : ∀ i, ∀ child ∈ nodes, (convert i (Prepared.ofNode child)).NumbersAt environment
      (cites · = ·) (way ++ [i]) child) (index : Nat) :
    (eachChildFrom convert index (Prepared.ofNodes nodes)).NumbersFrom environment
      (List.flatMap cites · = ·) way index nodes := by
  induction nodes generalizing index with
  | nil =>
      refine numbersFrom_nil ?_ index
      rfl
  | cons child rest ih =>
      obtain ⟨hchild, hrest⟩ := forall_and.mp fun i => List.forall_mem_cons.mp (h i)
      have hothers (x : α) : (do
          let xs ← eachChildFrom convert (index + 1) (Prepared.ofNodes rest)
          return x :: xs : Export (List α)).NumbersFrom environment
          (fun ys new => ys.flatMap cites = cites x ++ new) way (index + 1) rest := by
        refine (ih hrest (index + 1)).finish (fun _ => steady_pure _) ?_
        rintro xs _ between _ ⟨⟩
        refine ⟨rfl, ?_⟩
        rintro _ rfl
        exact List.flatMap_cons ..
      rw [Prepared.ofNodes, eachChildFrom, Prepared.node_ofNode]
      refine numbersFrom_cons (hchild index) hothers ?_
      rintro x ys _ new rfl heq
      exact heq

/-- Children are numbered while something is built up from them. -/
theorem numbersFrom_foldChildren {convert : σ → Prepared → Export σ}
    {cites : σ → List (List Citation)}
    (h : ∀ state i, ∀ child ∈ nodes, (convert state (Prepared.ofNode child)).NumbersAt environment
      (fun last new => cites last = cites state ++ new) (way ++ [i]) child)
    (index : Nat) (state : σ) :
    (foldChildren convert index state (Prepared.ofNodes nodes)).NumbersFrom environment
      (fun last new => cites last = cites state ++ new) way index nodes := by
  induction nodes generalizing index state with
  | nil => exact numbersFrom_nil (List.append_nil _).symm index
  | cons child rest ih =>
      have hchild := fun i => (List.forall_mem_cons.mp (h state i)).1
      have hrest := fun state i => (List.forall_mem_cons.mp (h state i)).2
      rw [Prepared.ofNodes, foldChildren, Prepared.node_ofNode]
      refine numbersFrom_cons (hchild index) (fun next => ih hrest (index + 1) next) ?_
      intro next last new new' hnext hlast
      rw [hlast, hnext, List.append_assoc]

/-- A node is numbered if its children are, where a conversion looks at all of them. -/
theorem NumbersFrom.at {convert : Export α}
    (h : convert.NumbersFrom environment brings way 0 node.content) (known : node.kind? = some kind)
    (inner : kind.descent = .inner) : convert.NumbersAt environment brings way node := by
  refine ⟨h.steady, fun hrun hciting more seen hfresh hcounted => ?_⟩
  rw [Node.piecesAt_of_inner known inner, Node.rows_of_inner known inner]
  exact h.numbered hrun hciting more seen (fun i _ => hfresh.below i) hcounted

theorem numbersAt_unread {x : α} (h : brings x []) (known : node.kind? = some kind)
    (unread : kind.descent = .unread) :
    (pure x : Export α).NumbersAt environment brings way node := by
  refine ⟨steady_pure x, ?_⟩
  rintro before _ _ ⟨⟩ hciting more seen - hcounted
  rw [Node.piecesAt_of_unread known unread, Node.rows_of_unread known unread]
  exact ⟨[], h, .nil hciting hcounted⟩

end Export

/-! ## Documents whose citations are numbered -/

namespace Node

/-- There are no metadata, figures and tables in the tree, every citation in it cites something,
and only texts are under marks that make text a leaf of its own. -/
structure Plain (root : Node) : Prop where
  kinds : ∀ way node, root.Reaches way node →
    node.kind? ≠ some .metadata ∧ node.kind? ≠ some .figure ∧ node.kind? ≠ some .table
  cites : ∀ way node, root.Reaches way node → ∀ mark ∈ node.marks, mark.CitesIfCitation
  clear : ∀ way node, root.Reaches way node →
    node.kind? = some .image ∨ node.kind? = some .rawInline →
      ∀ mark ∈ node.marks, mark.isOpaque = false

/-- What holds of the node alone and of the trees below it holds of the whole tree. -/
theorem Plain.of_content {node : Node} {kind : NodeKind} (known : node.kind? = some kind)
    (kinds : kind ≠ .metadata ∧ kind ≠ .figure ∧ kind ≠ .table)
    (cites : ∀ mark ∈ node.marks, mark.CitesIfCitation)
    (clear : kind = .image ∨ kind = .rawInline → ∀ mark ∈ node.marks, mark.isOpaque = false)
    (children : ∀ child ∈ node.content, child.Plain) : node.Plain := by
  refine ⟨fun way below h => ?_, fun way below h => ?_, fun way below h => ?_⟩
  · cases h with
    | here =>
        rw [known]
        simpa only [ne_eq, Option.some.injEq] using kinds
    | child hindex h => exact (children _ (List.mem_of_getElem? hindex)).kinds _ _ h
  · cases h with
    | here => exact cites
    | child hindex h => exact (children _ (List.mem_of_getElem? hindex)).cites _ _ h
  · cases h with
    | here =>
        rw [known]
        simpa only [Option.some.injEq] using clear
    | child hindex h => exact (children _ (List.mem_of_getElem? hindex)).clear _ _ h

theorem Plain.child {node child : Node} (h : node.Plain) (hmem : child ∈ node.content) :
    child.Plain := by
  obtain ⟨index, hindex⟩ := List.getElem?_of_mem hmem
  have hreaches {way : List (Nat × String)} {below : Node} (h : child.Reaches way below) :
      node.Reaches ((index, child.type) :: way) below := .child hindex h
  exact ⟨fun _ _ h' => h.kinds _ _ (hreaches h'), fun _ _ h' => h.cites _ _ (hreaches h'),
    fun _ _ h' => h.clear _ _ (hreaches h')⟩

/-- The conversion of a node to a block numbers its citations, and so do those of all nodes below
it. -/
inductive Tallied (environment : Environment) : Node → Prop where
  | intro {node : Node}
      (block : ∀ way, (Prepared.ofNode node).block.NumbersAt environment (Block.cites · = ·)
        way node)
      (children : ∀ child ∈ node.content, Tallied environment child) : Tallied environment node

variable {environment : Environment} {node : Node}

theorem Tallied.block (h : node.Tallied environment) (way : List Nat) :
    (Prepared.ofNode node).block.NumbersAt environment (Block.cites · = ·) way node := by
  cases h with | intro block _ => exact block way

theorem Tallied.children (h : node.Tallied environment) :
    ∀ child ∈ node.content, child.Tallied environment := by
  cases h with | intro _ children => exact children

end Node

namespace Export

variable {environment : Environment} {way : List Nat} {node child : Node} {kind : NodeKind}
  {nodes : List Node}

theorem numbersFrom_blocks (h : ∀ child ∈ nodes, child.Tallied environment) :
    (blocks (Prepared.ofNodes nodes)).NumbersFrom environment (blocksCites · = ·) way 0 nodes := by
  refine (numbersFrom_eachChildFrom (fun _ child hc => (h child hc).block _) 0).imp ?_
  rintro written _ rfl
  exact blocksCites_eq_flatMap written

theorem numbersAt_inlines (plain : node.Plain)
    (h : ∀ child ∈ node.content, child.Tallied environment) (known : node.kind? = some kind)
    (row : kind.descent = .row) :
    (inlines (Prepared.ofNodes node.content)).NumbersAt environment (inlinesCites · = ·) way
      node := by
  have hrow : (inlinesOf node.content).Numbers environment (Fresh way) (inlinesCites · = ·) _ _ :=
    numbers_inlinesOf
      (fun child hc => (plain.child hc).cites [] child (.here child))
      (fun child hc => (plain.child hc).clear [] child (.here child))
      (fun index child hchild hnote => by
        have hmem := List.mem_of_getElem? hchild
        exact (numbersFrom_blocks ((h child hmem).children)).at hnote rfl)
  refine ⟨hrow.steady, fun hrun hciting more seen hfresh hcounted => ?_⟩
  rw [Node.piecesAt_of_row known row, Node.rows_of_row known row]
  exact hrow.numbered hrun hciting more seen hfresh hcounted

/-! ### Lists -/

theorem numbersAt_listItem (h : child.Tallied environment) (index : Nat) :
    (listItem index (Prepared.ofNode child)).NumbersAt environment (blocksCites · = ·) way
      child := by
  unfold listItem
  rw [Prepared.node_ofNode, Prepared.children_ofNode]
  refine numbers_kindOf fun kind known => ?_
  split
  · exact (numbersFrom_blocks h.children).at known rfl
  · exact numbers_structural _

theorem numbersFrom_listItems (h : ∀ child ∈ nodes, child.Tallied environment) :
    (listItems (Prepared.ofNodes nodes)).NumbersFrom environment (itemsCites · = ·) way 0
      nodes := by
  refine (numbersFrom_eachChildFrom (fun i child hc => numbersAt_listItem (h child hc) i) 0).imp ?_
  rintro items _ rfl
  exact itemsCites_eq_flatMap items

/-- A term or a definition adds its citations to those of the items so far. -/
theorem numbersAt_definitionPart (plain : child.Plain) (h : child.Tallied environment)
    (items : List Definition) :
    (definitionPart items (Prepared.ofNode child)).NumbersAt environment
      (fun last new => definitionsCites last.reverse = definitionsCites items.reverse ++ new)
      way child := by
  have hcons (item : Definition) (rest : List Definition) :
      definitionsCites (item :: rest).reverse = definitionsCites rest.reverse ++ item.cites := by
    simp only [definitionsCites_eq_flatMap, List.reverse_cons, List.flatMap_append,
      List.flatMap_singleton]
  unfold definitionPart
  rw [Prepared.node_ofNode, Prepared.children_ofNode]
  refine numbers_kindOf fun kind known => ?_
  split
  · split
    · exact numbers_structural _
    · refine (numbersAt_inlines plain h.children known rfl).finish (fun _ => steady_pure _) ?_
      rintro term _ between _ ⟨⟩
      refine ⟨rfl, ?_⟩
      rintro _ rfl
      rw [hcons, Definition.cites, itemsCites, List.append_nil]
  · split
    · exact numbers_structural _
    · next term definitions rest =>
      refine ((numbersFrom_blocks h.children).at known rfl).finish (fun _ => steady_pure _) ?_
      rintro content _ between _ ⟨⟩
      refine ⟨rfl, ?_⟩
      rintro _ rfl
      rw [hcons, hcons, Definition.cites, Definition.cites, itemsCites_eq_flatMap,
        itemsCites_eq_flatMap, List.flatMap_append, List.flatMap_singleton, List.append_assoc,
        List.append_assoc]
  · exact numbers_structural _

theorem numbersFrom_definitionList (plain : ∀ child ∈ nodes, child.Plain)
    (h : ∀ child ∈ nodes, child.Tallied environment) :
    (definitionList (Prepared.ofNodes nodes)).NumbersFrom environment (Block.cites · = ·) way 0
      nodes := by
  have hfold : (foldChildren definitionPart 0 [] (Prepared.ofNodes nodes)).NumbersFrom environment
      (fun items new => definitionsCites items.reverse = definitionsCites [].reverse ++ new) way 0
      nodes :=
    numbersFrom_foldChildren (fun items i child hc =>
      numbersAt_definitionPart (plain child hc) (h child hc) items) 0 []
  refine hfold.finish (fun items => ?_) (fun items block between last hrun => ?_)
  · split
    · exact steady_structural _
    · exact steady_pure _
  · split at hrun
    · cases hrun
    · cases hrun
      refine ⟨rfl, fun new hnew => ?_⟩
      rw [Block.cites, hnew]
      rfl

/-! ### Blocks -/

theorem numbersAt_blockOf (plain : node.Plain)
    (h : ∀ child ∈ node.content, child.Tallied environment) (way : List Nat) :
    (blockOf node (Prepared.ofNodes node.content)).NumbersAt environment (Block.cites · = ·) way
      node := by
  have hkinds := plain.kinds [] node (.here node)
  have hcites {α : Type} {cites : α → List (List Citation)} {f : α → Block}
      (heq : ∀ x, (f x).cites = cites x) (x : α) (new : List (List Citation))
      (hx : cites x = new) : (f x).cites = new := (heq x).trans hx
  refine numbers_kindOf fun kind known => ?_
  split
  · exact (numbersAt_inlines plain h known rfl).map _ (hcites fun _ => rfl)
  · exact (numbersAt_inlines plain h known rfl).map _ (hcites fun _ => rfl)
  · exact ((numbersFrom_listItems h).at known rfl).map _ (hcites fun _ => rfl)
  · exact ((numbersFrom_listItems h).at known rfl).map _ (hcites fun _ => rfl)
  · exact (numbersFrom_definitionList (fun _ hc => plain.child hc) h).at known rfl
  · exact ((numbersFrom_blocks h).at known rfl).map _ (hcites fun _ => rfl)
  · exact numbersAt_unread rfl known rfl
  · exact numbersAt_unread rfl known rfl
  · exact ((numbersFrom_blocks h).at known rfl).map _ (hcites fun _ => rfl)
  · exact ((numbersFrom_blocks h).at known rfl).map _ (hcites fun _ => rfl)
  · exact ((numbersFrom_blocks h).at known rfl).map _ (hcites fun _ => rfl)
  · exact absurd known hkinds.2.1
  · exact numbersAt_unread rfl known rfl
  · exact absurd known hkinds.2.2
  · refine numbersAt_unread ?_ known rfl
    -- an image holds nothing but its alternative text
    rw [Block.cites, inlinesCites_singleton]
    exact inlinesCites_ofText _
  · exact numbers_structural _

end Export

namespace Node

variable {environment : Environment}

mutual

theorem tallied : ∀ node : Node, node.Plain → node.Tallied environment
  | ⟨type, attrs, content, marks, text⟩ => by
      intro plain
      have hchildren := talliedIn content fun child hc => plain.child hc
      refine .intro (fun way => ?_) hchildren
      rw [Prepared.ofNode]
      exact Export.numbersAt_blockOf plain hchildren way

theorem talliedIn : ∀ nodes : List Node, (∀ node ∈ nodes, node.Plain) →
    ∀ node ∈ nodes, node.Tallied environment
  | [], _ => nofun
  | node :: rest, plain => by
      obtain ⟨hnode, hrest⟩ := List.forall_mem_cons.mp plain
      exact List.forall_mem_cons.mpr ⟨tallied node hnode, talliedIn rest hrest⟩

end

end Node

/-! ### Documents -/

/-- What is cited in a part of a document, metadata apart. -/
def Export.DocumentPart.cites : Export.DocumentPart → List (List Citation)
  | .metadata _ => []
  | .block content => content.cites

namespace Export

variable {environment : Environment}

theorem blocksCites_filterMap (parts : List DocumentPart) :
    blocksCites (parts.filterMap DocumentPart.block?) = parts.flatMap DocumentPart.cites := by
  induction parts with
  | nil => rfl
  | cons part rest ih =>
      cases part with
      | metadata entries => exact ih
      | block content => exact congrArg (content.cites ++ ·) ih

theorem numbersAt_documentPart {child : Node} {way : List Nat} (plain : child.Plain)
    (index : Nat) :
    (documentPart index (Prepared.ofNode child)).NumbersAt environment (DocumentPart.cites · = ·)
      way child := by
  unfold documentPart
  rw [Prepared.node_ofNode]
  refine numbers_kindOf fun kind known => ?_
  split
  · exact absurd known (plain.kinds [] child (.here child)).1
  · exact ((child.tallied plain).block way).map _ fun _ _ => id

theorem numbersAt_documentOf {root : Node} (plain : root.Plain) :
    (documentOf root).NumbersAt environment (fun document cites =>
      blocksCites document.blocks = cites) [] root := by
  refine numbers_kindOf fun kind known => ?_
  split
  · refine NumbersFrom.at (Numbers.finish (numbersFrom_eachChildFrom
      (fun i child hc => numbersAt_documentPart (plain.child hc) i) 0)
      (fun _ => steady_read.bind fun _ => steady_pure _) ?_) known rfl
    rintro parts _ between _ ⟨⟩
    refine ⟨rfl, ?_⟩
    rintro _ rfl
    exact blocksCites_filterMap parts
  · exact numbers_structural _

end Export

/-! ## What the numbers are -/

/-- All that is cited in one place has the number of the range. -/
def NumberedBy (number : RangeKey → Int) (citations : List Citation) (piece : RangeKey) : Prop :=
  citations ≠ [] ∧ ∀ citation ∈ citations, citation.noteNumber = number piece

theorem grow_noteNumbers {number : RangeKey → Int} {cites : List (List Citation)}
    {pieces : List RangeKey} (h : List.Forall₂ (NumberedBy number) cites pieces)
    (seen : List Int) :
    grow seen (cites.flatten.map Citation.noteNumber) = grow seen (pieces.map number) := by
  induction h generalizing seen with
  | nil => rfl
  | @cons citations piece cites pieces hfirst _ ih =>
      obtain ⟨hne, hnumber⟩ := hfirst
      have hsame : grow seen (citations.map Citation.noteNumber) = grow seen [number piece] :=
        grow_of_forall_eq (mt List.map_eq_nil_iff.mp hne) (List.forall_mem_map.mpr hnumber)
      rw [List.flatten_cons, List.map_append, grow_append, hsame, ih, ← grow_append,
        List.map_cons, List.singleton_append]

theorem map_idxOf_eq_range {order : List RangeKey} (h : order.Nodup) :
    order.map (order.idxOf ·) = List.range order.length := by
  refine List.ext_getElem (by simp) fun i hi _ => ?_
  rw [List.getElem_map, List.getElem_range, h.idxOf_getElem]

/-- Places among what came up are numbers that go from one on, without gaps and repetitions. -/
theorem Numbered.exists_number {after : Progress} {cites : List (List Citation)}
    {pieces ranges : List RangeKey} (h : Numbered [] after cites pieces ranges)
    (hnodup : ranges.Nodup) :
    ∃ number : RangeKey → Int, List.Forall₂ (NumberedBy number) cites pieces ∧
      (∀ a ∈ pieces, ∀ b ∈ pieces, number a = number b ↔ a = b) ∧
      (cites.flatten.map Citation.noteNumber).eraseDups =
        (List.range ranges.length).map (fun n : Nat => (n : Int) + 1) ∧
      after.citations = ranges.length := by
  have horder : (grow [] pieces).Nodup := nodup_grow .nil
  have hmem {key : RangeKey} : key ∈ grow [] pieces ↔ key ∈ pieces := by
    rw [mem_grow]
    exact or_iff_right nofun
  have hlength : (grow [] pieces).length = ranges.length :=
    ((List.perm_ext_iff_of_nodup horder hnodup).mpr fun key =>
      hmem.trans (h.complete key)).length_eq
  let number (key : RangeKey) : Int := ((grow [] pieces).idxOf key : Int) + 1
  have hlabelled : List.Forall₂ (NumberedBy number) cites pieces :=
    h.labelled.imp fun _ _ hl => ⟨hl.nonempty, hl.number⟩
  have hinjective : ∀ a ∈ pieces, ∀ b ∈ pieces, number a = number b ↔ a = b := by
    intro a ha b _
    have hplaces := @List.idxOf_inj _ _ _ _ a b (hmem.mpr ha)
    rw [← hplaces]
    simp only [number]
    omega
  refine ⟨number, hlabelled, hinjective, ?_, by rw [← h.counted, hlength]⟩
  calc (cites.flatten.map Citation.noteNumber).eraseDups
      = grow [] (pieces.map number) := by
        rw [← grow_nil_eq_eraseDups, grow_noteNumbers hlabelled]
    _ = (grow [] pieces).map number := by
        have hmap : ∀ a ∈ pieces, ∀ b, b ∈ [] ∨ b ∈ pieces → number a = number b → a = b :=
          fun a ha b hb heq => (hinjective a ha b (hb.resolve_left nofun)).mp heq
        exact grow_map hmap
    _ = (List.range ranges.length).map (fun n : Nat => (n : Int) + 1) := by
        rw [← hlength, ← map_idxOf_eq_range horder, List.map_map]
        rfl

namespace Node

/-- **Citations are numbered as they come up.** Reading the blocks of a document from front to back,
the places that cite something are the pieces of the citation ranges, one after the other. What a
place cites has one number, and two places have the same number just when they are pieces of the
same range. Each where they come up first, the numbers are those from one to the number of ranges,
and so many citations have been counted in the end. -/
theorem exists_number_of_documentOf (environment : Environment) (root : Node) (plain : root.Plain)
    {document : Pandoc.Document} {after : Progress}
    (h : (Export.documentOf root).runFrom environment {} = (.ok document, after)) :
    (root.citationRanges environment after.registry).Nodup ∧
    (∀ key, key ∈ root.citationPieces environment after.registry ↔
      key ∈ root.citationRanges environment after.registry) ∧
    ∃ number : RangeKey → Int,
      List.Forall₂ (NumberedBy number) (blocksCites document.blocks)
        (root.citationPieces environment after.registry) ∧
      (∀ a ∈ root.citationPieces environment after.registry,
        ∀ b ∈ root.citationPieces environment after.registry, number a = number b ↔ a = b) ∧
      ((blocksCites document.blocks).flatten.map Citation.noteNumber).eraseDups =
        (List.range (root.citationRanges environment after.registry).length).map
          (fun n : Nat => (n : Int) + 1) ∧
      after.citations = (root.citationRanges environment after.registry).length := by
  obtain ⟨cites, rfl, hnumbered⟩ := (Export.numbersAt_documentOf plain).numbered h
    Registry.citing_empty [] [] nofun rfl
  have hnodup := root.nodup_citationRanges environment after.registry
  exact ⟨hnodup, hnumbered.complete, hnumbered.exists_number hnodup⟩

/-- A citation that a span cuts in two, a footnote with one under the span, and one behind it. -/
theorem exists_number_of_documentOf_cut :
    let cite : Mark := ⟨"citation", [("references", .arr [.obj [("id", .str "x")]])]⟩
    let anchor : Mark := ⟨"span", [("id", .str "s")]⟩
    let text (marks : List Mark) : Node := { type := "text", text := some "a", marks }
    let paragraph (content : List Node) : Node := { type := "paragraph", content }
    let note : Node := { type := "note", content := [paragraph [text [cite]]] }
    let root : Node :=
      { type := "doc"
        content := [paragraph
          [text [cite], text [cite, anchor], note, text [anchor], text [cite]]] }
    root.Plain ∧ ∃ document after,
      (Export.documentOf root).runFrom {} {} = (.ok document, after) ∧
      (blocksCites document.blocks).flatten.map Citation.noteNumber = [1, 1, 2, 3] ∧
      after.citations = 3 ∧
      root.citationPieces {} after.registry =
        [⟨[0], 0⟩, ⟨[0], 0⟩, ⟨[0, 2, 0], 0⟩, ⟨[0], 2⟩] ∧
      ∃ number : RangeKey → Int,
        List.Forall₂ (NumberedBy number) (blocksCites document.blocks)
          (root.citationPieces {} after.registry) := by
  intro cite anchor text paragraph note root
  have hcite : cite.CitesIfCitation := fun _ =>
    ⟨_, _, "x", rfl, List.mem_singleton_self _, by rfl⟩
  have hanchor : anchor.CitesIfCitation := by
    intro hkind
    cases hkind
  have htext (marks : List Mark) (h : ∀ mark ∈ marks, mark.CitesIfCitation) : (text marks).Plain :=
    .of_content (show (text marks).kind? = some .text by rfl) (by decide) h nofun nofun
  have hparagraph (content : List Node) (h : ∀ child ∈ content, child.Plain) :
      (paragraph content).Plain :=
    .of_content (show (paragraph content).kind? = some .paragraph by rfl) (by decide) nofun nofun h
  have hplain : root.Plain := by
    have honce := htext [cite] (List.forall_mem_singleton.mpr hcite)
    have hunder := htext [anchor] (List.forall_mem_singleton.mpr hanchor)
    have hboth := htext [cite, anchor]
      (List.forall_mem_cons.mpr ⟨hcite, List.forall_mem_singleton.mpr hanchor⟩)
    have hnote : note.Plain :=
      .of_content (show _ = some .note by rfl) (by decide) nofun nofun
        (List.forall_mem_singleton.mpr (hparagraph _ (List.forall_mem_singleton.mpr honce)))
    refine .of_content (show _ = some .doc by rfl) (by decide) nofun nofun ?_
    refine List.forall_mem_singleton.mpr (hparagraph _ ?_)
    simp only [List.forall_mem_cons]
    exact ⟨honce, hboth, hnote, hunder, honce, nofun⟩
  have hnumbers : ((Export.documentOf root).runFrom {} {}).1.map (fun document =>
      (blocksCites document.blocks).flatten.map Citation.noteNumber) = .ok [1, 1, 2, 3] := by cbv
  have hcount : ((Export.documentOf root).runFrom {} {}).2.citations = 3 := by cbv
  have hpieces : root.citationPieces {} ((Export.documentOf root).runFrom {} {}).2.registry =
      [⟨[0], 0⟩, ⟨[0], 0⟩, ⟨[0, 2, 0], 0⟩, ⟨[0], 2⟩] := by cbv
  rcases hrun : (Export.documentOf root).runFrom {} {} with ⟨error | document, after⟩
  · rw [hrun] at hnumbers
    cases hnumbers
  · rw [hrun] at hnumbers hcount hpieces
    obtain ⟨-, -, number, hnumber, -⟩ := exists_number_of_documentOf {} root hplain hrun
    exact ⟨hplain, document, after, rfl, Except.ok.inj hnumbers, hcount, hpieces, number, hnumber⟩

end Node

end RichDoc
