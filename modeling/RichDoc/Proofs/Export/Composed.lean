import Mathlib.Data.List.Basic
import RichDoc.Export.Document

/-!
# What conversions are composed of

All converters are put together in the same way from the same few steps.
So a property that holds of the steps, and is kept where conversions are
put one behind the other or made for a child (`Export.Closed`), holds of
every converter, and from the leaves up of the conversions of every node
(`Export.Closed.each_ofNode`).

The one place where it does not follow from the parts alone is a
footnote. Its conversion is not run where it is found but handed on in a
chunk, so collecting has to yield chunks with the property
(`Export.Yields`).
-/

namespace RichDoc

namespace Export

variable {α β σ : Type} {environment : Environment} {progress progress' : Progress}

/-! ## Runs of composed conversions -/

theorem runFrom_bind_ok {convert : Export α} {next : α → Export β} {x : α}
    (h : convert.runFrom environment progress = (.ok x, progress')) :
    (convert >>= next).runFrom environment progress = (next x).runFrom environment progress' := by
  unfold runFrom at *
  rw [ReaderT.run_bind, ExceptT.run_bind, StateT.run_bind, h]
  rfl

theorem runFrom_bind_error {convert : Export α} {next : α → Export β} {error : ExportError}
    (h : convert.runFrom environment progress = (.error error, progress')) :
    (convert >>= next).runFrom environment progress = (.error error, progress') := by
  unfold runFrom at *
  rw [ReaderT.run_bind, ExceptT.run_bind, StateT.run_bind, h]
  rfl

/-- A composed conversion that gives a result went through both its parts. -/
theorem runFrom_bind_eq_ok {convert : Export α} {next : α → Export β} {y : β}
    (h : (convert >>= next).runFrom environment progress = (.ok y, progress')) :
    ∃ x between, convert.runFrom environment progress = (.ok x, between) ∧
      (next x).runFrom environment between = (.ok y, progress') := by
  rcases hc : convert.runFrom environment progress with ⟨error | x, between⟩
  · rw [runFrom_bind_error hc] at h
    cases h
  · exact ⟨x, between, rfl, by rw [← h, runFrom_bind_ok hc]⟩

theorem runFrom_map (f : α → β) (convert : Export α) :
    (f <$> convert).runFrom environment progress =
      ((convert.runFrom environment progress).1.map f,
        (convert.runFrom environment progress).2) := by
  rw [map_eq_pure_bind]
  rcases hrun : convert.runFrom environment progress with ⟨error | x, after⟩
  · rw [runFrom_bind_error hrun]
    rfl
  · rw [runFrom_bind_ok hrun]
    rfl

theorem runFrom_descend (index : Nat) (type : String) (convert : Export α) :
    (descend index type convert).runFrom environment progress =
      ((convert.runFrom environment (enter index type progress)).1,
        leave (convert.runFrom environment (enter index type progress)).2) := rfl

theorem runFrom_descend_ok {index : Nat} {type : String} {convert : Export α} {x : α}
    (h : convert.runFrom environment (enter index type progress) = (.ok x, progress')) :
    (descend index type convert).runFrom environment progress = (.ok x, leave progress') := by
  rw [runFrom_descend, h]

/-- A child that was converted was converted with itself on the path. -/
theorem runFrom_descend_eq_ok {index : Nat} {type : String} {convert : Export α} {x : α}
    (h : (descend index type convert).runFrom environment progress = (.ok x, progress')) :
    ∃ inner, convert.runFrom environment (enter index type progress) = (.ok x, inner) ∧
      progress' = leave inner := by
  rw [runFrom_descend] at h
  obtain ⟨hresult, rfl⟩ := Prod.mk.inj h
  exact ⟨_, Prod.ext hresult rfl, rfl⟩

theorem map_descend (f : α → β) (index : Nat) (type : String) (convert : Export α) :
    f <$> descend index type convert = descend index type (f <$> convert) := by
  funext environment progress
  have hruns : (f <$> descend index type convert).runFrom environment progress =
      (descend index type (f <$> convert)).runFrom environment progress := by
    rw [runFrom_map, runFrom_descend, runFrom_descend, runFrom_map]
  exact hruns

/-! ## Results -/

/-- Every result of the conversion is of a certain kind. -/
def Yields (convert : Export α) (P : α → Prop) : Prop :=
  ∀ environment progress x progress',
    convert.runFrom environment progress = (.ok x, progress') → P x

theorem Yields.bind {convert : Export α} {next : α → Export β} {P : α → Prop} {Q : β → Prop}
    (h : convert.Yields P) (hn : ∀ x, P x → (next x).Yields Q) : (convert >>= next).Yields Q := by
  intro environment progress y progress' hrun
  obtain ⟨x, between, hc, hx⟩ := runFrom_bind_eq_ok hrun
  exact hn x (h _ _ _ _ hc) _ _ _ _ hx

theorem yields_pure {P : α → Prop} {x : α} (h : P x) : (pure x : Export α).Yields P := by
  rintro _ _ _ _ ⟨⟩
  exact h

theorem yields_true (convert : Export α) : convert.Yields fun _ => True := fun _ _ _ _ _ => trivial

theorem Yields.descend {convert : Export α} {P : α → Prop} (h : convert.Yields P) (index : Nat)
    (type : String) : (Export.descend index type convert).Yields P := by
  intro environment progress x progress' hrun
  rw [runFrom_descend] at hrun
  exact h _ _ _ _ (Prod.ext (Prod.mk.inj hrun).1 rfl)

theorem yields_eachChildFrom {convert : Nat → Prepared → Export α} {children : List Prepared}
    {P : α → Prop} (h : ∀ index, ∀ child ∈ children, (convert index child).Yields P)
    (index : Nat) : (eachChildFrom convert index children).Yields fun xs => ∀ x ∈ xs, P x := by
  induction children generalizing index with
  | nil => exact yields_pure (by simp)
  | cons child rest ih =>
      obtain ⟨hchild, hrest⟩ := forall_and.mp fun i => List.forall_mem_cons.mp (h i)
      exact ((hchild index).descend _ _).bind fun _ hx =>
        (ih hrest (index + 1)).bind fun _ hxs =>
          yields_pure (List.forall_mem_cons.mpr ⟨hx, hxs⟩)

end Export

/-! ## Closed properties -/

/-- The environment with another layout of the output. -/
def Environment.withIndent (environment : Environment) (indent : Option Nat) : Environment :=
  { environment with settings := { environment.settings with indent } }

/-- A property of the steps of conversions that is kept by everything that conversions are put
together with. -/
structure Export.Closed (P : ∀ α : Type, Export α → Prop) : Prop where
  pure {α : Type} (x : α) : P _ (Pure.pure x : Export α)
  throw {α : Type} (error : ExportError) : P _ (MonadExcept.throw error : Export α)
  /-- All of the progress may be read but the path. -/
  progress {α : Type} {next : Progress → Export α}
    (blind : ∀ progress path, next { progress with path } = next progress)
    (h : ∀ progress, P _ (next progress)) : P _ (get >>= next)
  /-- The path may be read to fail with it. -/
  throwAt {α : Type} (error : String → ExportError) :
    P _ (do MonadExcept.throw (error (← Export.path)) : Export α)
  /-- All of the environment may be read but the layout of the output. -/
  ask {α : Type} (f : Environment → α)
    (blind : ∀ environment indent, f (environment.withIndent indent) = f environment) :
    P _ (do return f (← read))
  indexOf (mark : Mark) : P _ (Export.indexOf mark)
  nextCitation : P _ Export.nextCitation
  /-- The second part need only have the property after results that the first one can have. -/
  bind_of_yields {α β : Type} {convert : Export α} {next : α → Export β} {Q : α → Prop}
    (first : P _ convert) (yields : convert.Yields Q) (second : ∀ x, Q x → P _ (next x)) :
    P _ (convert >>= next)
  descend {α : Type} {convert : Export α} (inner : P _ convert) (index : Nat) (type : String) :
    P _ (Export.descend index type convert)

/-- All conversions that a prepared node holds have the property. -/
inductive Prepared.Each (P : ∀ α : Type, Export α → Prop) : Prepared → Prop where
  | intro {prepared : Prepared} (block : P _ prepared.block) (metaValue : P _ prepared.metaValue)
      (children : ∀ child ∈ prepared.children, Prepared.Each P child) : Prepared.Each P prepared

/-- The footnote of a chunk, if it is one, has a conversion with the property. -/
def Chunk.Each (P : ∀ α : Type, Export α → Prop) : Chunk → Prop
  | .leaf _ => True
  | .note _ content => P _ content

section

variable {P : ∀ α : Type, Export α → Prop} {child : Prepared}

namespace Prepared.Each

theorem block (h : child.Each P) : P _ child.block := by
  cases h with | intro block _ _ => exact block

theorem metaValue (h : child.Each P) : P _ child.metaValue := by
  cases h with | intro _ metaValue _ => exact metaValue

theorem children (h : child.Each P) : ∀ inner ∈ child.children, inner.Each P := by
  cases h with | intro _ _ children => exact children

end Prepared.Each

namespace Export.Closed

section Converters

variable {α β σ : Type} {children : List Prepared} (closed : Closed P)

include closed

theorem bind {convert : Export α} {next : α → Export β} (h : P _ convert)
    (hn : ∀ x, P _ (next x)) : P _ (convert >>= next) :=
  closed.bind_of_yields h (yields_true convert) fun x _ => hn x

theorem map {convert : Export α} (f : α → β) (h : P _ convert) : P _ (f <$> convert) := by
  rw [map_eq_pure_bind]
  exact closed.bind h fun x => closed.pure (f x)

/-- A step that is taken only under a condition, and what comes after it in any case. -/
theorem guarded {c : Prop} [Decidable c] {step : Export α} {next : Export β}
    (h : P _ step) (hn : P _ next) : P _ (if c then step >>= fun _ => next else next) := by
  split
  · exact closed.bind h fun _ => hn
  · exact hn

/-! ## The steps of a conversion -/

theorem structural (message : String) : P _ (structural message : Export α) :=
  closed.throwAt fun path => .structural path message

theorem misplaced (kind : NodeKind) : P _ (misplaced kind : Export α) := closed.structural _

theorem kindOf (node : Node) : P _ (kindOf node) := by
  unfold Export.kindOf
  split
  · exact closed.pure _
  · exact closed.throwAt (.unknownNodeType node.type)

theorem markOrder : P _ markOrder :=
  closed.progress (fun _ _ => rfl) fun progress =>
    closed.ask (fun environment => progress.registry.compare environment.priority) fun _ _ => rfl

/-! ## Children -/

theorem eachChildFrom {convert : Nat → Prepared → Export α}
    (h : ∀ index, ∀ child ∈ children, P _ (convert index child)) (index : Nat) :
    P _ (eachChildFrom convert index children) := by
  induction children generalizing index with
  | nil => exact closed.pure []
  | cons child rest ih =>
      obtain ⟨hchild, hrest⟩ := forall_and.mp fun i => List.forall_mem_cons.mp (h i)
      exact closed.bind (closed.descend (hchild index) _ _) fun _ =>
        closed.bind (ih hrest (index + 1)) fun _ => closed.pure _

theorem eachChild {convert : Nat → Prepared → Export α}
    (h : ∀ index, ∀ child ∈ children, P _ (convert index child)) :
    P _ (eachChild convert children) :=
  closed.eachChildFrom h 0

theorem foldChildren {convert : σ → Prepared → Export σ}
    (h : ∀ state, ∀ child ∈ children, P _ (convert state child)) (index : Nat) (state : σ) :
    P _ (foldChildren convert index state children) := by
  induction children generalizing index state with
  | nil => exact closed.pure state
  | cons child rest ih =>
      obtain ⟨hchild, hrest⟩ := forall_and.mp fun s => List.forall_mem_cons.mp (h s)
      exact closed.bind (closed.descend (hchild state) _ _) fun next => ih hrest (index + 1) next

theorem blocks (h : ∀ child ∈ children, child.Each P) : P _ (blocks children) :=
  closed.eachChild fun _ child hc => (h child hc).block

/-! ## Inlines -/

theorem opaqueLeaf? (text : String) (marks : List Mark) : P _ (opaqueLeaf? text marks) := by
  induction marks with
  | nil => exact closed.pure none
  | cons mark rest ih =>
      refine closed.bind (closed.indexOf mark) ?_
      intro _
      split
      · exact closed.pure _
      · exact ih

theorem mapM_indexOf (marks : List Mark) : P _ (marks.mapM Export.indexOf) := by
  induction marks with
  | nil => exact closed.pure []
  | cons mark rest ih =>
      rw [List.mapM_cons]
      exact closed.bind (closed.indexOf mark) fun _ => closed.bind ih fun _ => closed.pure _

theorem markIndexes (marks : List Mark) : P _ (markIndexes marks) :=
  closed.bind (closed.mapM_indexOf marks) fun _ => closed.pure _

theorem markedLeaf (leaf : Pandoc.Inline) (marks : List Mark) : P _ (markedLeaf leaf marks) :=
  closed.bind (closed.markIndexes marks) fun _ => closed.pure _

theorem contribute (index : Nat) (child : Prepared) : P _ (contribute index child) := by
  refine closed.bind (closed.kindOf _) ?_
  intro kind
  split
  · exact closed.pure _
  · exact closed.pure _
  · exact closed.ask (fun environment =>
      Contribution.breakpoint (.leaf (child.node.indexRef environment.settings))) fun _ _ => rfl
  · exact closed.pure _
  · refine closed.bind (closed.opaqueLeaf? _ _) ?_
    intro leaf
    split
    · exact closed.pure _
    · exact closed.bind (closed.markIndexes _) fun _ => closed.pure _
  · exact closed.markedLeaf _ _
  · exact closed.markedLeaf _ _
  · exact closed.misplaced _

/-- What a child brings to the row has the property if the child has. -/
theorem yields_contribute (h : child.Each P) (index : Nat) :
    (Export.contribute index child).Yields fun contribution =>
      ∀ chunk ∈ contribution.chunks, chunk.Each P := by
  have hleaf (inlines : List Pandoc.Inline) : ∀ chunk ∈ inlines.map Chunk.leaf, chunk.Each P := by
    simp [Chunk.Each]
  have hmarked (leaf : Pandoc.Inline) (marks : List Mark) : (Export.markedLeaf leaf marks).Yields
      fun contribution => ∀ chunk ∈ contribution.chunks, chunk.Each P :=
    (yields_true _).bind fun _ _ => yields_pure (hleaf [leaf])
  refine (yields_true _).bind ?_
  intro kind _
  split
  · exact yields_pure (hleaf [_])
  · exact yields_pure (List.forall_mem_singleton.mpr (closed.blocks h.children))
  · exact (yields_true _).bind fun _ _ => yields_pure (hleaf [_])
  · exact yields_pure (hleaf [_])
  · refine (yields_true _).bind ?_
    intro leaf _
    split
    · exact yields_pure (hleaf [_])
    · exact (yields_true _).bind fun _ _ => yields_pure (hleaf _)
  · exact hmarked _ _
  · exact hmarked _ _
  · intro _ _ _ _ hrun
    cases hrun

theorem collect (children : List Prepared) : P _ (collect children) :=
  closed.bind (closed.eachChild fun index child _ => closed.contribute index child) fun _ =>
    closed.pure _

theorem yields_collect (h : ∀ child ∈ children, child.Each P) :
    (Export.collect children).Yields fun row => ∀ chunk ∈ row.1, chunk.Each P := by
  refine (yields_eachChildFrom
    (fun index child hc => closed.yields_contribute (h child hc) index) 0).bind
    fun contributions hcontributions => yields_pure fun chunk hchunk => ?_
  obtain ⟨contribution, hmem, hin⟩ := List.mem_flatMap.mp hchunk
  exact hcontributions contribution hmem chunk hin

theorem containerOf (mark : Nat) : P _ (containerOf mark) := by
  refine closed.progress (fun _ _ => rfl) ?_
  intro progress
  split
  · exact closed.pure _
  · exact closed.pure _

theorem openFrame (nest : Nest) (numbered : List (Nat × Nat)) (range : MarkRange) :
    P _ (openFrame nest numbered range) := by
  refine closed.bind (closed.containerOf _) ?_
  intro container
  split
  · exact closed.bind (closed.pure _) fun _ => closed.pure _
  · split
    · exact closed.bind closed.nextCitation fun _ =>
        closed.bind (closed.pure _) fun _ => closed.pure _
    · exact closed.bind (closed.pure _) fun _ => closed.pure _

theorem openAt (position : Nat) (nest : Nest) (numbered : List (Nat × Nat))
    (ranges : List MarkRange) : P _ (openAt position nest numbered ranges) := by
  induction ranges generalizing nest numbered with
  | nil => exact closed.pure _
  | cons range rest ih =>
      unfold Export.openAt
      split
      · exact closed.bind (closed.openFrame _ _ _) fun opened => ih opened.1 opened.2
      · exact closed.pure _

theorem emit {chunk : Chunk} (h : chunk.Each P) : P _ (emit chunk) := by
  cases chunk with
  | leaf inline => exact closed.pure inline
  | note index content => exact closed.descend (closed.map _ h) _ _

theorem assembleFrom {chunks : List Chunk} (h : ∀ chunk ∈ chunks, chunk.Each P)
    (position : Nat) (assembly : Assembly) : P _ (assembleFrom position assembly chunks) := by
  induction chunks generalizing position assembly with
  | nil => exact closed.pure assembly
  | cons chunk rest ih =>
      obtain ⟨hchunk, hrest⟩ := List.forall_mem_cons.mp h
      exact closed.bind (closed.openAt _ _ _ _) fun _ =>
        closed.bind (closed.emit hchunk) fun _ => ih hrest (position + 1) _

theorem assemble {chunks : List Chunk} (h : ∀ chunk ∈ chunks, chunk.Each P)
    (ranges : List MarkRange) : P _ (assemble chunks ranges) :=
  closed.bind (closed.assembleFrom h 0 _) fun _ => closed.pure _

theorem untangled (ranges : List MarkRange) : P _ (untangled ranges) := by
  refine closed.bind closed.markOrder ?_
  intro order
  split
  · exact closed.pure _
  · exact closed.throw _

theorem inlines (h : ∀ child ∈ children, child.Each P) : P _ (inlines children) :=
  closed.bind_of_yields (closed.collect children) (closed.yields_collect h) fun _ hchunks =>
    closed.bind (closed.untangled _) fun _ => closed.assemble hchunks _

/-! ## Metadata -/

theorem metaEntry (h : child.Each P) (index : Nat) : P _ (metaEntry index child) := by
  refine closed.bind (closed.kindOf _) ?_
  intro kind
  dsimp only
  refine closed.guarded (closed.structural _) ?_
  split
  · exact closed.structural _
  · next value _ hchildren =>
    have hmem : value ∈ child.children := by
      rw [hchildren]
      exact List.mem_singleton_self _
    exact closed.bind (closed.descend (h.children value hmem).metaValue _ _) fun _ =>
      closed.pure _
  · exact closed.structural _

theorem metadata (h : ∀ child ∈ children, child.Each P) : P _ (metadata children) :=
  closed.bind (closed.eachChild fun index child hc => closed.metaEntry (h child hc) index)
    fun _ => closed.pure _

theorem metaValueOf (node : Node) (h : ∀ child ∈ children, child.Each P) :
    P _ (metaValueOf node children) := by
  refine closed.bind (closed.kindOf _) ?_
  intro kind
  split
  · exact closed.map _ (closed.metadata h)
  · exact closed.map _ (closed.eachChild fun _ item hi => (h item hi).metaValue)
  · exact closed.pure _
  · exact closed.pure _
  · exact closed.map _ (closed.inlines h)
  · exact closed.map _ (closed.blocks h)
  · exact closed.misplaced _

/-! ## Tables -/

theorem span (attrs : Attributes) (key : String) : P _ (span attrs key) := by
  unfold Export.span
  split
  · exact closed.pure _
  · split
    · exact closed.pure _
    · exact closed.structural _

theorem cell (h : child.Each P) (index : Nat) : P _ (cell index child) := by
  have hcell : P _ (do
      let rowSpan ← Export.span child.node.attrs "rowspan"
      let colSpan ← Export.span child.node.attrs "colspan"
      let content ← Export.blocks child.children
      return ⟨child.node.attrs.element, cellAlignment child.node.attrs, rowSpan, colSpan, content⟩ :
      Export Pandoc.Cell) :=
    closed.bind (closed.span _ _) fun _ => closed.bind (closed.span _ _) fun _ =>
      closed.bind (closed.blocks h.children) fun _ => closed.pure _
  refine closed.bind (closed.kindOf _) ?_
  intro kind
  split
  · exact hcell
  · exact hcell
  · exact closed.misplaced _

theorem rowOf (h : child.Each P) : P _ (rowOf child) :=
  closed.bind (closed.eachChild fun index inner hi => closed.cell (h.children inner hi) index)
    fun _ => closed.pure _

theorem row (h : child.Each P) (index : Nat) : P _ (row index child) := by
  refine closed.bind (closed.kindOf _) ?_
  intro kind
  split
  · exact closed.rowOf h
  · exact closed.misplaced _

theorem rows (h : ∀ child ∈ children, child.Each P) : P _ (rows children) :=
  closed.eachChild fun index child hc => closed.row (h child hc) index

theorem tablePart (h : child.Each P) (index : Nat) : P _ (tablePart index child) := by
  refine closed.bind (closed.kindOf _) ?_
  intro kind
  split
  · exact closed.bind (closed.rows h.children) fun _ => closed.pure _
  · exact closed.bind (closed.rows h.children) fun _ => closed.pure _
  · exact closed.bind (closed.rows h.children) fun _ => closed.pure _
  · exact closed.map _ (closed.rowOf h)
  · exact closed.misplaced _

theorem tableSections (attrs : Attributes) (parts : List TablePart) :
    P _ (tableSections attrs parts) := by
  unfold Export.tableSections
  dsimp only
  split
  · exact closed.pure _
  · split
    · exact closed.structural _
    · exact closed.pure _

theorem table (node : Node) (h : ∀ child ∈ children, child.Each P) : P _ (table node children) :=
  closed.bind (closed.eachChild fun index child hc => closed.tablePart (h child hc) index)
    fun _ => closed.bind (closed.tableSections _ _) fun _ => closed.pure _

/-! ## Blocks -/

theorem listItem (h : child.Each P) (index : Nat) : P _ (listItem index child) := by
  refine closed.bind (closed.kindOf _) ?_
  intro kind
  split
  · exact closed.blocks h.children
  · exact closed.structural _

theorem listItems (h : ∀ child ∈ children, child.Each P) : P _ (listItems children) :=
  closed.eachChild fun index child hc => closed.listItem (h child hc) index

theorem definitionPart (h : child.Each P) (items : List Pandoc.Definition) :
    P _ (definitionPart items child) := by
  refine closed.bind (closed.kindOf _) ?_
  intro kind
  split
  · split
    · exact closed.structural _
    · exact closed.bind (closed.inlines h.children) fun _ => closed.pure _
  · split
    · exact closed.structural _
    · exact closed.bind (closed.blocks h.children) fun _ => closed.pure _
  · exact closed.structural _

theorem definitionList (h : ∀ child ∈ children, child.Each P) : P _ (definitionList children) := by
  refine closed.bind (closed.foldChildren
    (fun items child hc => closed.definitionPart (h child hc) items) 0 []) fun items => ?_
  split
  · exact closed.structural _
  · exact closed.pure _

theorem figurePart (h : child.Each P) (index : Nat) : P _ (figurePart index child) := by
  refine closed.bind (closed.kindOf _) ?_
  intro kind
  split
  · exact closed.map _ (closed.inlines h.children)
  · exact closed.map _ h.block

theorem figure (node : Node) (h : ∀ child ∈ children, child.Each P) : P _ (figure node children) :=
  closed.bind (closed.eachChild fun index child hc => closed.figurePart (h child hc) index)
    fun _ => closed.pure _

theorem blockOf (node : Node) (h : ∀ child ∈ children, child.Each P) :
    P _ (blockOf node children) := by
  refine closed.bind (closed.kindOf _) ?_
  intro kind
  split
  · exact closed.map _ (closed.inlines h)
  · exact closed.map _ (closed.inlines h)
  · exact closed.map _ (closed.listItems h)
  · exact closed.map _ (closed.listItems h)
  · exact closed.definitionList h
  · exact closed.map _ (closed.blocks h)
  · exact closed.pure _
  · exact closed.pure _
  · exact closed.map _ (closed.blocks h)
  · exact closed.map _ (closed.blocks h)
  · exact closed.map _ (closed.blocks h)
  · exact closed.figure node h
  · exact closed.pure _
  · exact closed.table node h
  · exact closed.pure _
  · exact closed.misplaced _

end Converters

/-! ## Nodes and documents -/

mutual

/-- The conversions of a node, and of all nodes below it, have the property. -/
theorem each_ofNode (closed : Closed P) : ∀ node : Node, (Prepared.ofNode node).Each P
  | ⟨type, attrs, content, marks, text⟩ => by
      have hchildren := each_ofNodes closed content
      rw [Prepared.ofNode]
      exact .intro (closed.blockOf _ hchildren) (closed.metaValueOf _ hchildren) hchildren

theorem each_ofNodes (closed : Closed P) :
    ∀ nodes : List Node, ∀ child ∈ Prepared.ofNodes nodes, child.Each P
  | [] => by simp [Prepared.ofNodes]
  | node :: rest => by
      rw [Prepared.ofNodes]
      exact List.forall_mem_cons.mpr ⟨each_ofNode closed node, each_ofNodes closed rest⟩

end

theorem documentPart (closed : Closed P) (h : child.Each P) (index : Nat) : P _ (documentPart index child) := by
  refine closed.bind (closed.kindOf _) ?_
  intro kind
  split
  · split
    · exact closed.map _ (closed.metadata h.children)
    · exact closed.structural _
  · exact closed.map _ h.block

theorem documentOf (closed : Closed P) (root : Node) : P _ (documentOf root) := by
  refine closed.bind (closed.kindOf _) ?_
  intro kind
  split
  · refine closed.bind (closed.eachChild fun index child hc =>
      closed.documentPart (closed.each_ofNodes root.content child hc) index) fun parts => ?_
    exact closed.ask (fun environment => (⟨environment.settings.apiVersion, metadataOf parts,
      parts.filterMap DocumentPart.block?⟩ : Pandoc.Document)) fun _ _ => rfl
  · exact closed.structural _

end Export.Closed

end

end RichDoc
