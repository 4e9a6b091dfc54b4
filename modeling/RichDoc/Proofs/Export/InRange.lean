import RichDoc.Proofs.Export.Checked
import RichDoc.Proofs.Table.Indexed

/-!
# Every access of an export is in range

Only rows of inlines and tables are converted with accesses that could be
out of range; all other conversions are put together from these two and
make none of their own. Here the whole export is put together once more
from the two with their accesses checked, with a `fault` of one's choice
in the place of an access that is out of range, and it is the export that
it was (`Checked.toDocument_eq`).

Whatever the fault is, so it never comes: with a fault that fails or
leaves its own progress behind, an export that met it would be a
different one.
-/

namespace RichDoc

open Pandoc (Block Caption ColSpec Definition Document MetaValue)

namespace Export

variable {α σ : Type}

/-! ## The same conversion for every child -/

theorem eachChild_congr {convert other : Nat → Prepared → Export α} {children : List Prepared}
    (h : ∀ child ∈ children, ∀ index, convert index child = other index child) :
    eachChild convert children = eachChild other children := by
  have hfrom (index : Nat) :
      eachChildFrom convert index children = eachChildFrom other index children := by
    induction children generalizing index with
    | nil => rfl
    | cons child rest ih =>
        obtain ⟨hchild, hrest⟩ := List.forall_mem_cons.mp h
        rw [eachChildFrom, eachChildFrom, hchild index, ih hrest]
  exact hfrom 0

theorem foldChildren_congr {convert other : σ → Prepared → Export σ} {children : List Prepared}
    (h : ∀ child ∈ children, ∀ state, convert state child = other state child) (index : Nat)
    (state : σ) :
    foldChildren convert index state children = foldChildren other index state children := by
  induction children generalizing index state with
  | nil => rfl
  | cons child rest ih =>
      obtain ⟨hchild, hrest⟩ := List.forall_mem_cons.mp h
      rw [foldChildren, foldChildren, hchild state]
      exact congrArg _ (funext fun next => ih hrest (index + 1) next)

theorem kindOf_eq_pure {node : Node} {kind : NodeKind} (h : node.kind? = some kind) :
    kindOf node = pure kind := by
  rw [kindOf, h]

/-- A read in range, whatever is to be read from, is no step at all. -/
theorem checked_of_some {fault : ∀ α : Type, Export α}
    {read : Environment → Progress → Option α} {x : α}
    (h : ∀ environment progress, read environment progress = some x) :
    checked fault read = pure x :=
  ext_runFrom fun environment progress => runFrom_checked (h environment progress)

end Export

theorem exists_node_of_mem_ofNodes {nodes : List Node} {child : Prepared}
    (h : child ∈ Prepared.ofNodes nodes) : ∃ node, child = Prepared.ofNode node := by
  induction nodes with
  | nil =>
      rw [Prepared.ofNodes] at h
      cases h
  | cons node rest ih =>
      rw [Prepared.ofNodes] at h
      rcases List.mem_cons.mp h with rfl | h
      · exact ⟨node, rfl⟩
      · exact ih h

namespace Checked

open Export (checked)

variable (fault : ∀ α : Type, Export α)

/-! ## Tables -/

def tableSections (attrs : Attributes) (parts : List Export.TablePart) :
    Export Export.TableSections := do
  let bare := parts.filterMap Export.TablePart.bareRow?
  if bare.isEmpty then
    return parts.foldl (Export.TableSections.add (Export.rowHeadColumns attrs)) {}
  else if parts.length ≠ bare.length then
    Export.structural "table rows cannot be mixed with head, body or foot sections"
  else
    checked fault fun _ _ => Export.TableSections.ofRows? (Export.rowHeadColumns attrs)
      (Export.headerRows attrs bare.length) bare

def columnSpecs (attrs : Attributes) (sections : Export.TableSections) :
    Export (List ColSpec) := do
  let alignments ← checked fault fun _ _ => alignmentsBy? Float sections.allRows
  return List.zipWith ColSpec.mk alignments (columnWidths attrs alignments.length)

def table (node : Node) (children : List Prepared) : Export Block := do
  let parts ← Export.eachChild Export.tablePart children
  let sections ← tableSections fault node.attrs parts
  return .table {
    attr := node.attrs.element
    caption := Export.tableCaption node.attrs
    columns := ← columnSpecs fault node.attrs sections
    head := sections.head
    bodies := sections.bodies
    foot := sections.foot }

theorem tableSections_eq : tableSections fault = Export.tableSections := by
  funext attrs parts
  unfold tableSections Export.tableSections
  dsimp only
  split
  · rfl
  · split
    · rfl
    · exact Export.checked_of_some fun _ _ =>
        Export.TableSections.ofRows?_eq_some (Export.headerRows_le ..) _

theorem columnSpecs_eq (attrs : Attributes) (sections : Export.TableSections) :
    columnSpecs fault attrs sections = pure (Export.columnSpecs attrs sections) := by
  rw [columnSpecs, Export.checked_of_some fun _ _ => alignmentsBy?_eq_some Float _]
  rfl

theorem table_eq : table fault = Export.table := by
  funext node children
  simp only [table, tableSections_eq, columnSpecs_eq, pure_bind]
  rfl

/-! ## Blocks and values -/

def definitionPart (items : List Definition) (child : Prepared) : Export (List Definition) := do
  match child.node.kind? with
  | some .definitionTerm => match items with
    | ⟨_, []⟩ :: _ => Export.structural "definition term is not followed by a definition"
    | _ => return ⟨← inlines fault child.children, []⟩ :: items
  | _ => Export.definitionPart items child

def definitionList (children : List Prepared) : Export Block := do
  match ← Export.foldChildren (definitionPart fault) 0 [] children with
  | ⟨_, []⟩ :: _ => Export.structural "last definition term has no definition"
  | items => return .definitionList items.reverse

def figurePart (index : Nat) (child : Prepared) : Export Export.FigurePart :=
  match child.node.kind? with
  | some .figureCaption => .caption <$> inlines fault child.children
  | _ => Export.figurePart index child

def figure (node : Node) (children : List Prepared) : Export Block := do
  let parts ← Export.eachChild (figurePart fault) children
  let caption := match (parts.filterMap Export.FigurePart.caption?).getLast? with
    | some content => Caption.ofInlines content
    | none => .empty
  return .figure node.attrs.element caption (parts.filterMap Export.FigurePart.content?)

/-- A node as a block. The types that are not listed convert by their children alone. -/
def blockOf (node : Node) (children : List Prepared) : Export Block :=
  match node.kind? with
  | some .paragraph => .para <$> inlines fault children
  | some .heading => .header node.headingLevel node.attrs.element <$> inlines fault children
  | some .definitionList => definitionList fault children
  | some .figure => figure fault node children
  | some .table => table fault node children
  | _ => Export.blockOf node children

def metaValueOf (node : Node) (children : List Prepared) : Export MetaValue :=
  match node.kind? with
  | some .metaInlines => .inlines <$> inlines fault children
  | _ => Export.metaValueOf node children

section

variable {nodes : List Node} {child : Prepared}

theorem inlines_children (h : child ∈ Prepared.ofNodes nodes) :
    inlines fault child.children = Export.inlines child.children := by
  obtain ⟨node, rfl⟩ := exists_node_of_mem_ofNodes h
  rw [Prepared.children_ofNode, inlines_eq]

theorem definitionPart_eq (h : child ∈ Prepared.ofNodes nodes) (items : List Definition) :
    definitionPart fault items child = Export.definitionPart items child := by
  unfold definitionPart
  split
  · next hkind =>
    unfold Export.definitionPart
    rw [Export.kindOf_eq_pure hkind, inlines_children fault h]
    rfl
  · rfl

theorem figurePart_eq (h : child ∈ Prepared.ofNodes nodes) (index : Nat) :
    figurePart fault index child = Export.figurePart index child := by
  unfold figurePart
  split
  · next hkind =>
    rw [Export.figurePart, Export.kindOf_eq_pure hkind, inlines_children fault h]
    rfl
  · rfl

theorem definitionList_eq : definitionList fault (Prepared.ofNodes nodes) =
    Export.definitionList (Prepared.ofNodes nodes) := by
  rw [definitionList, Export.foldChildren_congr fun child hc => definitionPart_eq fault hc]
  rfl

theorem figure_eq (node : Node) : figure fault node (Prepared.ofNodes nodes) =
    Export.figure node (Prepared.ofNodes nodes) := by
  rw [figure, Export.eachChild_congr fun child hc => figurePart_eq fault hc]
  rfl

theorem blockOf_eq (node : Node) :
    blockOf fault node (Prepared.ofNodes nodes) = Export.blockOf node (Prepared.ofNodes nodes) := by
  unfold blockOf
  split
  · next hkind => rw [Export.blockOf, Export.kindOf_eq_pure hkind, inlines_eq]; rfl
  · next hkind => rw [Export.blockOf, Export.kindOf_eq_pure hkind, inlines_eq]; rfl
  · next hkind => rw [Export.blockOf, Export.kindOf_eq_pure hkind, definitionList_eq]; rfl
  · next hkind => rw [Export.blockOf, Export.kindOf_eq_pure hkind, figure_eq]; rfl
  · next hkind => rw [Export.blockOf, Export.kindOf_eq_pure hkind, table_eq]; rfl
  · rfl

theorem metaValueOf_eq (node : Node) :
    metaValueOf fault node (Prepared.ofNodes nodes) =
      Export.metaValueOf node (Prepared.ofNodes nodes) := by
  unfold metaValueOf
  split
  · next hkind =>
    rw [Export.metaValueOf, Export.kindOf_eq_pure hkind, inlines_eq]
    rfl
  · rfl

end

/-! ## Documents -/

mutual

def ofNode : Node → Prepared
  | ⟨type, attrs, content, marks, text⟩ =>
    let node : Node := ⟨type, attrs, content, marks, text⟩
    let children := ofNodes content
    { node, block := blockOf fault node children, metaValue := metaValueOf fault node children,
      children }

def ofNodes : List Node → List Prepared
  | [] => []
  | node :: rest => ofNode node :: ofNodes rest

end

def documentOf (root : Node) : Export Document := do
  match ← Export.kindOf root with
  | .doc =>
    let parts ← Export.eachChild Export.documentPart (ofNodes fault root.content)
    return {
      apiVersion := (← read).settings.apiVersion
      metadata := Export.metadataOf parts
      blocks := parts.filterMap Export.DocumentPart.block? }
  | other =>
    Export.structural ("document root must be 'doc', found '" ++ other.name ++ "'")

/-- The document below a root node, with every access checked. -/
def toDocument (environment : Environment) (root : Node) : Except ExportError Document :=
  (documentOf fault root).run environment

mutual

theorem ofNode_eq : ∀ node : Node, ofNode fault node = Prepared.ofNode node
  | ⟨type, attrs, content, marks, text⟩ => by
      rw [ofNode, Prepared.ofNode, ofNodes_eq content, blockOf_eq, metaValueOf_eq]

theorem ofNodes_eq : ∀ nodes : List Node, ofNodes fault nodes = Prepared.ofNodes nodes
  | [] => by rw [ofNodes, Prepared.ofNodes]
  | node :: rest => by rw [ofNodes, Prepared.ofNodes, ofNode_eq node, ofNodes_eq rest]

end

theorem documentOf_eq (root : Node) : documentOf fault root = Export.documentOf root := by
  rw [documentOf, ofNodes_eq]
  rfl

/-- **No access is out of range.** The document below a root node, with every access checked and
any fault in the place of one that is out of range, is the document without the checks, in every
environment. So whatever the settings, the priority of marks and the nodes are,

- the entries of the registry are only looked up for marks that are registered,
- a sweep has only places of pieces on its stack, and queues, opens and cuts no range so that it
  ends before it starts,
- votes are only cast in columns that both lists of the grid reach,
- no more rows are split off for the head of a table than there are, and
- the root is below every inline that is put on the stack and every container that is closed.

No law is asked of the order of marks, and no limit on the citations. -/
theorem toDocument_eq (environment : Environment) (root : Node) :
    toDocument fault environment root = root.toDocument environment := by
  rw [toDocument, documentOf_eq]
  rfl

end Checked

end RichDoc
