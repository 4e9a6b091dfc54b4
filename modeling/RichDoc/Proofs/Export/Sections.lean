import Mathlib
import RichDoc.Proofs.Export.InTurn
import RichDoc.Proofs.Export.Verdict

/-!
# Rows of tables and parts of figures

The children of a table or a figure are converted one after the other,
each from where the one before it stopped (`InTurn`), and every one of
them gives a group of rows, or a caption or a block. What becomes of the
results is a matter of the slots that the output has. Bodies, and the
content of a figure, are lists and take everything in the order of the
source. The head and the foot of a table and the caption of a figure are
one slot each, so of several children for one slot the last one counts
(`keeps_table_and_figure`), and without such repetitions nothing is lost.
-/

namespace RichDoc

open Pandoc (Block Caption Inline Row Table TableBody)

namespace Export

variable {environment : Environment} {before after : Progress} {node : Node}

/-! ## Rows -/

/-- A row of a table or section, which is numbered among its siblings, converts. -/
def ConvertsRow (environment : Environment) (child : Node × Nat) (before : Progress) (row : Row)
    (after : Progress) : Prop :=
  child.1.kind? = some .tableRow ∧
    (descend child.2 child.1.type (rowOf (.ofNode child.1))).runFrom environment before =
      (.ok row, after)

/-- A child of a table gives a group of rows: itself, or all of its own children. -/
inductive ConvertsRows (environment : Environment) :
    Node × Nat → Progress → List Row → Progress → Prop where
  | bare {child : Node × Nat} {before after : Progress} {row : Row}
      (converts : ConvertsRow environment child before row after) :
      ConvertsRows environment child before [row] after
  | section {node : Node} {index : Nat} {before inner : Progress} {rows : List Row}
      (known : node.kind? ∈ [some .tableHead, some .tableBody, some .tableFoot])
      (converts : InTurn (ConvertsRow environment) (enter index node.type before)
        node.content.zipIdx rows inner) :
      ConvertsRows environment (node, index) before rows (leave inner)

theorem convertsRow_of_row {index : Nat} {row : Row}
    (h : (descend index node.type (Export.row index (.ofNode node))).runFrom environment before =
      (.ok row, after)) : ConvertsRow environment (node, index) before row after := by
  obtain ⟨inner, hinner, rfl⟩ := runFrom_descend_eq_ok h
  obtain ⟨kind, known, hinner⟩ := exists_kind_of_bind_kindOf hinner
  rw [Prepared.node_ofNode] at known
  split at hinner
  · exact ⟨known, runFrom_descend_ok hinner⟩
  · cases hinner

theorem inTurn_of_rows {nodes : List Node} {rows : List Row}
    (h : (Export.rows (Prepared.ofNodes nodes)).runFrom environment before = (.ok rows, after)) :
    InTurn (ConvertsRow environment) before nodes.zipIdx rows after := by
  have hrows := (inTurn_of_eachChildFrom 0 h).map (f := id) fun child s row t hrow =>
    convertsRow_of_row hrow
  rwa [List.map_id] at hrows

namespace TablePart

/-- The rows of the part. -/
def rows : TablePart → List Row
  | .head content | .foot content => content.rows
  | .body _ rows => rows
  | .bareRow row => [row]

/-- The type of the nodes that are such a part. -/
def kind : TablePart → NodeKind
  | .head _ => .tableHead
  | .body _ _ => .tableBody
  | .foot _ => .tableFoot
  | .bareRow _ => .tableRow

end TablePart

theorem convertsRows_of_tablePart {index : Nat} {part : TablePart}
    (h : (descend index node.type (tablePart index (.ofNode node))).runFrom environment before =
      (.ok part, after)) :
    ConvertsRows environment (node, index) before part.rows after ∧
      node.kind? = some part.kind := by
  obtain ⟨inner, hinner, rfl⟩ := runFrom_descend_eq_ok h
  obtain ⟨kind, known, hinner⟩ := exists_kind_of_bind_kindOf hinner
  rw [Prepared.node_ofNode] at known
  rw [Prepared.children_ofNode] at hinner
  split at hinner
  · obtain ⟨rows, last, hrows, hpart⟩ := runFrom_bind_eq_ok hinner
    cases hpart
    exact ⟨.section (by simp [known]) (inTurn_of_rows hrows), known⟩
  · obtain ⟨rows, last, hrows, hpart⟩ := runFrom_bind_eq_ok hinner
    cases hpart
    exact ⟨.section (by simp [known]) (inTurn_of_rows hrows), known⟩
  · obtain ⟨rows, last, hrows, hpart⟩ := runFrom_bind_eq_ok hinner
    cases hpart
    exact ⟨.section (by simp [known]) (inTurn_of_rows hrows), known⟩
  · rw [map_eq_pure_bind] at hinner
    obtain ⟨row, last, hrow, hpart⟩ := runFrom_bind_eq_ok hinner
    cases hpart
    exact ⟨.bare ⟨known, runFrom_descend_ok hrow⟩, known⟩
  · cases hinner

theorem inTurn_of_tableParts {nodes : List Node} {parts : List TablePart}
    (h : (eachChild tablePart (Prepared.ofNodes nodes)).runFrom environment before =
      (.ok parts, after)) :
    InTurn (ConvertsRows environment) before nodes.zipIdx (parts.map TablePart.rows) after ∧
      List.Forall₂ (fun (child : Node) (part : TablePart) => child.kind? = some part.kind)
        nodes parts := by
  have hturn := inTurn_of_eachChildFrom 0 h
  refine ⟨hturn.map fun child s part t hpart => (convertsRows_of_tablePart hpart).1, ?_⟩
  have hkinds : List.Forall₂ (fun (child : Node × Nat) (part : TablePart) =>
      child.1.kind? = some part.kind) nodes.zipIdx parts :=
    hturn.forall₂ fun child s part t hpart => (convertsRows_of_tablePart hpart).2
  rw [← List.zipIdx_map_fst 0 nodes]
  exact List.forall₂_map_left_iff.mpr hkinds

/-! ## Slots -/

/-- The results for the children of a type, in order. -/
def resultsOf {β : Type} (kind : NodeKind) (nodes : List Node) (results : List β) : List β :=
  ((nodes.zip results).filter fun pair => pair.1.kind? = some kind).map Prod.snd

/-- The rows of the parts of a type, in groups. -/
def rowsOfKind (kind : NodeKind) (parts : List TablePart) : List (List Row) :=
  (parts.filter fun part => part.kind = kind).map TablePart.rows

theorem resultsOf_eq_rowsOfKind {nodes : List Node} {parts : List TablePart}
    (h : List.Forall₂ (fun (node : Node) (part : TablePart) => node.kind? = some part.kind)
      nodes parts) (kind : NodeKind) :
    resultsOf kind nodes (parts.map TablePart.rows) = rowsOfKind kind parts := by
  induction h with
  | nil => rfl
  | @cons node part nodes parts hfirst _ ih =>
      unfold resultsOf rowsOfKind at *
      rw [List.map_cons, List.zip_cons_cons, List.filter_cons, List.filter_cons]
      dsimp only
      rw [hfirst]
      by_cases hkind : part.kind = kind <;> simp [hkind, ih]

end Export

/-- All rows of a table, from the first of the head to the last of the foot. -/
def Pandoc.Table.rows (table : Table) : List Row :=
  table.head.rows ++ table.bodies.flatMap (fun body => body.headRows ++ body.rows)
    ++ table.foot.rows

namespace Export

theorem rowsOfKind_append (kind : NodeKind) (parts more : List TablePart) :
    rowsOfKind kind (parts ++ more) = rowsOfKind kind parts ++ rowsOfKind kind more := by
  rw [rowsOfKind, List.filter_append, List.map_append]
  rfl

theorem rowsOfKind_singleton (kind : NodeKind) (part : TablePart) :
    rowsOfKind kind [part] = if part.kind = kind then [part.rows] else [] := by
  by_cases h : part.kind = kind <;> simp [rowsOfKind, h]

theorem flatten_dropLast_append_getLastD {β : Type} (groups : List (List β)) :
    groups.dropLast.flatten ++ groups.getLastD [] = groups.flatten := by
  induction groups using List.reverseRecOn with
  | nil => rfl
  | append_singleton groups group _ => simp

/-- Every part is of one of the four types. -/
theorem perm_rowsOfKind (parts : List TablePart) :
    ((rowsOfKind .tableHead parts).flatten ++ ((rowsOfKind .tableBody parts).flatten ++
      ((rowsOfKind .tableFoot parts).flatten ++ (rowsOfKind .tableRow parts).flatten))).Perm
        (parts.map TablePart.rows).flatten := by
  induction parts with
  | nil => exact .nil
  | cons part rest ih =>
      rw [List.map_cons, List.flatten_cons, ← List.singleton_append]
      refine .trans ?_ (ih.append_left part.rows)
      simp only [rowsOfKind_append, rowsOfKind_singleton, List.flatten_append]
      generalize (rowsOfKind .tableHead rest).flatten = heads
      generalize (rowsOfKind .tableBody rest).flatten = bodies
      generalize (rowsOfKind .tableFoot rest).flatten = feet
      generalize (rowsOfKind .tableRow rest).flatten = bare
      have hbody (rows : List Row) : (heads ++ (rows ++ (bodies ++ (feet ++ bare)))).Perm
          (rows ++ (heads ++ (bodies ++ (feet ++ bare)))) :=
        List.perm_append_comm_assoc _ _ _
      have hfoot (rows : List Row) : (heads ++ (bodies ++ (rows ++ (feet ++ bare)))).Perm
          (rows ++ (heads ++ (bodies ++ (feet ++ bare)))) :=
        ((List.perm_append_comm_assoc _ _ _).append_left heads).trans (hbody rows)
      have hbare (rows : List Row) : (heads ++ (bodies ++ (feet ++ (rows ++ bare)))).Perm
          (rows ++ (heads ++ (bodies ++ (feet ++ bare)))) :=
        (((List.perm_append_comm_assoc _ _ _).append_left bodies).append_left heads).trans
          (hfoot rows)
      cases part with
      | head content => simp [TablePart.kind, TablePart.rows]
      | body attr rows => simpa [TablePart.kind, TablePart.rows] using hbody rows
      | foot content => simpa [TablePart.kind, TablePart.rows] using hfoot content.rows
      | bareRow row => simpa [TablePart.kind, TablePart.rows] using hbare [row]

/-- The rows of the parts are in the slots: those that came last, and those of all bodies. -/
structure Filled (sections : TableSections) (parts : List TablePart) : Prop where
  head : sections.head.rows = (rowsOfKind .tableHead parts).getLastD []
  bodies : sections.bodies.map TableBody.rows = rowsOfKind .tableBody parts
  headRows : ∀ body ∈ sections.bodies, body.headRows = []
  foot : sections.foot.rows = (rowsOfKind .tableFoot parts).getLastD []

theorem Filled.add {sections : TableSections} {parts : List TablePart} (h : Filled sections parts)
    (rowHeadColumns : Int) (part : TablePart) :
    Filled (sections.add rowHeadColumns part) (parts ++ [part]) := by
  obtain ⟨hhead, hbodies, hheadRows, hfoot⟩ := h
  constructor
  · cases part <;> simp [TableSections.add, rowsOfKind_append, rowsOfKind_singleton,
      TablePart.kind, TablePart.rows, hhead]
  · cases part <;> simp [TableSections.add, rowsOfKind_append, rowsOfKind_singleton,
      TablePart.kind, TablePart.rows, hbodies]
  · cases part with
    | body attr rows =>
        exact List.forall_mem_append.mpr ⟨hheadRows, List.forall_mem_singleton.mpr rfl⟩
    | _ => exact hheadRows
  · cases part <;> simp [TableSections.add, rowsOfKind_append, rowsOfKind_singleton,
      TablePart.kind, TablePart.rows, hfoot]

theorem filled_foldl_add (rowHeadColumns : Int) (parts : List TablePart) :
    Filled (parts.foldl (TableSections.add rowHeadColumns) {}) parts := by
  induction parts using List.reverseRecOn with
  | nil => exact ⟨rfl, rfl, nofun, rfl⟩
  | append_singleton parts part ih =>
      rw [List.foldl_append]
      exact ih.add rowHeadColumns part

/-- What is not in the slots was there and has been replaced. -/
theorem Filled.perm {sections : TableSections} {parts : List TablePart} (h : Filled sections parts)
    (hbare : rowsOfKind .tableRow parts = []) :
    ((rowsOfKind .tableHead parts).dropLast.flatten ++
      (rowsOfKind .tableFoot parts).dropLast.flatten ++ (sections.head.rows ++
        sections.bodies.flatMap (fun body => body.headRows ++ body.rows) ++
          sections.foot.rows)).Perm (parts.map TablePart.rows).flatten := by
  refine .trans ?_ (perm_rowsOfKind parts)
  have hbodies : sections.bodies.flatMap (fun body => body.headRows ++ body.rows) =
      (rowsOfKind .tableBody parts).flatten := by
    rw [← h.bodies, ← List.flatMap_def]
    exact List.flatMap_congr fun body hbody => by rw [h.headRows body hbody, List.nil_append]
  rw [hbodies, h.head, h.foot, hbare, List.flatten_nil, List.append_nil,
    ← flatten_dropLast_append_getLastD (rowsOfKind .tableHead parts),
    ← flatten_dropLast_append_getLastD (rowsOfKind .tableFoot parts)]
  simp only [List.append_assoc]
  generalize (rowsOfKind .tableFoot parts).dropLast.flatten = lost
  exact ((List.perm_append_comm_assoc lost _ _).trans
    ((List.perm_append_comm_assoc lost _ _).append_left _)).append_left _

/-- Where the rows of a table are to be found among the groups that its children give. -/
structure KeepsRows (node : Node) (groups : List (List Row)) (table : Table) : Prop where
  /-- Every row is kept once, but not those of a head or foot that another one comes after. -/
  perm : ((resultsOf .tableHead node.content groups).dropLast.flatten ++
    (resultsOf .tableFoot node.content groups).dropLast.flatten ++ table.rows).Perm groups.flatten
  /-- Bare rows are the head and one body, in the order of the source. -/
  bare : (∃ child ∈ node.content, child.kind? = some .tableRow) →
    ∃ body, table.bodies = [body] ∧ table.head.rows ++ body.rows = groups.flatten ∧
      table.head.rows.length = headerRows node.attrs groups.flatten.length
  /-- Sections stay together. -/
  sections : (¬ ∃ child ∈ node.content, child.kind? = some .tableRow) →
    table.head.rows = (resultsOf .tableHead node.content groups).getLastD [] ∧
      table.bodies.map TableBody.rows = resultsOf .tableBody node.content groups ∧
      table.foot.rows = (resultsOf .tableFoot node.content groups).getLastD []

theorem rowsOfKind_eq_nil {kind : NodeKind} {parts : List TablePart} :
    rowsOfKind kind parts = [] ↔ ∀ part ∈ parts, part.kind ≠ kind := by
  simp [rowsOfKind]

theorem kind_eq_tableRow_iff {part : TablePart} :
    part.kind = .tableRow ↔ part.bareRow?.isSome = true := by
  cases part <;> simp [TablePart.kind, TablePart.bareRow?]

theorem rows_of_bareRows {parts : List TablePart} (h : ∀ part ∈ parts, part.kind = .tableRow) :
    parts.filterMap TablePart.bareRow? = (parts.map TablePart.rows).flatten := by
  induction parts with
  | nil => rfl
  | cons part rest ih =>
      obtain ⟨hpart, hrest⟩ := List.forall_mem_cons.mp h
      cases part with
      | bareRow row => exact congrArg (List.cons row) (ih hrest)
      | _ => cases hpart

section Table

variable {parts : List TablePart} {sections : TableSections} {table : Table}

/-- The children of the table are such parts. -/
abbrev PartsOf (node : Node) (parts : List TablePart) : Prop :=
  List.Forall₂ (fun (child : Node) (part : TablePart) => child.kind? = some part.kind)
    node.content parts

theorem PartsOf.exists_bareRow_iff (h : PartsOf node parts) :
    (∃ child ∈ node.content, child.kind? = some .tableRow) ↔
      ∃ part ∈ parts, part.kind = .tableRow := by
  have hnone := forall_mem_iff_of_forall₂ (p := fun child => ¬ child.kind? = some .tableRow)
    (q := fun part => ¬ part.kind = .tableRow) (h.imp fun child part hkind => by
      rw [hkind, Option.some_inj])
  simpa using not_congr hnone

theorem keepsRows_of_sections (hparts : PartsOf node parts)
    (hnone : ∀ part ∈ parts, part.kind ≠ .tableRow) (hfilled : Filled sections parts)
    (hhead : table.head = sections.head) (hbodies : table.bodies = sections.bodies)
    (hfoot : table.foot = sections.foot) : KeepsRows node (parts.map TablePart.rows) table := by
  have hresults := resultsOf_eq_rowsOfKind hparts
  constructor
  · rw [hresults, hresults, Table.rows, hhead, hbodies, hfoot]
    exact hfilled.perm (rowsOfKind_eq_nil.mpr hnone)
  · intro hbare
    obtain ⟨part, hpart, hkind⟩ := hparts.exists_bareRow_iff.mp hbare
    exact absurd hkind (hnone part hpart)
  · intro _
    rw [hresults, hresults, hresults, hhead, hbodies, hfoot]
    exact ⟨hfilled.head, hfilled.bodies, hfilled.foot⟩

theorem keepsRows_of_bareRows (hparts : PartsOf node parts) (hne : parts ≠ [])
    (hall : ∀ part ∈ parts, part.kind = .tableRow) {columns : Int}
    (hsections : sections = .ofRows columns
      (headerRows node.attrs (parts.map TablePart.rows).flatten.length)
      (parts.map TablePart.rows).flatten)
    (hhead : table.head = sections.head) (hbodies : table.bodies = sections.bodies)
    (hfoot : table.foot = sections.foot) : KeepsRows node (parts.map TablePart.rows) table := by
  have hresults := resultsOf_eq_rowsOfKind hparts
  have hnone (kind : NodeKind) (hkind : kind ≠ .tableRow) : rowsOfKind kind parts = [] :=
    rowsOfKind_eq_nil.mpr fun part hpart heq => hkind (heq.symm.trans (hall part hpart))
  subst hsections
  constructor
  · rw [hresults, hresults, hnone _ (by decide), hnone _ (by decide), Table.rows, hhead, hbodies,
      hfoot]
    simp [TableSections.ofRows]
  · intro _
    rw [hhead, hbodies]
    refine ⟨_, rfl, List.take_append_drop _ _, ?_⟩
    simp [TableSections.ofRows, headerRows]
  · intro hbare
    obtain ⟨part, hpart⟩ := List.exists_mem_of_ne_nil _ hne
    exact absurd (hparts.exists_bareRow_iff.mpr ⟨part, hpart, hall part hpart⟩) hbare

theorem keepsRows_of_tableSections (hparts : PartsOf node parts)
    (h : (tableSections node.attrs parts).runFrom environment before = (.ok sections, after))
    (hhead : table.head = sections.head) (hbodies : table.bodies = sections.bodies)
    (hfoot : table.foot = sections.foot) :
    after = before ∧ KeepsRows node (parts.map TablePart.rows) table := by
  unfold tableSections at h
  dsimp only at h
  split at h
  · next hempty =>
      have hnone : ∀ part ∈ parts, part.kind ≠ .tableRow := fun part hpart => by
        rw [Ne, kind_eq_tableRow_iff]
        simpa using List.filterMap_eq_nil_iff.mp (List.isEmpty_iff.mp hempty) part hpart
      cases h
      exact ⟨rfl, keepsRows_of_sections hparts hnone (filled_foldl_add _ parts) hhead hbodies hfoot⟩
  · next hsome =>
      split at h
      · cases h
      · next hlength =>
          have hall : ∀ part ∈ parts, part.kind = .tableRow := by
            have hcount := (not_not.mp hlength).symm
            rw [List.length_filterMap_eq_countP, List.countP_eq_length] at hcount
            exact fun part hpart => kind_eq_tableRow_iff.mpr (hcount part hpart)
          have hne : parts ≠ [] := by
            rintro rfl
            exact hsome rfl
          rw [rows_of_bareRows hall] at h
          cases h
          exact ⟨rfl, keepsRows_of_bareRows hparts hne hall rfl hhead hbodies hfoot⟩

end Table

/-! ## Figures -/

/-- A child of a figure gives a caption or a block. -/
inductive ConvertsPart (environment : Environment) :
    Node × Nat → Progress → FigurePart → Progress → Prop where
  | caption {node : Node} {index : Nat} {before after : Progress} {content : List Inline}
      (known : node.kind? = some .figureCaption)
      (converts : (descend index node.type (inlinesOf node.content)).runFrom environment before =
        (.ok content, after)) :
      ConvertsPart environment (node, index) before (.caption content) after
  | content {node : Node} {index : Nat} {before after : Progress} {block : Block}
      (known : node.kind? ≠ some .figureCaption)
      (converts : (descend index node.type node.toBlock).runFrom environment before =
        (.ok block, after)) :
      ConvertsPart environment (node, index) before (.content block) after

theorem convertsPart_of_figurePart {index : Nat} {part : FigurePart}
    (h : (descend index node.type (figurePart index (.ofNode node))).runFrom environment before =
      (.ok part, after)) : ConvertsPart environment (node, index) before part after := by
  obtain ⟨inner, hinner, rfl⟩ := runFrom_descend_eq_ok h
  obtain ⟨kind, known, hinner⟩ := exists_kind_of_bind_kindOf hinner
  rw [Prepared.node_ofNode] at known
  rw [Prepared.children_ofNode] at hinner
  split at hinner
  · rw [map_eq_pure_bind] at hinner
    obtain ⟨content, last, hcontent, hpart⟩ := runFrom_bind_eq_ok hinner
    cases hpart
    exact .caption known (runFrom_descend_ok hcontent)
  · next hkind =>
      rw [map_eq_pure_bind] at hinner
      obtain ⟨block, last, hblock, hpart⟩ := runFrom_bind_eq_ok hinner
      cases hpart
      refine .content (fun hcaption => hkind (Option.some.inj (known.symm.trans hcaption))) ?_
      exact runFrom_descend_ok hblock

theorem inTurn_of_figureParts {nodes : List Node} {parts : List FigurePart}
    (h : (eachChild figurePart (Prepared.ofNodes nodes)).runFrom environment before =
      (.ok parts, after)) : InTurn (ConvertsPart environment) before nodes.zipIdx parts after := by
  have hturn := (inTurn_of_eachChildFrom 0 h).map (f := id) fun child s part t hpart =>
    convertsPart_of_figurePart hpart
  rwa [List.map_id] at hturn

/-! ## What is kept -/

/-- The children of a table give their rows in turn, and those of a figure their captions and
blocks. All of them are in the output, but of several heads, feet or captions only the last. -/
theorem keeps_table_and_figure (environment : Environment) (node : Node) (before after : Progress)
    (block : Block) :
    ((table node (Prepared.ofNodes node.content)).runFrom environment before = (.ok block, after) →
      ∃ made groups, block = .table made ∧
        InTurn (ConvertsRows environment) before node.content.zipIdx groups after ∧
        KeepsRows node groups made) ∧
    ((figure node (Prepared.ofNodes node.content)).runFrom environment before =
        (.ok block, after) →
      ∃ caption parts, block =
          .figure node.attrs.element caption (parts.filterMap FigurePart.content?) ∧
        InTurn (ConvertsPart environment) before node.content.zipIdx parts after ∧
        caption = (parts.filterMap FigurePart.caption?).getLast?.elim .empty Caption.ofInlines) := by
  constructor
  · intro h
    obtain ⟨parts, between, hparts, h⟩ := runFrom_bind_eq_ok h
    obtain ⟨sections, last, hsections, h⟩ := runFrom_bind_eq_ok h
    cases h
    obtain ⟨hturn, hkinds⟩ := inTurn_of_tableParts hparts
    let made : Table := ⟨node.attrs.element, tableCaption node.attrs,
      columnSpecs node.attrs sections, sections.head, sections.bodies, sections.foot⟩
    have hhead : made.head = sections.head := rfl
    obtain ⟨rfl, hkeeps⟩ := keepsRows_of_tableSections hkinds hsections hhead rfl rfl
    exact ⟨made, _, rfl, hturn, hkeeps⟩
  · intro h
    obtain ⟨parts, between, hparts, h⟩ := runFrom_bind_eq_ok h
    cases h
    refine ⟨_, parts, rfl, inTurn_of_figureParts hparts, ?_⟩
    cases (parts.filterMap FigurePart.caption?).getLast? <;> rfl

/-- A table with a head, a body and a foot, each of one row. -/
def threeSections : Node where
  type := "table"
  content := [
    { type := "tableHead", content := [{ type := "tableRow", attrs := [("id", .str "a")] }] },
    { type := "tableBody", content := [{ type := "tableRow", attrs := [("id", .str "b")] }] },
    { type := "tableFoot", content := [{ type := "tableRow", attrs := [("id", .str "c")] }] }]

/-- A table with two heads, each of one row. -/
def twoHeads : Node where
  type := "table"
  content := [
    { type := "tableHead", content := [{ type := "tableRow", attrs := [("id", .str "a")] }] },
    { type := "tableHead", content := [{ type := "tableRow", attrs := [("id", .str "b")] }] }]

/-- A figure with two captions. -/
def twoCaptions : Node where
  type := "figure"
  content := [
    { type := "figureCaption", content := [{ type := "text", text := some "a" }] },
    { type := "horizontalRule" },
    { type := "figureCaption", content := [{ type := "text", text := some "b" }] }]

theorem keeps_table_and_figure_three :
    (∃ made groups after, (table threeSections (Prepared.ofNodes threeSections.content)).runFrom
        {} {} = (.ok (.table made), after) ∧
      InTurn (ConvertsRows {}) {} threeSections.content.zipIdx groups after ∧
      KeepsRows threeSections groups made) ∧
    ∃ after parts, (figure twoCaptions (Prepared.ofNodes twoCaptions.content)).runFrom {} {} =
        (.ok (.figure {} (.ofInlines [.str "b"]) [.horizontalRule]), after) ∧
      InTurn (ConvertsPart {}) {} twoCaptions.content.zipIdx parts after := by
  constructor
  · have hrun : ∃ block after, (table threeSections
        (Prepared.ofNodes threeSections.content)).runFrom {} {} = (.ok block, after) :=
      ⟨_, _, rfl⟩
    obtain ⟨block, after, hrun⟩ := hrun
    obtain ⟨made, groups, rfl, hturn, hkeeps⟩ :=
      (keeps_table_and_figure {} threeSections {} after block).1 hrun
    exact ⟨made, groups, after, hrun, hturn, hkeeps⟩
  · have hrun : (figure twoCaptions (Prepared.ofNodes twoCaptions.content)).runFrom {} {} =
        (.ok (.figure {} (.ofInlines [.str "b"]) [.horizontalRule]), {}) := by cbv
    obtain ⟨caption, parts, -, hturn, -⟩ := (keeps_table_and_figure {} twoCaptions {} {} _).2 hrun
    exact ⟨_, parts, hrun, hturn⟩

theorem table_and_figure_lose_slots :
    (∃ made groups after, (table twoHeads (Prepared.ofNodes twoHeads.content)).runFrom {} {} =
        (.ok (.table made), after) ∧
      InTurn (ConvertsRows {}) {} twoHeads.content.zipIdx groups after ∧
      ¬ made.rows.Perm groups.flatten) ∧
    ∃ parts after, (figure twoCaptions (Prepared.ofNodes twoCaptions.content)).runFrom {} {} =
        (.ok (.figure {} (.ofInlines [.str "b"]) [.horizontalRule]), after) ∧
      InTurn (ConvertsPart {}) {} twoCaptions.content.zipIdx parts after ∧
      .caption [.str "a"] ∈ parts := by
  constructor
  · let row (id : String) : Row := ⟨{ id }, []⟩
    refine ⟨_, [[row "a"], [row "b"]], {}, rfl, ?_, fun h => ?_⟩
    · refine .cons (.section (by decide) (.cons ⟨rfl, rfl⟩ (.nil _))) ?_
      exact .cons (.section (by decide) (.cons ⟨rfl, rfl⟩ (.nil _))) (.nil _)
    · exact absurd h.length_eq (by decide)
  · have hfirst : (descend 0 "figureCaption"
        (inlinesOf [{ type := "text", text := some "a" }])).runFrom {} {} =
          (.ok [.str "a"], {}) := by cbv
    have hlast : (descend 2 "figureCaption"
        (inlinesOf [{ type := "text", text := some "b" }])).runFrom {} {} =
          (.ok [.str "b"], {}) := by cbv
    refine ⟨[.caption [.str "a"], .content .horizontalRule, .caption [.str "b"]], {}, by cbv, ?_,
      List.mem_cons_self⟩
    exact .cons (.caption rfl hfirst) (.cons (.content (by decide) rfl)
      (.cons (.caption rfl hlast) (.nil _)))

end Export

end RichDoc
