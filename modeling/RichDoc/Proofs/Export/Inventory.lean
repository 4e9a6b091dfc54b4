import RichDoc.Proofs.Export.Row
import RichDoc.Proofs.Range.Coverage

/-!
# The citations that a document holds

Ranges are collected in every node that holds inlines, so a citation range
of a document is named by the way to such a node and by its origin there
(`RangeKey`). `Node.citationRanges` lists them all, and
`Node.citationPieces` lists the pieces that they are cut into, as they come
up from front to back: those that start at a chunk, in the order in which
they are opened, and then those of the footnote that the chunk may be.

Both are read off the tree of nodes and the registry in the end. Nothing is
converted for them.
-/

namespace RichDoc

/-- A range that was collected: the way to the node that it was collected in, and its origin. -/
structure RangeKey where
  way : List Nat
  origin : Nat
deriving DecidableEq, Repr

/-- The mark with the index is a citation. -/
def Registry.cites (registry : Registry) (index : Nat) : Bool :=
  (registry.containerAt index).isCitation

/-- The citations among the ranges that were collected at the end of a way, or their pieces. -/
def citationKeys (registry : Registry) (way : List Nat) (ranges : List MarkRange) :
    List RangeKey :=
  (ranges.filter fun range => registry.cites range.mark).map fun range => ⟨way, range.origin⟩

theorem mem_citationKeys {registry : Registry} {way : List Nat} {ranges : List MarkRange}
    {key : RangeKey} : key ∈ citationKeys registry way ranges ↔
      ∃ range ∈ ranges, registry.cites range.mark = true ∧ ⟨way, range.origin⟩ = key := by
  simp [citationKeys, and_assoc]

theorem citationKeys_append (registry : Registry) (way : List Nat) (l l' : List MarkRange) :
    citationKeys registry way (l ++ l') =
      citationKeys registry way l ++ citationKeys registry way l' := by
  rw [citationKeys, List.filter_append, List.map_append]
  rfl

/-! ## One row -/

/-- What inline nodes bring to the row, those that bring something. -/
def contributionsIn (environment : Environment) (registry : Registry) (nodes : List Node) :
    List Contribution :=
  nodes.zipIdx.filterMap fun node =>
    node.1.contribution? environment.settings registry node.2

/-- The ranges that are collected from inline nodes. -/
def rangesIn (environment : Environment) (registry : Registry) (nodes : List Node) :
    List MarkRange :=
  collectRanges (contributionsIn environment registry nodes)

/-- The ranges, untangled. -/
def piecesIn (environment : Environment) (registry : Registry) (nodes : List Node) :
    List MarkRange :=
  match untangle (registry.compare environment.priority) (rangesIn environment registry nodes) with
  | .ok pieces => pieces
  | .error _ => []

/-- What the chunk brings if it is a footnote, given that for every child. -/
def Chunk.noted (notes : Nat → List RangeKey) : Chunk → List RangeKey
  | .leaf _ => []
  | .note index _ => notes index

/-- The citations of the pieces that start at the chunks, from one position on, each chunk's before
those of the footnote that it may be. -/
def openedFrom (registry : Registry) (way : List Nat) (pieces : List MarkRange)
    (notes : Nat → List RangeKey) (position : Nat) : List Chunk → List RangeKey
  | [] => []
  | chunk :: rest =>
    citationKeys registry way (pieces.filter fun piece => piece.start = position)
      ++ chunk.noted notes ++ openedFrom registry way pieces notes (position + 1) rest

theorem mem_openedFrom {registry : Registry} {way : List Nat} {pieces : List MarkRange}
    {notes : Nat → List RangeKey} {chunks : List Chunk} {position : Nat} {key : RangeKey} :
    key ∈ openedFrom registry way pieces notes position chunks ↔
      (∃ piece ∈ pieces, position ≤ piece.start ∧ piece.start < position + chunks.length ∧
        registry.cites piece.mark = true ∧ ⟨way, piece.origin⟩ = key) ∨
      ∃ index content, .note index content ∈ chunks ∧ key ∈ notes index := by
  induction chunks generalizing position with
  | nil =>
      simp only [openedFrom, List.not_mem_nil, List.length_nil, false_iff]
      rintro (⟨piece, -, hle, hlt, -⟩ | ⟨_, _, hmem, -⟩)
      · omega
      · cases hmem
  | cons chunk rest ih =>
      rw [openedFrom, List.mem_append, List.mem_append, ih, mem_citationKeys, List.length_cons]
      constructor
      · rintro ((⟨piece, hmem, hcites, heq⟩ | hnoted) | (⟨piece, hmem, hle, hlt, hrest⟩ | hnote))
        · obtain ⟨hp, hstart⟩ := List.mem_filter.mp hmem
          have hstart := of_decide_eq_true hstart
          exact .inl ⟨piece, hp, by omega, by omega, hcites, heq⟩
        · cases chunk with
          | leaf inline => cases hnoted
          | note index content => exact .inr ⟨index, content, List.mem_cons_self .., hnoted⟩
        · exact .inl ⟨piece, hmem, by omega, by omega, hrest⟩
        · obtain ⟨index, content, hmem, hkey⟩ := hnote
          exact .inr ⟨index, content, List.mem_cons_of_mem _ hmem, hkey⟩
      · rintro (⟨piece, hmem, hle, hlt, hrest⟩ | ⟨index, content, hmem, hkey⟩)
        · rcases Nat.eq_or_lt_of_le hle with heq | hlater
          · exact .inl (.inl ⟨piece, List.mem_filter.mpr ⟨hmem, decide_eq_true heq.symm⟩, hrest⟩)
          · exact .inr (.inl ⟨piece, hmem, hlater, by omega, hrest⟩)
        · rcases List.mem_cons.mp hmem with rfl | hmem
          · exact .inl (.inr hkey)
          · exact .inr (.inr ⟨index, content, hmem, hkey⟩)

/-! ## The whole tree -/

/-- What a conversion looks at below nodes of a type. -/
inductive Descent where
  /-- Inlines, which are collected. -/
  | row
  | inner
  | unread
deriving DecidableEq, Repr

def NodeKind.descent : NodeKind → Descent
  | .paragraph | .heading | .definitionTerm | .figureCaption | .metaInlines => .row
  | .codeBlock | .rawBlock | .horizontalRule | .image | .text | .hardBreak | .indexRef
  | .emptySpan | .rawInline | .metaString | .metaBool => .unread
  | _ => .inner

mutual

/-- The nodes that hold inlines, from one at the end of a way on: the ways to them, and what they
hold. -/
def Node.rows (way : List Nat) : Node → List (List Nat × List Node)
  | ⟨type, _, content, _, _⟩ =>
    match (NodeKind.ofName? type).map NodeKind.descent with
    | some .row => (way, content) :: rowsFrom way 0 content
    | some .inner => rowsFrom way 0 content
    | some .unread | none => []

def rowsFrom (way : List Nat) (index : Nat) : List Node → List (List Nat × List Node)
  | [] => []
  | node :: rest => node.rows (way ++ [index]) ++ rowsFrom way (index + 1) rest

end

/-- The citations that were collected in rows. -/
def rangesOf (environment : Environment) (registry : Registry)
    (rows : List (List Nat × List Node)) : List RangeKey :=
  rows.flatMap fun row => citationKeys registry row.1 (rangesIn environment registry row.2)

/-- The citation ranges that are collected in a document. -/
def Node.citationRanges (environment : Environment) (registry : Registry) (root : Node) :
    List RangeKey :=
  rangesOf environment registry (root.rows [])

mutual

/-- The pieces of the citation ranges in and below a node at the end of a way, from front to
back. -/
def Node.piecesAt (environment : Environment) (registry : Registry) (way : List Nat) :
    Node → List RangeKey
  | ⟨type, _, content, _, _⟩ =>
    let inner := piecesFrom environment registry way 0 content
    match (NodeKind.ofName? type).map NodeKind.descent with
    | some .row =>
      openedFrom registry way (piecesIn environment registry content)
        (fun index => inner[index]?.getD []) 0
        ((contributionsIn environment registry content).flatMap Contribution.chunks)
    | some .inner => inner.flatten
    | some .unread | none => []

def piecesFrom (environment : Environment) (registry : Registry) (way : List Nat) (index : Nat) :
    List Node → List (List RangeKey)
  | [] => []
  | node :: rest =>
    node.piecesAt environment registry (way ++ [index])
      :: piecesFrom environment registry way (index + 1) rest

end

/-- The pieces of the citation ranges of a document, from front to back. -/
def Node.citationPieces (environment : Environment) (registry : Registry) (root : Node) :
    List RangeKey :=
  root.piecesAt environment registry []

section Tree

variable {environment : Environment} {registry : Registry} {way : List Nat} {node : Node}
  {kind : NodeKind} {index : Nat} {nodes : List Node}

theorem Node.rows_of_row (known : node.kind? = some kind) (h : kind.descent = .row) :
    node.rows way = (way, node.content) :: rowsFrom way 0 node.content := by
  obtain ⟨type, attrs, content, marks, text⟩ := node
  have known : NodeKind.ofName? type = some kind := known
  rw [Node.rows, known, Option.map_some, h]

theorem Node.rows_of_inner (known : node.kind? = some kind) (h : kind.descent = .inner) :
    node.rows way = rowsFrom way 0 node.content := by
  obtain ⟨type, attrs, content, marks, text⟩ := node
  have known : NodeKind.ofName? type = some kind := known
  rw [Node.rows, known, Option.map_some, h]

theorem Node.rows_of_unread (known : node.kind? = some kind) (h : kind.descent = .unread) :
    node.rows way = [] := by
  obtain ⟨type, attrs, content, marks, text⟩ := node
  have known : NodeKind.ofName? type = some kind := known
  rw [Node.rows, known, Option.map_some, h]

theorem Node.piecesAt_of_row (known : node.kind? = some kind) (h : kind.descent = .row) :
    node.piecesAt environment registry way =
      openedFrom registry way (piecesIn environment registry node.content)
        (fun index => (piecesFrom environment registry way 0 node.content)[index]?.getD []) 0
        ((contributionsIn environment registry node.content).flatMap Contribution.chunks) := by
  obtain ⟨type, attrs, content, marks, text⟩ := node
  have known : NodeKind.ofName? type = some kind := known
  rw [Node.piecesAt, known, Option.map_some, h]

theorem Node.piecesAt_of_inner (known : node.kind? = some kind) (h : kind.descent = .inner) :
    node.piecesAt environment registry way =
      (piecesFrom environment registry way 0 node.content).flatten := by
  obtain ⟨type, attrs, content, marks, text⟩ := node
  have known : NodeKind.ofName? type = some kind := known
  rw [Node.piecesAt, known, Option.map_some, h]

theorem Node.piecesAt_of_unread (known : node.kind? = some kind) (h : kind.descent = .unread) :
    node.piecesAt environment registry way = [] := by
  obtain ⟨type, attrs, content, marks, text⟩ := node
  have known : NodeKind.ofName? type = some kind := known
  rw [Node.piecesAt, known, Option.map_some, h]

theorem getElem?_piecesFrom (index place : Nat) :
    (piecesFrom environment registry way index nodes)[place]? =
      nodes[place]?.map (Node.piecesAt environment registry (way ++ [index + place])) := by
  induction nodes generalizing index place with
  | nil => rfl
  | cons node rest ih =>
      rw [piecesFrom]
      cases place with
      | zero => rfl
      | succ place =>
          rw [List.getElem?_cons_succ, List.getElem?_cons_succ, ih, Nat.add_right_comm,
            Nat.add_assoc]

theorem mem_rangesOf_append {rows rows' : List (List Nat × List Node)} {key : RangeKey} :
    key ∈ rangesOf environment registry (rows ++ rows') ↔
      key ∈ rangesOf environment registry rows ∨ key ∈ rangesOf environment registry rows' := by
  rw [rangesOf, List.flatMap_append, List.mem_append]
  rfl

theorem mem_rangesOf_rowsFrom {key : RangeKey} :
    key ∈ rangesOf environment registry (rowsFrom way index nodes) ↔
      ∃ (place : Nat) (child : Node), nodes[place]? = some child ∧
        key ∈ rangesOf environment registry (child.rows (way ++ [index + place])) := by
  induction nodes generalizing index with
  | nil => simp [rowsFrom, rangesOf]
  | cons node rest ih =>
      rw [rowsFrom, mem_rangesOf_append, ih]
      constructor
      · rintro (hkey | ⟨place, child, hchild, hkey⟩)
        · exact ⟨0, node, rfl, hkey⟩
        · refine ⟨place + 1, child, hchild, ?_⟩
          rwa [← Nat.add_assoc, Nat.add_right_comm]
      · rintro ⟨_ | place, child, hchild, hkey⟩
        · cases hchild
          exact .inl hkey
        · refine .inr ⟨place, child, hchild, ?_⟩
          rwa [← Nat.add_assoc, Nat.add_right_comm] at hkey

/-- A node that brings anything but a footnote to a row holds no rows. -/
theorem Node.rows_of_contribution? {settings : Settings} {place : Nat}
    {contribution : Contribution}
    (h : node.contribution? settings registry place = some contribution)
    (hnote : node.kind? ≠ some .note) : node.rows way = [] := by
  unfold Node.contribution? at h
  split at h
  · next known => exact rows_of_unread known rfl
  · next known => exact absurd known hnote
  · next known => exact rows_of_unread known rfl
  · next known => exact rows_of_unread known rfl
  · next known => exact rows_of_unread known rfl
  · next known => exact rows_of_unread known rfl
  · next known => exact rows_of_unread known rfl
  · cases h

/-! ## Every range once -/

mutual

/-- The ways to the rows begin with the way to the node. -/
theorem Node.prefix_of_mem_rows : ∀ (way : List Nat) (node : Node),
    ∀ row ∈ node.rows way, way <+: row.1
  | way, ⟨type, attrs, content, marks, text⟩ => by
      intro row hrow
      rw [Node.rows] at hrow
      have hinner (h : row ∈ rowsFrom way 0 content) : way <+: row.1 := by
        obtain ⟨i, -, hbegins⟩ := prefix_of_mem_rowsFrom way 0 content row h
        exact (List.prefix_append way [i]).trans hbegins
      split at hrow
      · rcases List.mem_cons.mp hrow with rfl | hrow
        · exact List.prefix_refl way
        · exact hinner hrow
      · exact hinner hrow
      · cases hrow
      · cases hrow

theorem prefix_of_mem_rowsFrom : ∀ (way : List Nat) (index : Nat) (nodes : List Node),
    ∀ row ∈ rowsFrom way index nodes, ∃ i ≥ index, way ++ [i] <+: row.1
  | way, index, [] => nofun
  | way, index, node :: rest => by
      intro row hrow
      rw [rowsFrom] at hrow
      rcases List.mem_append.mp hrow with hrow | hrow
      · exact ⟨index, Nat.le_refl _, Node.prefix_of_mem_rows _ node row hrow⟩
      · obtain ⟨i, hi, hbegins⟩ := prefix_of_mem_rowsFrom way (index + 1) rest row hrow
        exact ⟨i, by omega, hbegins⟩

end

mutual

/-- The ways of the pieces begin with the way to the node. -/
theorem Node.prefix_of_mem_piecesAt : ∀ (way : List Nat) (node : Node),
    ∀ key ∈ node.piecesAt environment registry way, way <+: key.way
  | way, ⟨type, attrs, content, marks, text⟩ => by
      intro key hkey
      have hinner {index : Nat} (h : key ∈
          (piecesFrom environment registry way 0 content)[index]?.getD []) : way <+: key.way :=
        (List.prefix_append way _).trans (prefix_of_mem_piecesFrom way 0 content _ _ h)
      rw [Node.piecesAt] at hkey
      split at hkey
      · rcases mem_openedFrom.mp hkey with ⟨piece, -, -, -, -, rfl⟩ | ⟨index, _, -, hkey⟩
        · exact List.prefix_refl way
        · exact hinner hkey
      · obtain ⟨keys, hkeys, hkey⟩ := List.mem_flatten.mp hkey
        obtain ⟨index, hindex⟩ := List.getElem?_of_mem hkeys
        exact @hinner index (by rwa [hindex])
      · cases hkey
      · cases hkey

theorem prefix_of_mem_piecesFrom : ∀ (way : List Nat) (index : Nat) (nodes : List Node),
    ∀ place, ∀ key ∈ (piecesFrom environment registry way index nodes)[place]?.getD [],
      way ++ [index + place] <+: key.way
  | way, index, [] => by simp [piecesFrom]
  | way, index, node :: rest => by
      intro place key hkey
      rw [piecesFrom] at hkey
      cases place with
      | zero => exact Node.prefix_of_mem_piecesAt _ node key hkey
      | succ place =>
          rw [← Nat.add_assoc, Nat.add_right_comm]
          exact prefix_of_mem_piecesFrom way (index + 1) rest place key hkey

end

/-- A way has no part that is longer than itself. -/
theorem not_begins_self (way : List Nat) (index : Nat) : ¬ way ++ [index] <+: way := by
  intro hbegins
  have hlength := hbegins.length_le
  rw [List.length_append, List.length_singleton] at hlength
  omega

theorem eq_of_prefixes {l : List Nat} {i j : Nat} (hi : way ++ [i] <+: l)
    (hj : way ++ [j] <+: l) : i = j := by
  have hlength : (way ++ [i]).length = (way ++ [j]).length := by simp
  have hbegins := List.prefix_of_prefix_length_le hi hj (Nat.le_of_eq hlength)
  simpa using hbegins.eq_of_length hlength

mutual

/-- No two rows are at the end of one way. -/
theorem Node.pairwise_rows : ∀ (way : List Nat) (node : Node),
    (node.rows way).Pairwise fun a b => a.1 ≠ b.1
  | way, ⟨type, attrs, content, marks, text⟩ => by
      have hinner := pairwise_rowsFrom way 0 content
      rw [Node.rows]
      split
      · refine List.pairwise_cons.mpr ⟨?_, hinner⟩
        intro row hrow heq
        obtain ⟨i, -, hbegins⟩ := prefix_of_mem_rowsFrom way 0 content row hrow
        rw [← heq] at hbegins
        exact not_begins_self way i hbegins
      · exact hinner
      · exact .nil
      · exact .nil

theorem pairwise_rowsFrom : ∀ (way : List Nat) (index : Nat) (nodes : List Node),
    (rowsFrom way index nodes).Pairwise fun a b => a.1 ≠ b.1
  | way, index, [] => .nil
  | way, index, node :: rest => by
      rw [rowsFrom]
      refine List.pairwise_append.mpr
        ⟨Node.pairwise_rows _ node, pairwise_rowsFrom way (index + 1) rest, ?_⟩
      intro a ha b hb heq
      have hfirst := Node.prefix_of_mem_rows _ node a ha
      obtain ⟨j, hj, hlater⟩ := prefix_of_mem_rowsFrom way (index + 1) rest b hb
      rw [heq] at hfirst
      have := eq_of_prefixes hfirst hlater
      omega

end

end Tree

theorem origins_follow {marks : List Nat} {start stop : Nat} {runs : List Run}
    (h : runs.map (fun run => run.range.origin) = List.range runs.length) :
    (follow marks start stop runs).map (fun run => run.range.origin) =
      List.range (follow marks start stop runs).length := by
  have hold : (runs.map (Run.follow marks stop)).map (fun run => run.range.origin) =
      List.range runs.length := by
    rw [← h, List.map_map]
    refine List.map_congr_left ?_
    intro run _
    simp only [Function.comp_apply, Run.follow]
    split
    · split <;> rfl
    · rfl
  unfold follow
  dsimp only
  rw [List.map_append, hold, List.map_map, List.length_append, List.length_map, List.length_map,
    List.length_zipIdx]
  rw [show ((fun run : Run => run.range.origin) ∘ fun (x : Nat × Nat) =>
    (⟨⟨x.1, start, stop, x.2⟩, true⟩ : Run)) = Prod.snd from rfl, List.zipIdx_map_snd,
    List.range_eq_range', List.range_eq_range', ← List.range'_append_1, Nat.zero_add]

/-- The ranges of a row have the numbers from zero on for origins. -/
theorem origins_runsFrom {start : Nat} {runs : List Run} {contributions : List Contribution}
    (h : runs.map (fun run => run.range.origin) = List.range runs.length) :
    (runsFrom start runs contributions).map (fun run => run.range.origin) =
      List.range (runsFrom start runs contributions).length := by
  induction contributions generalizing start runs with
  | nil => exact h
  | cons contribution rest ih =>
      cases contribution with
      | breakpoint chunk => exact ih h
      | run chunks marks =>
          rw [runsFrom]
          split
          · exact ih h
          · exact ih (origins_follow h)

theorem nodup_origins_collectRanges (contributions : List Contribution) :
    ((collectRanges contributions).map MarkRange.origin).Nodup := by
  have h := @origins_runsFrom 0 [] contributions rfl
  unfold collectRanges
  rw [List.map_map]
  exact h ▸ List.nodup_range

theorem nodup_citationKeys {registry : Registry} {way : List Nat} {ranges : List MarkRange}
    (h : (ranges.map MarkRange.origin).Nodup) : (citationKeys registry way ranges).Nodup := by
  have hsub := (List.filter_sublist (l := ranges)
    (p := fun range => registry.cites range.mark)).map MarkRange.origin
  have horigins := (h.sublist hsub).map (f := fun origin => (⟨way, origin⟩ : RangeKey))
    fun a b heq => (RangeKey.mk.inj heq).2
  rwa [List.map_map] at horigins

theorem Node.nodup_citationRanges (environment : Environment) (registry : Registry) (root : Node) :
    (root.citationRanges environment registry).Nodup := by
  refine List.nodup_flatMap.mpr
    ⟨fun row _ => nodup_citationKeys (nodup_origins_collectRanges _), ?_⟩
  refine (Node.pairwise_rows [] root).imp ?_
  intro a b hne key ha hb
  obtain ⟨_, -, -, rfl⟩ := mem_citationKeys.mp ha
  obtain ⟨_, -, -, heq⟩ := mem_citationKeys.mp hb
  exact hne (RangeKey.mk.inj heq).1.symm

end RichDoc
