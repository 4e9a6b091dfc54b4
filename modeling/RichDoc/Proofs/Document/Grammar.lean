import RichDoc.Document.Attributes
import RichDoc.Document.Node

/-!
# The grammar of documents

Which trees of nodes are documents, said without any conversion. Where a
node stands (`Position`) decides which types may stand there and where the
nodes that it holds stand in turn (`Position.holds`). Some types ask for
more: for an order among the nodes that they hold, or for something of
their attributes (`Node.Arranged`).
-/

namespace RichDoc

/-- Where a node stands. -/
inductive Position where
  | root
  /-- Among the children of the root. -/
  | top
  | block
  | inline
  | listItem
  | definition
  | figurePart
  | tablePart
  | row
  | cell
  | metaEntry
  | metaValue
deriving DecidableEq, Repr

/-- What a node holds. -/
inductive Holding where
  /-- Anything; nobody looks at it. -/
  | unread
  | each (position : Position)
deriving DecidableEq, Repr

namespace Position

/-- What a node of some type holds among blocks, if it may stand there. -/
def blockHolds : NodeKind → Option Holding
  | .paragraph | .heading => some (.each inline)
  | .bulletList | .orderedList => some (.each listItem)
  | .definitionList => some (.each definition)
  | .blockQuote | .div | .note | .indexDiv => some (.each block)
  | .figure => some (.each figurePart)
  | .table => some (.each tablePart)
  | .codeBlock | .rawBlock | .horizontalRule | .image => some .unread
  | _ => none

/-- What a node of some type holds at a position, if it may stand there. -/
def holds : Position → NodeKind → Option Holding
  | root, .doc => some (.each top)
  | top, .metadata => some (.each metaEntry)
  | top, kind => blockHolds kind
  | block, kind => blockHolds kind
  | inline, .text | inline, .hardBreak | inline, .indexRef | inline, .emptySpan
  | inline, .image | inline, .rawInline => some .unread
  | inline, .note => some (.each block)
  | listItem, .listItem => some (.each block)
  | definition, .definitionTerm => some (.each inline)
  | definition, .definitionData => some (.each block)
  | figurePart, .figureCaption => some (.each inline)
  | figurePart, kind => blockHolds kind
  | tablePart, .tableRow => some (.each cell)
  | tablePart, .tableHead | tablePart, .tableBody | tablePart, .tableFoot => some (.each row)
  | row, .tableRow => some (.each cell)
  | cell, .tableCell | cell, .tableHeaderCell => some (.each block)
  | metaEntry, .metaEntry => some (.each metaValue)
  | metaValue, .metaMap => some (.each metaEntry)
  | metaValue, .metaList => some (.each metaValue)
  | metaValue, .metaString | metaValue, .metaBool => some .unread
  | metaValue, .metaInlines => some (.each inline)
  | metaValue, .metaBlocks => some (.each block)
  | _, _ => none

end Position

/-! ## Terms and definitions -/

/-- Terms, each with one definition or more behind it. -/
inductive Defines : List NodeKind → Prop where
  | nil : Defines []
  | item {rest} (more : Nat) (defines : Defines rest) :
      Defines (.definitionTerm :: (List.replicate (more + 1) .definitionData ++ rest))

/-- What may follow, with so many definitions still due for the last term, if there is one. -/
def DefinesAfter (due : Option Nat) (kinds : List NodeKind) : Prop :=
  match due with
  | none => Defines kinds
  | some due => ∃ more rest, kinds = List.replicate (due + more) .definitionData ++ rest ∧
      Defines rest

section Defines

variable {kind : NodeKind} {kinds : List NodeKind} {due : Nat}

theorem defines_term_iff : Defines (.definitionTerm :: kinds) ↔ DefinesAfter (some 1) kinds := by
  constructor
  · rintro ⟨⟩
    next rest more defines => exact ⟨more, rest, by rw [Nat.add_comm], defines⟩
  · rintro ⟨more, rest, rfl, defines⟩
    rw [Nat.add_comm]
    exact .item more defines

/-- What follows a term that has all that is due to it starts with a term. -/
theorem kind_eq_of_defines (h : Defines (kind :: kinds)) : kind = .definitionTerm := by
  cases h
  rfl

theorem definesAfter_nil : DefinesAfter (some due) [] ↔ due = 0 := by
  constructor
  · rintro ⟨more, rest, heq, -⟩
    have := congrArg List.length heq
    simp at this
    omega
  · rintro rfl
    exact ⟨0, [], rfl, .nil⟩

theorem definesAfter_data :
    DefinesAfter (some due) (.definitionData :: kinds) ↔ DefinesAfter (some (due - 1)) kinds := by
  constructor
  · rintro ⟨more, rest, heq, defines⟩
    cases hn : due + more with
    | zero =>
        rw [hn, List.replicate_zero, List.nil_append] at heq
        subst heq
        cases kind_eq_of_defines defines
    | succ n =>
        rw [hn, List.replicate_succ, List.cons_append] at heq
        exact ⟨n - (due - 1), rest, by rw [(List.cons.inj heq).2]; congr 2; omega, defines⟩
  · rintro ⟨more, rest, rfl, defines⟩
    refine ⟨due - 1 + more + 1 - due, rest, ?_, defines⟩
    rw [show due + (due - 1 + more + 1 - due) = (due - 1 + more) + 1 by omega]
    rfl

theorem definesAfter_term :
    DefinesAfter (some due) (.definitionTerm :: kinds) ↔
      due = 0 ∧ DefinesAfter (some 1) kinds := by
  constructor
  · rintro ⟨more, rest, heq, defines⟩
    cases hn : due + more with
    | zero =>
        rw [hn, List.replicate_zero, List.nil_append] at heq
        subst heq
        exact ⟨by omega, defines_term_iff.mp defines⟩
    | succ n =>
        rw [hn, List.replicate_succ, List.cons_append] at heq
        cases (List.cons.inj heq).1
  · rintro ⟨rfl, hrest⟩
    exact ⟨0, _, rfl, defines_term_iff.mpr hrest⟩

end Defines

/-! ## Nodes -/

namespace Node

/-- The types of the nodes that the node holds, those that are known. -/
def contentKinds (node : Node) : List NodeKind := node.content.filterMap kind?

/-- What a type asks for beyond the types of the nodes below. -/
def Arranged (node : Node) : NodeKind → Prop
  | .doc => ∀ child ∈ node.content.tail, child.kind? ≠ some .metadata
  | .definitionList => Defines node.contentKinds
  | .table =>
    (∀ child ∈ node.content, child.kind? = some .tableRow) ∨
      ∀ child ∈ node.content, child.kind? ≠ some .tableRow
  | .tableCell | .tableHeaderCell =>
    ∀ key ∈ ["rowspan", "colspan"], ∀ n, node.attrs.integer? key = some n → n ≤ 1000
  | .metaEntry => (node.attrs.string? "key").isSome ∧ node.content.length = 1
  | _ => True

/-- The node, with all that is looked at below it, may stand at the position. -/
inductive Fits : Position → Node → Prop where
  | intro {position node kind holding} (known : node.kind? = some kind)
      (allowed : position.holds kind = some holding) (arranged : node.Arranged kind)
      (held : ∀ inner, holding = .each inner → ∀ child ∈ node.content, Fits inner child) :
      Fits position node

section Fits

variable {position inner : Position} {node : Node} {kind : NodeKind}

theorem not_fits_of_unknown (unknown : node.kind? = none) : ¬ node.Fits position := by
  rintro ⟨known, -, -, -⟩
  rw [unknown] at known
  cases known

theorem fits_iff (known : node.kind? = some kind) :
    node.Fits position ↔ ∃ holding, position.holds kind = some holding ∧ node.Arranged kind ∧
      ∀ inner, holding = .each inner → ∀ child ∈ node.content, child.Fits inner := by
  constructor
  · rintro ⟨known', allowed, arranged, held⟩
    obtain rfl := Option.some.inj (known.symm.trans known')
    exact ⟨_, allowed, arranged, held⟩
  · rintro ⟨holding, allowed, arranged, held⟩
    exact ⟨known, allowed, arranged, held⟩

theorem not_fits (known : node.kind? = some kind) (misplaced : position.holds kind = none) :
    ¬ node.Fits position := by
  rw [fits_iff known, misplaced]
  rintro ⟨holding, ⟨⟩, -⟩

theorem fits_congr {other : Position} (known : node.kind? = some kind)
    (same : position.holds kind = other.holds kind) : node.Fits position ↔ node.Fits other := by
  rw [fits_iff known, fits_iff known, same]

theorem fits_of_unread (known : node.kind? = some kind)
    (allowed : position.holds kind = some .unread) : node.Fits position ↔ node.Arranged kind := by
  rw [fits_iff known, allowed]
  constructor
  · rintro ⟨-, -, arranged, -⟩
    exact arranged
  · intro arranged
    exact ⟨_, rfl, arranged, by rintro _ ⟨⟩⟩

theorem fits_of_each (known : node.kind? = some kind)
    (allowed : position.holds kind = some (.each inner)) :
    node.Fits position ↔ node.Arranged kind ∧ ∀ child ∈ node.content, child.Fits inner := by
  rw [fits_iff known, allowed]
  constructor
  · rintro ⟨_, ⟨⟩, arranged, held⟩
    exact ⟨arranged, held inner rfl⟩
  · rintro ⟨arranged, held⟩
    refine ⟨_, rfl, arranged, ?_⟩
    rintro _ ⟨⟩
    exact held

end Fits

/-! ## Ways -/

/-- Taking the children of these places, which have these types, leads from one node to another. -/
inductive Reaches : Node → List (Nat × String) → Node → Prop where
  | here (node : Node) : Reaches node [] node
  | child {node child below : Node} {index : Nat} {way : List (Nat × String)}
      (child_mem : node.content[index]? = some child) (reaches : Reaches child way below) :
      Reaches node ((index, child.type) :: way) below

end Node

end RichDoc
