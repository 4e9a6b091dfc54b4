import RichDoc.Pandoc.Ast

/-!
# Column alignment by vote

A table says how each cell is aligned, the document model wants one
alignment per column, so the cells vote. Every section of the table is
laid out on a grid of its own: a cell takes the first columns that are
free, holds them for as many rows as it spans and so moves later cells
to the right. Its vote is split evenly over its columns. A column takes
an alignment only with more than half of the votes cast in it.

The votes are numbers of a type of one's choice (`Weight`): doubles in
the conversion, rational numbers where the exact outcome matters.
-/

namespace RichDoc

open Pandoc (Cell Row)

/-! ## Votes -/

/-- Numbers that votes can be counted in. -/
class Weight (α : Type) where
  none : α
  add : α → α → α
  /-- One vote split evenly over this many columns. -/
  share : Nat → α
  /-- The part is more than half of the whole. -/
  exceedsHalf : (part whole : α) → Bool

instance : Weight Float where
  none := 0
  add := (· + ·)
  share columns := 1 / columns.toFloat
  exceedsHalf part whole := part > whole / 2

instance : Weight Rat where
  none := 0
  add := (· + ·)
  share columns := 1 / columns
  exceedsHalf part whole := part > whole / 2

/-- The votes cast in one column. -/
structure Tally (α : Type) where
  left : α
  right : α
  center : α
  default : α
deriving Repr

namespace Tally

variable {α : Type} [Weight α]

def empty : Tally α := ⟨Weight.none, Weight.none, Weight.none, Weight.none⟩

/-- The votes for one alignment. -/
def votes (tally : Tally α) : Pandoc.Alignment → α
  | .left => tally.left
  | .right => tally.right
  | .center => tally.center
  | .default => tally.default

def cast (tally : Tally α) (alignment : Pandoc.Alignment) (vote : α) : Tally α :=
  match alignment with
  | .left => { tally with left := Weight.add tally.left vote }
  | .right => { tally with right := Weight.add tally.right vote }
  | .center => { tally with center := Weight.add tally.center vote }
  | .default => { tally with default := Weight.add tally.default vote }

/-- All votes cast in the column. -/
def total (tally : Tally α) : α :=
  Weight.add (Weight.add (Weight.add (Weight.add Weight.none tally.left) tally.right) tally.center)
    tally.default

/-- The alignment with more than half of the votes, if there is one. -/
def winner (tally : Tally α) : Pandoc.Alignment :=
  ([.left, .right, .center, .default].find? fun alignment =>
    Weight.exceedsHalf (tally.votes alignment) tally.total).getD .default

end Tally

/-! ## The grid -/

/-- What a cell brings to the grid. Spans below one count as one. -/
structure Ballot where
  alignment : Pandoc.Alignment
  width : Nat
  height : Nat
deriving DecidableEq, Repr

def Ballot.ofCell (cell : Cell) : Ballot where
  alignment := cell.alignment
  width := max 1 cell.colSpan.toNat
  height := max 1 cell.rowSpan.toNat

/-- The first column from `column` on that no cell holds, given for how
many rows each column is still held. -/
def firstFree (held : List Nat) (column : Nat) : Nat :=
  column + ((held.drop column).takeWhile (0 < ·)).length

/-- The columns after a cell of the given size was put at a column. -/
def hold (held : List Nat) (column : Nat) (ballot : Ballot) : List Nat :=
  held.take column ++ List.replicate ballot.width ballot.height
    ++ held.drop (column + ballot.width)

section

variable {α : Type} [Weight α]

/-- Casts one vote in each of `width` columns, with new columns where they run out. -/
def castIn (alignment : Pandoc.Alignment) (vote : α) :
    (width : Nat) → List (Tally α) → List (Tally α)
  | 0, tallies => tallies
  | width + 1, [] => Tally.empty.cast alignment vote :: castIn alignment vote width []
  | width + 1, tally :: rest => tally.cast alignment vote :: castIn alignment vote width rest

/-- The tallies after a cell at a column has voted. -/
def castAt (tallies : List (Tally α)) (column : Nat) (ballot : Ballot) : List (Tally α) :=
  tallies.take column
    ++ castIn ballot.alignment (Weight.share ballot.width) ballot.width (tallies.drop column)

/-- A section while its cells are put on the grid. -/
structure Grid (α : Type) where
  held : List Nat := []
  tallies : List (Tally α)

/-- Puts the cells of a row on the grid, from a column on. -/
def Grid.placeCells (column : Nat) (grid : Grid α) : List Ballot → Grid α
  | [] => grid
  | ballot :: rest =>
    let start := firstFree grid.held column
    Grid.placeCells (start + ballot.width)
      ⟨hold grid.held start ballot, castAt grid.tallies start ballot⟩ rest

/-- The grid after a whole row: every held column is held for one row less. -/
def Grid.placeRow (grid : Grid α) (row : List Ballot) : Grid α :=
  let grid := grid.placeCells 0 row
  { grid with held := grid.held.map (· - 1) }

/-- The tallies after all rows of a section have voted. -/
def tallySection (tallies : List (Tally α)) (rows : List (List Ballot)) : List (Tally α) :=
  (rows.foldl Grid.placeRow { tallies }).tallies

/-- The votes of all sections, column by column. -/
def tallyVotes (sections : List (List (List Ballot))) : List (Tally α) :=
  sections.foldl tallySection []

end

/-- The ballots of a section's rows. -/
def ballotsOf (rows : List Row) : List (List Ballot) :=
  rows.map fun row => row.cells.map Ballot.ofCell

/-- One alignment per column, with the votes counted in numbers of type `α`. -/
def alignmentsBy (α : Type) [Weight α] (sections : List (List Row)) : List Pandoc.Alignment :=
  (tallyVotes (sections.map ballotsOf) : List (Tally α)).map Tally.winner

/-- One alignment per column. -/
def columnAlignments (sections : List (List Row)) : List Pandoc.Alignment :=
  alignmentsBy Float sections

end RichDoc
