import RichDoc.Proofs.Table.Indexed

/-!
# Where cells stand

The grid of a section remembers for how many rows each column is still
held, and the votes, but not which cell stands where. Here the same walk
is made once more with a list of the cells that were placed (`places`); the
votes of a section are those of its places, one after the other
(`tallySection_eq_foldl_vote`).

A cell looks for a free column to begin in and takes as many columns as it
is wide, free or not. So a wide cell can run into a tall one that began in
an earlier row further right, and this is the only way in which two cells
come to hold one slot. As long as it has not happened, a column is
remembered as held for all the rows that the cells in it still need
(`Layout.Accounted`), so a free column is one that no earlier cell reaches
down to. The first cell that runs into a tall one overwrites that.
-/

namespace RichDoc

open Pandoc (Row)

/-- A cell on the grid of its section, with the row and the column that it begins in. -/
structure Place where
  row : Nat
  column : Nat
  ballot : Ballot
deriving DecidableEq, Repr

namespace Place

/-- The row below the cell. -/
def bottom (place : Place) : Nat := place.row + place.ballot.height

/-- The column behind the cell. -/
def stop (place : Place) : Nat := place.column + place.ballot.width

/-- The cell stands in the column. -/
def Spans (place : Place) (column : Nat) : Prop := place.column ≤ column ∧ column < place.stop

/-- The cell holds the slot. -/
def Holds (place : Place) (row column : Nat) : Prop :=
  place.row ≤ row ∧ row < place.bottom ∧ place.Spans column

/-- In a section of so many rows, no slot is held by both cells. -/
def Apart (rows : Nat) (one other : Place) : Prop :=
  ∀ row column, row < rows → one.Holds row column → ¬ other.Holds row column

/-- The wide cell begins left of the tall one, in a later row that the tall one still holds, and
reaches as far as its columns. -/
def RunsInto (wide tall : Place) : Prop :=
  tall.row < wide.row ∧ wide.row < tall.bottom ∧ wide.column < tall.column ∧ tall.column < wide.stop

instance (place : Place) (column : Nat) : Decidable (place.Spans column) :=
  inferInstanceAs (Decidable (_ ∧ _))

instance (place : Place) (row column : Nat) : Decidable (place.Holds row column) :=
  inferInstanceAs (Decidable (_ ∧ _ ∧ _))

end Place

/-! ## Laying out a section -/

/-- A section while its cells are placed. -/
structure Layout where
  row : Nat := 0
  held : List Nat := []
  placed : List Place := []

namespace Layout

/-- The layout with one more cell, at a column of the row at hand. -/
def put (layout : Layout) (column : Nat) (ballot : Ballot) : Layout :=
  { layout with
    held := hold layout.held column ballot
    placed := layout.placed ++ [⟨layout.row, column, ballot⟩] }

def nextRow (layout : Layout) : Layout :=
  { layout with row := layout.row + 1, held := layout.held.map (· - 1) }

/-- Places the cells of a row, from a column on. -/
def placeCells (column : Nat) (layout : Layout) : List Ballot → Layout
  | [] => layout
  | ballot :: rest =>
    let start := firstFree layout.held column
    placeCells (start + ballot.width) (layout.put start ballot) rest

def placeRow (layout : Layout) (row : List Ballot) : Layout := (layout.placeCells 0 row).nextRow

end Layout

/-- The cells of a section, where they are placed. -/
def places (rows : List (List Ballot)) : List Place := (rows.foldl Layout.placeRow {}).placed

section

variable {α : Type} [Weight α]

/-- The tallies after a placed cell has voted. -/
def vote (tallies : List (Tally α)) (place : Place) : List (Tally α) :=
  castAt tallies place.column place.ballot

/-- The grid of a layout whose cells have voted. -/
def Layout.grid (tallies : List (Tally α)) (layout : Layout) : Grid α :=
  ⟨layout.held, layout.placed.foldl vote tallies⟩

theorem Layout.grid_put (tallies : List (Tally α)) (layout : Layout) (column : Nat)
    (ballot : Ballot) :
    (layout.put column ballot).grid tallies =
      ⟨hold layout.held column ballot, castAt (layout.grid tallies).tallies column ballot⟩ := by
  rw [grid, put, List.foldl_append]
  rfl

theorem Layout.placeCells_grid (tallies : List (Tally α)) (layout : Layout) (column : Nat)
    (row : List Ballot) :
    (layout.grid tallies).placeCells column row = (layout.placeCells column row).grid tallies := by
  induction row generalizing layout column with
  | nil => rfl
  | cons ballot rest ih =>
      rw [Grid.placeCells, placeCells, ← ih, grid_put]
      rfl

/-- The votes of a section are those of its cells, where they are placed, in turn. -/
theorem tallySection_eq_foldl_vote (tallies : List (Tally α)) (rows : List (List Ballot)) :
    tallySection tallies rows = (places rows).foldl vote tallies := by
  have hrows (layout : Layout) :
      rows.foldl Grid.placeRow (layout.grid tallies) =
        (rows.foldl Layout.placeRow layout).grid tallies := by
    induction rows generalizing layout with
    | nil => rfl
    | cons row rest ih =>
        rw [List.foldl_cons, List.foldl_cons, ← ih, Grid.placeRow, Layout.placeCells_grid]
        rfl
  exact congrArg Grid.tallies (hrows {})

end

/-! ## Steps of the layout -/

theorem le_firstFree (held : List Nat) (column : Nat) : column ≤ firstFree held column :=
  Nat.le_add_right _ _

/-- A layout that was reached by placing cells where they are free to begin and going on to the
next row, with the column from which the next cell looks for one. -/
inductive Layout.Laid : (column : Nat) → Layout → Prop where
  | start : Laid 0 {}
  | cell {column : Nat} {layout : Layout} (before : Laid column layout) (ballot : Ballot) :
      Laid (firstFree layout.held column + ballot.width)
        (layout.put (firstFree layout.held column) ballot)
  | row {column : Nat} {layout : Layout} (before : Laid column layout) : Laid 0 layout.nextRow

namespace Layout

variable {column : Nat} {layout : Layout}

theorem exists_laid_placeCells (h : Laid column layout) (row : List Ballot) :
    ∃ behind, Laid behind (layout.placeCells column row) := by
  induction row generalizing column layout with
  | nil => exact ⟨column, h⟩
  | cons ballot rest ih => exact ih (h.cell ballot)

theorem laid_placeRow (h : Laid 0 layout) (row : List Ballot) : Laid 0 (layout.placeRow row) := by
  obtain ⟨behind, hrow⟩ := exists_laid_placeCells h row
  exact hrow.row

theorem laid_foldl_placeRow (h : Laid 0 layout) (rows : List (List Ballot)) :
    Laid 0 (rows.foldl placeRow layout) := by
  induction rows generalizing layout with
  | nil => exact h
  | cons row rest ih => exact ih (laid_placeRow h row)

/-- The columns that are held reach as far as the cells do. -/
theorem Laid.le_length (h : Laid column layout) : column ≤ layout.held.length := by
  induction h with
  | start => exact Nat.zero_le _
  | @cell column layout before ballot ih =>
      have := Grid.firstFree_le ih
      rw [put, hold, List.length_append, List.length_append, List.length_take_of_le this,
        List.length_replicate]
      omega
  | row => exact Nat.zero_le _

/-- The cells began in earlier rows, or in the row at hand and before the column. -/
theorem Laid.passed (h : Laid column layout) : ∀ place ∈ layout.placed,
    place.row < layout.row ∨ place.row = layout.row ∧ place.stop ≤ column := by
  induction h with
  | start => exact nofun
  | @cell column layout before ballot ih =>
      have hfrom := le_firstFree layout.held column
      refine List.forall_mem_append.mpr ⟨fun place hmem => ?_, ?_⟩
      · exact (ih place hmem).imp_right fun ⟨hrow, hstop⟩ => ⟨hrow, by omega⟩
      · exact List.forall_mem_singleton.mpr (.inr ⟨rfl, Nat.le_refl _⟩)
  | row before ih =>
      intro place hmem
      rcases ih place hmem with hrow | ⟨hrow, -⟩
      · exact .inl (Nat.lt_succ_of_lt hrow)
      · exact .inl (Nat.lt_succ_of_le (Nat.le_of_eq hrow))

theorem row_placeCells (column : Nat) (layout : Layout) (row : List Ballot) :
    (layout.placeCells column row).row = layout.row := by
  induction row generalizing column layout with
  | nil => rfl
  | cons ballot rest ih => exact ih _ _

theorem row_foldl_placeRow (layout : Layout) (rows : List (List Ballot)) :
    (rows.foldl placeRow layout).row = layout.row + rows.length := by
  induction rows generalizing layout with
  | nil => rfl
  | cons row rest ih =>
      have hrow : (layout.placeRow row).row = layout.row + 1 :=
        congrArg (· + 1) (row_placeCells 0 layout row)
      rw [List.foldl_cons, ih, hrow, List.length_cons]
      omega

theorem map_ballot_placeCells (column : Nat) (layout : Layout) (row : List Ballot) :
    (layout.placeCells column row).placed.map Place.ballot = layout.placed.map Place.ballot ++ row := by
  induction row generalizing column layout with
  | nil => exact (List.append_nil _).symm
  | cons ballot rest ih => rw [placeCells, ih, put, List.map_append, List.append_assoc]; rfl

end Layout

/-- Every cell of the section is placed, in the order of the cells. -/
theorem map_ballot_places (rows : List (List Ballot)) :
    (places rows).map Place.ballot = rows.flatten := by
  have hrows (layout : Layout) : (rows.foldl Layout.placeRow layout).placed.map Place.ballot =
      layout.placed.map Place.ballot ++ rows.flatten := by
    induction rows generalizing layout with
    | nil => exact (List.append_nil _).symm
    | cons row rest ih =>
        rw [List.foldl_cons, ih, List.flatten_cons, ← List.append_assoc]
        exact congrArg (· ++ rest.flatten) (Layout.map_ballot_placeCells 0 layout row)
  exact hrows {}

/-! ## Columns that are held -/

theorem getElem?_length_takeWhile {l : List Nat} :
    l[(l.takeWhile (0 < ·)).length]?.getD 0 = 0 := by
  induction l with
  | nil => rfl
  | cons n rest ih =>
      by_cases hn : 0 < n
      · rw [List.takeWhile_cons_of_pos (by simpa using hn), List.length_cons,
          List.getElem?_cons_succ]
        exact ih
      · rw [List.takeWhile_cons_of_neg (by simpa using hn)]
        exact Nat.eq_zero_of_not_pos hn

/-- No cell holds the first free column. -/
theorem getElem?_firstFree (held : List Nat) (column : Nat) :
    held[firstFree held column]?.getD 0 = 0 := by
  rw [firstFree, ← List.getElem?_drop]
  exact getElem?_length_takeWhile

/-- A cell holds its columns for as many rows as it is high, and changes no other. -/
theorem getElem?_hold {held : List Nat} {start : Nat} (h : start ≤ held.length) (ballot : Ballot)
    (column : Nat) :
    (hold held start ballot)[column]?.getD 0 =
      if start ≤ column ∧ column < start + ballot.width then ballot.height
      else held[column]?.getD 0 := by
  have hlength := List.length_take_of_le h
  rw [hold, List.append_assoc, List.getElem?_append, hlength]
  split
  · next hlt => rw [List.getElem?_take_of_lt hlt, if_neg (by omega)]
  · rw [List.getElem?_append, List.length_replicate]
    split
    · next hlt => rw [List.getElem?_replicate, if_pos hlt, if_pos (by omega), Option.getD_some]
    · rw [List.getElem?_drop, if_neg (by omega)]
      congr 2
      omega

namespace Layout

variable {column : Nat} {layout : Layout}

/-- The rows that a cell still needs its columns for are remembered. -/
def Accounted (layout : Layout) : Prop :=
  ∀ place ∈ layout.placed, ∀ column, place.Spans column →
    place.bottom ≤ layout.row + layout.held[column]?.getD 0

/-- A cell that begins in a free column and does not run into an earlier one shares no slot with
it. -/
theorem Laid.not_holds (before : Laid column layout) (h : layout.Accounted) {ballot : Ballot}
    {place : Place} (hmem : place ∈ layout.placed)
    (hclear : ¬ Place.RunsInto ⟨layout.row, firstFree layout.held column, ballot⟩ place)
    {row shared : Nat} (hplace : place.Holds row shared) :
    ¬ Place.Holds ⟨layout.row, firstFree layout.held column, ballot⟩ row shared := by
  rintro ⟨hrow, -, hleft, hright⟩
  obtain ⟨-, hbottom, hspans⟩ := hplace
  -- the earlier cell reaches down to this row, so it is not in the column that is free
  have hreaches : layout.row < place.bottom := Nat.lt_of_le_of_lt hrow hbottom
  have hfree : ¬ place.Spans (firstFree layout.held column) := fun hstands => by
    have := h place hmem _ hstands
    rw [getElem?_firstFree] at this
    omega
  rcases before.passed place hmem with hearlier | ⟨-, hstop⟩
  · refine hclear ⟨hearlier, hreaches, ?_, ?_⟩
    · exact Nat.lt_of_not_le fun hle => hfree ⟨hle, Nat.lt_of_le_of_lt hleft hspans.2⟩
    · exact Nat.lt_of_le_of_lt hspans.1 hright
  · have hfrom := le_firstFree layout.held column
    have hshared := hspans.2
    dsimp only at hleft
    omega

theorem Laid.accounted_put (before : Laid column layout) (h : layout.Accounted) {ballot : Ballot}
    (hheight : 0 < ballot.height)
    (hclear : ∀ place ∈ layout.placed,
      ¬ Place.RunsInto ⟨layout.row, firstFree layout.held column, ballot⟩ place) :
    (layout.put (firstFree layout.held column) ballot).Accounted := by
  intro place hmem other hspans
  rw [put, getElem?_hold (Grid.firstFree_le before.le_length)]
  dsimp only
  rcases List.mem_append.mp hmem with hmem | hmem
  · split
    · next hin =>
      -- the column is one of the new cell, so the earlier one in it has ended
      have hended : ¬ layout.row < place.bottom := fun hreaches => by
        have hrow : place.row ≤ layout.row :=
          (before.passed place hmem).elim Nat.le_of_lt fun hsame => Nat.le_of_eq hsame.1
        exact before.not_holds h hmem (hclear place hmem) ⟨hrow, hreaches, hspans⟩
          ⟨Nat.le_refl _, Nat.lt_add_of_pos_right hheight, hin⟩
      omega
    · exact h place hmem other hspans
  · obtain rfl := List.mem_singleton.mp hmem
    rw [if_pos ⟨hspans.1, hspans.2⟩]
    exact Nat.le_refl _

theorem Accounted.nextRow (h : layout.Accounted) : layout.nextRow.Accounted := by
  intro place hmem other hspans
  have hremains := h place hmem other hspans
  have hheld : (layout.held.map (· - 1))[other]?.getD 0 = layout.held[other]?.getD 0 - 1 := by
    rw [List.getElem?_map]
    cases layout.held[other]? <;> rfl
  rw [Layout.nextRow, hheld]
  dsimp only
  omega

/-- As long as no cell has run into an earlier one, no two cells share a slot. -/
theorem Laid.apart (h : Laid column layout)
    (hheight : ∀ place ∈ layout.placed, 0 < place.ballot.height)
    (hclear : layout.placed.Pairwise fun tall wide => ¬ wide.RunsInto tall) :
    layout.Accounted ∧ ∀ rows, layout.placed.Pairwise (Place.Apart rows) := by
  induction h with
  | start => exact ⟨nofun, fun rows => .nil⟩
  | @cell column layout before ballot ih =>
      obtain ⟨hheight, hballot⟩ := List.forall_mem_append.mp hheight
      obtain ⟨hclear, -, hnew⟩ := List.pairwise_append.mp hclear
      obtain ⟨haccounted, hapart⟩ := ih hheight hclear
      have hnew := fun place hmem => hnew place hmem _ (List.mem_singleton_self _)
      refine ⟨before.accounted_put haccounted (hballot _ (List.mem_singleton_self _)) hnew,
        fun rows => List.pairwise_append.mpr ⟨hapart rows, List.pairwise_singleton _ _, ?_⟩⟩
      intro place hmem cell hcell row shared _ hplace
      obtain rfl := List.mem_singleton.mp hcell
      exact before.not_holds haccounted hmem (hnew place hmem) hplace
  | row before ih =>
      obtain ⟨haccounted, hapart⟩ := ih hheight hclear
      exact ⟨haccounted.nextRow, hapart⟩

end Layout

/-! ## Overlaps -/

theorem laid_places (rows : List (List Ballot)) : Layout.Laid 0 (rows.foldl Layout.placeRow {}) :=
  Layout.laid_foldl_placeRow .start rows

section

variable {rows : List Row} {place : Place}

/-- Spans below one count as one. -/
theorem pos_of_mem_places (h : place ∈ places (ballotsOf rows)) :
    0 < place.ballot.width ∧ 0 < place.ballot.height := by
  have hmem : place.ballot ∈ (ballotsOf rows).flatten := by
    rw [← map_ballot_places]
    exact List.mem_map_of_mem h
  obtain ⟨ballots, hballots, hcell⟩ := List.mem_flatten.mp hmem
  obtain ⟨row, -, rfl⟩ := List.mem_map.mp hballots
  obtain ⟨cell, -, hcell⟩ := List.mem_map.mp hcell
  rw [← hcell]
  exact ⟨Nat.lt_of_lt_of_le Nat.zero_lt_one (Nat.le_max_left _ _),
    Nat.lt_of_lt_of_le Nat.zero_lt_one (Nat.le_max_left _ _)⟩

theorem row_lt_of_mem_places (h : place ∈ places (ballotsOf rows)) : place.row < rows.length := by
  have hpassed := (laid_places (ballotsOf rows)).passed place h
  rw [Layout.row_foldl_placeRow, ballotsOf, List.length_map] at hpassed
  rcases hpassed with hrow | ⟨-, hstop⟩
  · simpa using hrow
  · have := (pos_of_mem_places h).1
    rw [Place.stop] at hstop
    omega

/-- **When cells overlap.** The cells of a section vote where they are placed. No two of them hold
the same slot of the section if and only if no wide cell runs into a tall one: none begins left of
a cell that is still there from an earlier row and reaches as far as that cell's columns. -/
theorem pairwise_apart_places_iff (rows : List Row) :
    (∀ tallies : List (Tally Rat), tallySection tallies (ballotsOf rows) =
      (places (ballotsOf rows)).foldl vote tallies) ∧
    ((places (ballotsOf rows)).Pairwise (Place.Apart rows.length) ↔
      (places (ballotsOf rows)).Pairwise fun tall wide => ¬ wide.RunsInto tall) := by
  refine ⟨fun tallies => tallySection_eq_foldl_vote tallies _, fun hapart => ?_, fun hclear => ?_⟩
  · refine hapart.imp_of_mem fun {tall wide} htall hwide hapart ⟨hrow, hbottom, hleft, hright⟩ => ?_
    -- the slot where the tall cell's first column meets the wide cell's first row
    have hslot : tall.Holds wide.row tall.column :=
      ⟨Nat.le_of_lt hrow, hbottom, Nat.le_refl _,
        Nat.lt_add_of_pos_right (pos_of_mem_places htall).1⟩
    have hholds : wide.Holds wide.row tall.column :=
      ⟨Nat.le_refl _, Nat.lt_add_of_pos_right (pos_of_mem_places hwide).2, Nat.le_of_lt hleft,
        hright⟩
    exact hapart _ _ (row_lt_of_mem_places hwide) hslot hholds
  · have hheight : ∀ place ∈ places (ballotsOf rows), 0 < place.ballot.height :=
      fun place hmem => (pos_of_mem_places hmem).2
    exact (Layout.Laid.apart (laid_places _) hheight hclear).2 rows.length

/-- Under a cell of two rows stands one of two columns that begins left of it: both hold the second
slot of the second row. -/
example : ((places [[⟨.left, 1, 1⟩, ⟨.right, 1, 2⟩], [⟨.center, 2, 1⟩]]).filter
    fun place => place.Holds 1 1).map Place.ballot = [⟨.right, 1, 2⟩, ⟨.center, 2, 1⟩] := by
  decide

end

end RichDoc
