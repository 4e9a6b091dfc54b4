import RichDoc.Export.Table

/-!
# The grid by indexes

`hold` and `castAt` put a cell on the grid by taking lists apart and
putting them together again, and a list is cut behind its first rows
wherever one likes. Done in place, each column is read and written by its
index, in lists that are made long enough beforehand, and the rows are
split off at an index. Here that is spelled out, with nothing where an
index is too large: columns are filled one by one (`Grid.fill?`) after
both lists were padded, and rows are split off by `splitOff?`.

No index is too large. A cell starts no further right than the columns
that are held reach, and these reach no further than the tallies
(`Grid.Level`), so what is padded is long enough; and the rows of the
head are never more than there are (`headerRows_le`).
-/

namespace RichDoc

open Pandoc (Row)

variable {α : Type}

/-! ## Checked writes -/

/-- The list with the element at an index changed, which has to be there. -/
def modifyAt? (change : α → α) (index : Nat) (l : List α) : Option (List α) :=
  if index < l.length then some (l.modify index change) else none

theorem modifyAt?_append (change : α → α) (before : List α) (x : α) (behind : List α) :
    modifyAt? change before.length (before ++ x :: behind) =
      some (before ++ change x :: behind) := by
  rw [modifyAt?, if_pos (by simp)]
  congr 1
  induction before with
  | nil => rfl
  | cons y rest ih => exact congrArg _ ih

/-- A list that is padded and then cut where the padding ends is cut there. -/
theorem drop_rightpad (width : Nat) (x : α) (l : List α) :
    (l.rightpad width x).drop width = l.drop width := by
  rcases Nat.le_total l.length width with h | h
  · rw [List.drop_eq_nil_of_le h]
    exact List.drop_eq_nil_of_le (by simp [List.rightpad, h])
  · rw [List.rightpad, Nat.sub_eq_zero_of_le h, List.replicate_zero, List.append_nil]

/-- What is padded can be cut in front of the padding. -/
theorem rightpad_add {start : Nat} {l : List α} (h : start ≤ l.length) (width : Nat) (x : α) :
    l.rightpad (start + width) x = l.take start ++ (l.drop start).rightpad width x := by
  have hlength : start + width - l.length = width - (l.drop start).length := by
    rw [List.length_drop]
    omega
  rw [List.rightpad, List.rightpad, hlength, ← List.append_assoc, List.take_append_drop]

/-! ## Cells -/

variable [Weight α]

/-- Padding is what new columns start with. -/
theorem castIn_rightpad (alignment : Pandoc.Alignment) (vote : α) (width : Nat)
    (tallies : List (Tally α)) :
    castIn alignment vote width (tallies.rightpad width Tally.empty) =
      castIn alignment vote width tallies := by
  induction width generalizing tallies with
  | zero => rw [List.rightpad, Nat.zero_sub, List.replicate_zero, List.append_nil]
  | succ width ih =>
      cases tallies with
      | nil =>
          have hcons : ([] : List (Tally α)).rightpad (width + 1) Tally.empty =
              Tally.empty :: ([] : List (Tally α)).rightpad width Tally.empty := by
            simp [List.rightpad, List.replicate_succ]
          rw [hcons, castIn, castIn, ih]
      | cons tally rest =>
          have hcons : (tally :: rest).rightpad (width + 1) Tally.empty =
              tally :: rest.rightpad width Tally.empty := by
            simp [List.rightpad]
          rw [hcons, castIn, castIn, ih]

theorem length_castIn (alignment : Pandoc.Alignment) (vote : α) (width : Nat)
    (tallies : List (Tally α)) :
    (castIn alignment vote width tallies).length = max width tallies.length := by
  induction width generalizing tallies with
  | zero => simp [castIn]
  | succ width ih =>
      cases tallies with
      | nil => simp [castIn, ih]
      | cons tally rest =>
          rw [castIn, List.length_cons, ih, List.length_cons]
          omega

namespace Grid

/-- Puts a cell into as many columns from `column` on, all of which have to be there. -/
def fill? (ballot : Ballot) : (column width : Nat) → Grid α → Option (Grid α)
  | _, 0, grid => some grid
  | column, width + 1, grid => do
    let held ← modifyAt? (fun _ => ballot.height) column grid.held
    let tallies ← modifyAt?
      (fun tally => tally.cast ballot.alignment (Weight.share ballot.width)) column grid.tallies
    fill? ballot (column + 1) width ⟨held, tallies⟩

/-- Filling columns that are there replaces what held them and adds a vote to each. -/
theorem fill?_eq_some (ballot : Ballot) (width : Nat) (left : List Nat)
    (leftTallies : List (Tally α)) {held : List Nat} {tallies : List (Tally α)}
    (hleft : left.length = leftTallies.length) (hheld : width ≤ held.length)
    (htallies : width ≤ tallies.length) :
    fill? ballot left.length width ⟨left ++ held, leftTallies ++ tallies⟩ =
      some ⟨left ++ (List.replicate width ballot.height ++ held.drop width),
        leftTallies ++ castIn ballot.alignment (Weight.share ballot.width) width tallies⟩ := by
  induction width generalizing left leftTallies held tallies with
  | zero => rfl
  | succ width ih =>
      cases held with
      | nil => cases hheld
      | cons rows held =>
          cases tallies with
          | nil => cases htallies
          | cons tally tallies =>
              have hrest := ih (left ++ [ballot.height])
                (leftTallies ++ [tally.cast ballot.alignment (Weight.share ballot.width)])
                (by simp [hleft]) (Nat.le_of_succ_le_succ hheld) (Nat.le_of_succ_le_succ htallies)
              rw [List.length_append, List.length_singleton] at hrest
              rw [fill?, modifyAt?_append, hleft, modifyAt?_append, ← hleft]
              simpa [List.replicate_succ, castIn] using hrest

/-- The tallies reach as far as the columns that are held. -/
def Level (grid : Grid α) : Prop := grid.held.length ≤ grid.tallies.length

theorem firstFree_le {held : List Nat} {column : Nat} (h : column ≤ held.length) :
    firstFree held column ≤ held.length := by
  have := (List.takeWhile_prefix (l := held.drop column) (0 < ·)).length_le
  rw [List.length_drop] at this
  unfold firstFree
  omega

section

variable {grid : Grid α} {start : Nat}

/-- After padding, a cell fits where it starts. -/
theorem fill?_rightpad (h : start ≤ grid.held.length) (hlevel : grid.Level) (ballot : Ballot) :
    fill? ballot start ballot.width
        ⟨grid.held.rightpad (start + ballot.width) 0,
          grid.tallies.rightpad (start + ballot.width) Tally.empty⟩ =
      some ⟨hold grid.held start ballot, castAt grid.tallies start ballot⟩ := by
  have ht : start ≤ grid.tallies.length := Nat.le_trans h hlevel
  have hpad {β : Type} (x : β) (l : List β) :
      ballot.width ≤ (l.rightpad ballot.width x).length := by
    rw [List.rightpad, List.length_append, List.length_replicate]
    omega
  have hfill := fill?_eq_some ballot ballot.width (grid.held.take start) (grid.tallies.take start)
    (by rw [List.length_take_of_le h, List.length_take_of_le ht])
    (hpad 0 (grid.held.drop start)) (hpad Tally.empty (grid.tallies.drop start))
  rw [List.length_take_of_le h, drop_rightpad, castIn_rightpad, List.drop_drop] at hfill
  rw [rightpad_add h, rightpad_add ht, hfill, hold, List.append_assoc]
  rfl

theorem level_hold_castAt (h : start ≤ grid.held.length) (hlevel : grid.Level) (ballot : Ballot) :
    Level ⟨hold grid.held start ballot, castAt grid.tallies start ballot⟩ := by
  have ht : start ≤ grid.tallies.length := Nat.le_trans h hlevel
  unfold Level at *
  simp only [hold, castAt, List.length_append, List.length_take_of_le h,
    List.length_take_of_le ht, List.length_replicate, length_castIn, List.length_drop]
  omega

end

/-! ## Rows -/

/-- Puts the cells of a row on the grid, from a column on, which is padded for each. -/
def placeCells? (column : Nat) (grid : Grid α) : List Ballot → Option (Grid α)
  | [] => some grid
  | ballot :: rest => do
    let start := firstFree grid.held column
    let stop := start + ballot.width
    let grid ← fill? ballot start ballot.width
      ⟨grid.held.rightpad stop 0, grid.tallies.rightpad stop Tally.empty⟩
    placeCells? stop grid rest

theorem placeCells?_eq_some {grid : Grid α} {column : Nat} (row : List Ballot)
    (h : column ≤ grid.held.length) (hlevel : grid.Level) :
    grid.placeCells? column row = some (grid.placeCells column row) ∧
      (grid.placeCells column row).Level := by
  induction row generalizing grid column with
  | nil => exact ⟨rfl, hlevel⟩
  | cons ballot rest ih =>
      have hstart := firstFree_le h
      -- the next cell starts behind this one, where the columns that are held still reach
      have hstop : firstFree grid.held column + ballot.width ≤
          (hold grid.held (firstFree grid.held column) ballot).length := by
        rw [hold, List.length_append, List.length_append, List.length_take_of_le hstart,
          List.length_replicate]
        omega
      obtain ⟨hrest, hafter⟩ := ih hstop (level_hold_castAt hstart hlevel ballot)
      refine ⟨?_, hafter⟩
      rw [placeCells?, fill?_rightpad hstart hlevel]
      exact hrest

def placeRow? (grid : Grid α) (row : List Ballot) : Option (Grid α) := do
  let grid ← grid.placeCells? 0 row
  return { grid with held := grid.held.map (· - 1) }

theorem placeRow?_eq_some {grid : Grid α} (hlevel : grid.Level) (row : List Ballot) :
    grid.placeRow? row = some (grid.placeRow row) ∧ (grid.placeRow row).Level := by
  obtain ⟨hcells, hafter⟩ := placeCells?_eq_some row (Nat.zero_le _) hlevel
  refine ⟨by rw [placeRow?, hcells]; rfl, ?_⟩
  unfold Level placeRow at *
  rwa [List.length_map]

end Grid

/-! ## Sections -/

def tallySection? (tallies : List (Tally α)) (rows : List (List Ballot)) :
    Option (List (Tally α)) := do
  return (← rows.foldlM Grid.placeRow? { tallies }).tallies

theorem tallySection?_eq_some (tallies : List (Tally α)) (rows : List (List Ballot)) :
    tallySection? tallies rows = some (tallySection tallies rows) := by
  have hrows (grid : Grid α) (hlevel : grid.Level) :
      rows.foldlM Grid.placeRow? grid = some (rows.foldl Grid.placeRow grid) := by
    induction rows generalizing grid with
    | nil => rfl
    | cons row rest ih =>
        obtain ⟨hrow, hafter⟩ := Grid.placeRow?_eq_some hlevel row
        rw [List.foldlM_cons, hrow]
        exact ih _ hafter
  rw [tallySection?, hrows { tallies } (Nat.zero_le _)]
  rfl

/-- One alignment per column, with the votes cast by index. -/
def alignmentsBy? (α : Type) [Weight α] (sections : List (List Row)) :
    Option (List Pandoc.Alignment) := do
  let tallies : List (Tally α) ← (sections.map ballotsOf).foldlM tallySection? []
  return tallies.map Tally.winner

/-- Counting the votes makes no read or write out of range: with every one checked it still has
a result, and the same one. -/
theorem alignmentsBy?_eq_some (α : Type) [Weight α] (sections : List (List Row)) :
    alignmentsBy? α sections = some (alignmentsBy α sections) := by
  have hsections (tallies : List (Tally α)) (ballots : List (List (List Ballot))) :
      ballots.foldlM tallySection? tallies = some (ballots.foldl tallySection tallies) := by
    induction ballots generalizing tallies with
    | nil => rfl
    | cons rows rest ih =>
        rw [List.foldlM_cons, tallySection?_eq_some]
        exact ih _
  rw [alignmentsBy?, hsections]
  rfl

/-! ## Bare rows -/

/-- The first elements and the others, if there are as many as are to be split off. -/
def splitOff? {β : Type} (count : Nat) (l : List β) : Option (List β × List β) :=
  if count ≤ l.length then some (l.splitAt count) else none

namespace Export

theorem headerRows_le (attrs : Attributes) (rows : Nat) : headerRows attrs rows ≤ rows :=
  Nat.min_le_right ..

/-- The sections of bare rows, split off behind the rows of the head. -/
def TableSections.ofRows? (rowHeadColumns : Int) (headerRows : Nat) (rows : List Row) :
    Option TableSections := do
  let (head, body) ← splitOff? headerRows rows
  return { head := ⟨{}, head⟩, bodies := [⟨{}, rowHeadColumns, [], body⟩] }

theorem TableSections.ofRows?_eq_some {headerRows : Nat} {rows : List Row}
    (h : headerRows ≤ rows.length) (rowHeadColumns : Int) :
    ofRows? rowHeadColumns headerRows rows = some (ofRows rowHeadColumns headerRows rows) := by
  rw [ofRows?, splitOff?, if_pos h, List.splitAt_eq]
  rfl

end Export

end RichDoc
