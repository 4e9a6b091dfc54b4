import Mathlib.Algebra.BigOperators.Group.List.Basic
import Mathlib.Algebra.Order.BigOperators.Group.List
import Mathlib.Algebra.Order.Field.Rat
import Mathlib.Tactic.FieldSimp
import Mathlib.Tactic.Linarith
import Mathlib.Tactic.Positivity
import Mathlib.Tactic.Ring
import RichDoc.Proofs.Table.Places

/-!
# What the votes say

With votes counted in rational numbers the tally of a column can be said
without the walk over the grid: every cell that stands in the column has
given it an equal share of its vote (`Counts.tallyVotes`), and there are as
many columns as the cells reach (`length_tallyVotes`). Neither depends on
the order of the sections, so the alignments do not either.

Whatever is read off a tally and counts the votes for some of the
alignments changes in the same way when a vote is cast (`Counts`). The
votes for one alignment are such a count, and so are all votes.
-/

namespace RichDoc

open Pandoc (Cell Row)

/-! ## Columns of tallies -/

section

variable {α : Type} [Weight α] {tallies : List (Tally α)}

/-- The tally of a column. Behind the last column no vote has been cast. -/
def tallyAt (tallies : List (Tally α)) (column : Nat) : Tally α := tallies[column]?.getD .empty

theorem tallyAt_castIn (alignment : Pandoc.Alignment) (share : α) (width : Nat)
    (tallies : List (Tally α)) (column : Nat) :
    tallyAt (castIn alignment share width tallies) column =
      if column < width then (tallyAt tallies column).cast alignment share
      else tallyAt tallies column := by
  induction width generalizing tallies column with
  | zero => rfl
  | succ width ih =>
      cases tallies with
      | nil =>
          cases column with
          | zero => rfl
          | succ column => simpa [tallyAt, castIn] using ih [] column
      | cons tally rest =>
          cases column with
          | zero => rfl
          | succ column => simpa [tallyAt, castIn] using ih rest column

variable {place : Place}

theorem tallyAt_vote (h : place.column ≤ tallies.length) (column : Nat) :
    tallyAt (vote tallies place) column =
      if place.Spans column then
        (tallyAt tallies column).cast place.ballot.alignment (Weight.share place.ballot.width)
      else tallyAt tallies column := by
  have hlength := List.length_take_of_le h
  by_cases hlt : column < place.column
  · have hleft : column < (tallies.take place.column).length := by rwa [hlength]
    rw [if_neg fun hspans => Nat.not_le_of_lt hlt hspans.1, tallyAt, vote, castAt,
      List.getElem?_append_left hleft, List.getElem?_take_of_lt hlt, tallyAt]
  · have hle := Nat.le_of_not_lt hlt
    have hright : (tallies.take place.column).length ≤ column := by rwa [hlength]
    have hdrop : tallyAt (tallies.drop place.column) (column - place.column) =
        tallyAt tallies column := by
      rw [tallyAt, List.getElem?_drop, Nat.add_sub_cancel' hle, tallyAt]
    have hbehind : tallyAt (vote tallies place) column =
        tallyAt (castIn place.ballot.alignment (Weight.share place.ballot.width)
          place.ballot.width (tallies.drop place.column)) (column - place.column) := by
      rw [tallyAt, vote, castAt, List.getElem?_append_right hright, hlength, tallyAt]
    have hspans : column - place.column < place.ballot.width ↔ place.Spans column := by
      unfold Place.Spans Place.stop
      omega
    rw [hbehind, tallyAt_castIn, hdrop]
    exact if_congr hspans rfl rfl

theorem length_vote (h : place.column ≤ tallies.length) :
    (vote tallies place).length = max tallies.length place.stop := by
  rw [vote, castAt, List.length_append, List.length_take_of_le h, length_castIn, List.length_drop,
    Place.stop]
  omega

end

/-! ## The last column -/

/-- The end column that some cell reaches and no cell exceeds. -/
def reach (placed : List Place) : Nat := (placed.map Place.stop).foldr max 0

theorem reach_append (placed more : List Place) :
    reach (placed ++ more) = max (reach placed) (reach more) := by
  induction placed with
  | nil => exact (Nat.zero_max _).symm
  | cons place rest ih =>
      have hcons (l : List Place) : reach (place :: l) = max place.stop (reach l) := rfl
      rw [List.cons_append, hcons, ih, hcons, Nat.max_assoc]

theorem reach_singleton (place : Place) : reach [place] = place.stop := Nat.max_zero _

theorem reach_perm {placed other : List Place} (h : placed.Perm other) :
    reach placed = reach other := by
  have : LeftCommutative (max : Nat → Nat → Nat) := ⟨Nat.max_left_comm⟩
  exact (h.map Place.stop).foldr_eq 0

namespace Layout.Laid

variable {column : Nat} {layout : Layout}

theorem length_held (h : Laid column layout) : layout.held.length = reach layout.placed := by
  induction h with
  | start => rfl
  | @cell column layout before ballot ih =>
      have hstart := Grid.firstFree_le before.le_length
      rw [put, reach_append, reach_singleton, ← ih, hold, List.length_append, List.length_append,
        List.length_take_of_le hstart, List.length_replicate, List.length_drop, Place.stop]
      dsimp only
      omega
  | row before ih =>
      rw [nextRow, List.length_map]
      exact ih

variable {α : Type} [Weight α]

/-- A cell begins where there is a column, or right behind the last one. -/
theorem length_foldl_vote (h : Laid column layout) (tallies : List (Tally α)) :
    (layout.placed.foldl vote tallies).length = max tallies.length (reach layout.placed) := by
  induction h with
  | start => exact (Nat.max_zero _).symm
  | @cell column layout before ballot ih =>
      have hstart := Grid.firstFree_le before.le_length
      rw [before.length_held] at hstart
      have hfits := Nat.le_trans hstart (Nat.le_max_right tallies.length _)
      rw [← ih] at hfits
      rw [put, List.foldl_append, List.foldl_cons, List.foldl_nil, length_vote hfits, ih,
        reach_append, reach_singleton, Nat.max_assoc]
  | row before ih => exact ih

end Layout.Laid

theorem length_tallySection {α : Type} [Weight α] (tallies : List (Tally α))
    (rows : List (List Ballot)) :
    (tallySection tallies rows).length = max tallies.length (reach (places rows)) := by
  rw [tallySection_eq_foldl_vote]
  exact (laid_places rows).length_foldl_vote tallies

/-- The columns of all sections are as many as the cells reach. -/
theorem length_tallyVotes {α : Type} [Weight α] (sections : List (List (List Ballot))) :
    (tallyVotes sections : List (Tally α)).length = reach (sections.flatMap places) := by
  have hsections (tallies : List (Tally α)) : (sections.foldl tallySection tallies).length =
      max tallies.length (reach (sections.flatMap places)) := by
    induction sections generalizing tallies with
    | nil => exact (Nat.max_zero _).symm
    | cons rows rest ih =>
        rw [List.foldl_cons, ih, length_tallySection, List.flatMap_cons, reach_append,
          Nat.max_assoc]
  rw [tallyVotes, hsections, List.length_nil, Nat.zero_max]

/-! ## Counting votes -/

/-- A number that is read off tallies and counts the votes for some of the alignments. -/
structure Counts (count : Tally Rat → Rat) (among : Pandoc.Alignment → Bool) : Prop where
  empty : count .empty = 0
  cast : ∀ tally alignment vote,
    count (tally.cast alignment vote) = count tally + if among alignment then vote else 0

theorem counts_votes (alignment : Pandoc.Alignment) :
    Counts (fun tally => tally.votes alignment) (· == alignment) where
  empty := by cases alignment <;> rfl
  cast tally other vote := by
    cases other <;> cases alignment <;> simp [Tally.cast, Tally.votes, Weight.add]

theorem total_eq (tally : Tally Rat) :
    tally.total = tally.left + tally.right + tally.center + tally.default := by
  rw [Tally.total]
  exact congrArg (· + tally.right + tally.center + tally.default) (zero_add tally.left)

theorem counts_total : Counts Tally.total fun _ => true where
  empty := by simp [total_eq, Tally.empty, Weight.none]
  cast tally alignment vote := by
    rw [total_eq, total_eq, if_pos rfl]
    cases alignment <;> simp only [Tally.cast, Weight.add] <;> ring

/-- The votes for some of the alignments in a column: every cell that stands in the column gives
the same share of its vote to each of its columns. -/
def votesAmong (among : Pandoc.Alignment → Bool) (column : Nat) (placed : List Place) : Rat :=
  ((placed.filter fun place => among place.ballot.alignment && place.Spans column).map
    fun place => 1 / (place.ballot.width : Rat)).sum

section

variable {among : Pandoc.Alignment → Bool} {column : Nat} {placed other : List Place}

theorem votesAmong_append (placed more : List Place) :
    votesAmong among column (placed ++ more) =
      votesAmong among column placed + votesAmong among column more := by
  rw [votesAmong, List.filter_append, List.map_append, List.sum_append, votesAmong, votesAmong]

theorem votesAmong_singleton (place : Place) :
    votesAmong among column [place] =
      if among place.ballot.alignment ∧ place.Spans column then 1 / (place.ballot.width : Rat)
      else 0 := by
  by_cases h : among place.ballot.alignment ∧ place.Spans column <;> simp [votesAmong, h]

theorem votesAmong_perm (h : placed.Perm other) :
    votesAmong among column placed = votesAmong among column other :=
  ((h.filter _).map _).sum_eq

theorem votesAmong_nonneg (placed : List Place) : 0 ≤ votesAmong among column placed := by
  refine List.sum_nonneg fun share hshare => ?_
  obtain ⟨place, -, rfl⟩ := List.mem_map.mp hshare
  positivity

end

namespace Counts

variable {count : Tally Rat → Rat} {among : Pandoc.Alignment → Bool}

theorem vote (h : Counts count among) {tallies : List (Tally Rat)} {place : Place}
    (hfits : place.column ≤ tallies.length) (column : Nat) :
    count (tallyAt (RichDoc.vote tallies place) column) =
      count (tallyAt tallies column) + votesAmong among column [place] := by
  rw [tallyAt_vote hfits, votesAmong_singleton]
  by_cases hspans : place.Spans column
  · rw [if_pos hspans, h.cast]
    simp [hspans, Weight.share]
  · rw [if_neg hspans, if_neg (fun hboth => hspans hboth.2), add_zero]

theorem foldl_vote (h : Counts count among) {behind : Nat} {layout : Layout}
    (hlaid : Layout.Laid behind layout) (tallies : List (Tally Rat)) (column : Nat) :
    count (tallyAt (layout.placed.foldl RichDoc.vote tallies) column) =
      count (tallyAt tallies column) + votesAmong among column layout.placed := by
  induction hlaid with
  | start => exact (add_zero _).symm
  | @cell behind layout before ballot ih =>
      have hfits : firstFree layout.held behind ≤
          (layout.placed.foldl RichDoc.vote tallies).length := by
        have := Grid.firstFree_le before.le_length
        rw [before.length_held] at this
        rw [before.length_foldl_vote]
        omega
      rw [Layout.put, List.foldl_append, List.foldl_cons, List.foldl_nil, h.vote hfits, ih,
        votesAmong_append, add_assoc]
  | row before ih => exact ih

/-- A column has got its share of the vote of every cell that stands in it. -/
theorem tallyVotes (h : Counts count among) (sections : List (List (List Ballot))) (column : Nat) :
    count (tallyAt (RichDoc.tallyVotes sections) column) =
      votesAmong among column (sections.flatMap places) := by
  have hsections (tallies : List (Tally Rat)) :
      count (tallyAt (sections.foldl tallySection tallies) column) =
        count (tallyAt tallies column) + votesAmong among column (sections.flatMap places) := by
    induction sections generalizing tallies with
    | nil => exact (add_zero _).symm
    | cons rows rest ih =>
        rw [List.foldl_cons, ih, tallySection_eq_foldl_vote]
        have hrows := h.foldl_vote (laid_places rows) tallies column
        rw [places, hrows, List.flatMap_cons, votesAmong_append, add_assoc, places]
  have hempty : count (tallyAt [] column) = 0 := h.empty
  rw [RichDoc.tallyVotes, hsections, hempty, zero_add]

end Counts

/-! ## The sum over all columns -/

namespace Counts

variable {count : Tally Rat → Rat} {among : Pandoc.Alignment → Bool}

theorem sum_castIn (h : Counts count among) (alignment : Pandoc.Alignment) (share : Rat)
    (width : Nat) (tallies : List (Tally Rat)) :
    ((castIn alignment share width tallies).map count).sum =
      (tallies.map count).sum + if among alignment then width * share else 0 := by
  induction width generalizing tallies with
  | zero => simp [castIn]
  | succ width ih =>
      cases tallies with
      | nil =>
          rw [castIn, List.map_cons, List.sum_cons, ih, h.cast, h.empty]
          split <;> push_cast <;> ring
      | cons tally rest =>
          rw [castIn, List.map_cons, List.sum_cons, ih, h.cast, List.map_cons, List.sum_cons]
          split <;> push_cast <;> ring

/-- A cell casts one vote in all. -/
theorem sum_vote (h : Counts count among) (tallies : List (Tally Rat)) {place : Place}
    (hwidth : 0 < place.ballot.width) :
    ((RichDoc.vote tallies place).map count).sum =
      (tallies.map count).sum + if among place.ballot.alignment then 1 else 0 := by
  have hone : (place.ballot.width : Rat) * Weight.share place.ballot.width = 1 :=
    mul_one_div_cancel (Nat.cast_ne_zero.mpr hwidth.ne')
  rw [RichDoc.vote, castAt, List.map_append, List.sum_append, h.sum_castIn, hone, ← add_assoc,
    ← List.sum_append, ← List.map_append, List.take_append_drop]

theorem sum_foldl_vote (h : Counts count among) (tallies : List (Tally Rat)) {placed : List Place}
    (hwidth : ∀ place ∈ placed, 0 < place.ballot.width) :
    ((placed.foldl RichDoc.vote tallies).map count).sum =
      (tallies.map count).sum + (placed.countP fun place => among place.ballot.alignment) := by
  induction placed generalizing tallies with
  | nil => simp
  | cons place rest ih =>
      obtain ⟨hplace, hrest⟩ := List.forall_mem_cons.mp hwidth
      rw [List.foldl_cons, ih _ hrest, h.sum_vote tallies hplace, List.countP_cons]
      split <;> push_cast <;> ring

end Counts

/-- Columns in which votes were cast keep their votes, and new ones get some. -/
theorem total_pos_castIn (alignment : Pandoc.Alignment) {share : Rat} (hshare : 0 < share)
    (width : Nat) {tallies : List (Tally Rat)} (h : ∀ tally ∈ tallies, 0 < tally.total) :
    ∀ tally ∈ castIn alignment share width tallies, 0 < tally.total := by
  induction width generalizing tallies with
  | zero => exact h
  | succ width ih =>
      cases tallies with
      | nil =>
          refine List.forall_mem_cons.mpr ⟨?_, ih nofun⟩
          rw [counts_total.cast, counts_total.empty]
          simpa using hshare
      | cons tally rest =>
          obtain ⟨htally, hrest⟩ := List.forall_mem_cons.mp h
          refine List.forall_mem_cons.mpr ⟨?_, ih hrest⟩
          rw [counts_total.cast, if_pos rfl]
          exact add_pos htally hshare

theorem total_pos_foldl_vote {placed : List Place}
    (hwidth : ∀ place ∈ placed, 0 < place.ballot.width) {tallies : List (Tally Rat)}
    (h : ∀ tally ∈ tallies, 0 < tally.total) :
    ∀ tally ∈ placed.foldl vote tallies, 0 < tally.total := by
  induction placed generalizing tallies with
  | nil => exact h
  | cons place rest ih =>
      obtain ⟨hplace, hrest⟩ := List.forall_mem_cons.mp hwidth
      refine ih hrest (List.forall_mem_append.mpr ⟨fun tally hmem => ?_, ?_⟩)
      · exact h tally (List.mem_of_mem_take hmem)
      · refine total_pos_castIn _ ?_ _ fun tally hmem => h tally (List.mem_of_mem_drop hmem)
        exact one_div_pos.mpr (Nat.cast_pos.mpr hplace)

theorem tallyVotes_eq_foldl_vote {α : Type} [Weight α] (sections : List (List (List Ballot))) :
    (tallyVotes sections : List (Tally α)) = (sections.flatMap places).foldl vote [] := by
  rw [tallyVotes, List.foldl_flatMap]
  congr 1
  funext tallies rows
  exact tallySection_eq_foldl_vote tallies rows

/-! ## Tables -/

/-- The cells of a table, each placed on the grid of its section. -/
def placesOf (sections : List (List Row)) : List Place := (sections.map ballotsOf).flatMap places

theorem width_pos_of_mem_placesOf {sections : List (List Row)} {place : Place}
    (h : place ∈ placesOf sections) : 0 < place.ballot.width := by
  rw [placesOf, List.flatMap_map] at h
  obtain ⟨rows, -, hplace⟩ := List.mem_flatMap.mp h
  exact (pos_of_mem_places hplace).1

theorem map_ballot_placesOf (sections : List (List Row)) :
    (placesOf sections).map Place.ballot =
      (sections.flatten.flatMap Row.cells).map Ballot.ofCell := by
  induction sections with
  | nil => rfl
  | cons rows rest ih =>
      have hrows : (ballotsOf rows).flatten = (rows.flatMap Row.cells).map Ballot.ofCell := by
        rw [List.map_flatMap, List.flatMap_def]
        rfl
      have hcons : placesOf (rows :: rest) = places (ballotsOf rows) ++ placesOf rest := rfl
      rw [hcons, List.map_append, ih, map_ballot_places, hrows, List.flatten_cons,
        List.flatMap_append, List.map_append]

/-- **Votes are conserved.** Over all columns, the votes for an alignment add up to the number of
cells with that alignment, however wide they are. Votes were cast in every column, and there are as
many columns as the cell that ends furthest right reaches. -/
theorem sum_votes_tallyVotes (sections : List (List Row)) :
    let tallies : List (Tally Rat) := tallyVotes (sections.map ballotsOf)
    let cells := sections.flatten.flatMap Row.cells
    (∀ alignment, (tallies.map fun tally => tally.votes alignment).sum =
      cells.countP fun cell => cell.alignment = alignment) ∧
    (∀ tally ∈ tallies, 0 < tally.total) ∧
    (alignmentsBy Rat sections).length = reach (placesOf sections) := by
  intro tallies cells
  have hvotes : tallies = (placesOf sections).foldl vote [] := tallyVotes_eq_foldl_vote _
  have hwidth : ∀ place ∈ placesOf sections, 0 < place.ballot.width :=
    fun place => width_pos_of_mem_placesOf
  refine ⟨fun alignment => ?_, ?_, ?_⟩
  · have hcells : ((placesOf sections).countP fun place => place.ballot.alignment == alignment) =
        cells.countP fun cell => cell.alignment = alignment := by
      have hballots := congrArg (List.countP fun ballot => ballot.alignment == alignment)
        (map_ballot_placesOf sections)
      rw [List.countP_map, List.countP_map] at hballots
      exact hballots
    rw [hvotes, (counts_votes alignment).sum_foldl_vote [] hwidth, hcells]
    exact zero_add _
  · rw [hvotes]
    exact total_pos_foldl_vote hwidth nofun
  · rw [alignmentsBy, List.length_map]
    exact length_tallyVotes _

/-- A head that is three columns wide over a body in which a cell of two rows stands next to a
column of its own, and whose last cell moves behind it. -/
theorem sum_votes_tallyVotes_two :
    let cell (alignment : Pandoc.Alignment) (colSpan rowSpan : Int) : Cell :=
      ⟨{}, alignment, rowSpan, colSpan, []⟩
    let sections : List (List Row) :=
      [[⟨{}, [cell .left 3 1]⟩],
       [⟨{}, [cell .right 0 2, cell .center 1 (-1)]⟩, ⟨{}, [cell .left 3 1]⟩]]
    let tallies : List (Tally Rat) := tallyVotes (sections.map ballotsOf)
    (tallies.map fun tally => tally.votes .left).sum = 2 ∧
      (∃ tally, tallies[3]? = some tally ∧ 0 < tally.total) ∧
      (alignmentsBy Rat sections).length = 4 := by
  intro cell sections tallies
  obtain ⟨hsum, hpos, hlength⟩ := sum_votes_tallyVotes sections
  have hreach : reach (placesOf sections) = 4 := by decide
  have hlast : 3 < tallies.length := by
    rw [hreach, alignmentsBy, List.length_map] at hlength
    exact hlength ▸ Nat.lt_succ_self 3
  refine ⟨hsum .left, ⟨tallies[3], List.getElem?_eq_getElem hlast, ?_⟩, hlength.trans hreach⟩
  exact hpos _ (List.getElem_mem hlast)

/-! ## Majorities -/

/-- The votes for an alignment in a column. -/
def votesFor (alignment : Pandoc.Alignment) (column : Nat) (placed : List Place) : Rat :=
  votesAmong (· == alignment) column placed

/-- All votes in a column. -/
def votesIn (column : Nat) (placed : List Place) : Rat :=
  votesAmong (fun _ => true) column placed

section

variable {tally : Tally Rat} {alignment other : Pandoc.Alignment}

theorem votes_add_votes_le_total (h : ∀ alignment, 0 ≤ tally.votes alignment)
    (hne : alignment ≠ other) : tally.votes alignment + tally.votes other ≤ tally.total := by
  have hleft : 0 ≤ tally.left := h .left
  have hright : 0 ≤ tally.right := h .right
  have hcenter : 0 ≤ tally.center := h .center
  have hdefault : 0 ≤ tally.default := h .default
  rw [total_eq]
  cases alignment <;> cases other
  case left.left | right.right | center.center | default.default => exact absurd rfl hne
  all_goals
    simp only [Tally.votes]
    linarith

/-- At most one alignment has more than half of the votes. -/
theorem eq_of_majority (h : ∀ alignment, 0 ≤ tally.votes alignment)
    (ha : tally.total / 2 < tally.votes alignment) (hb : tally.total / 2 < tally.votes other) :
    alignment = other := by
  by_contra hne
  have := votes_add_votes_le_total h hne
  linarith

theorem winner_eq_iff (h : ∀ alignment, 0 ≤ tally.votes alignment) (hne : alignment ≠ .default) :
    tally.winner = alignment ↔ tally.total / 2 < tally.votes alignment := by
  have hexceeds (a : Pandoc.Alignment) : Weight.exceedsHalf (tally.votes a) tally.total = true ↔
      tally.total / 2 < tally.votes a := decide_eq_true_iff
  rw [Tally.winner]
  cases hfound : [Pandoc.Alignment.left, .right, .center, .default].find? fun a =>
    Weight.exceedsHalf (tally.votes a) tally.total with
  | some found =>
      have hmajority := (hexceeds found).mp (by simpa using List.find?_some hfound)
      exact ⟨fun heq => heq ▸ hmajority, fun hother => eq_of_majority h hmajority hother⟩
  | none =>
      refine iff_of_false (fun hdefault => hne hdefault.symm) fun hmajority => ?_
      have hmem : alignment ∈ [Pandoc.Alignment.left, .right, .center, .default] := by
        cases alignment <;> decide
      exact List.find?_eq_none.mp hfound alignment hmem ((hexceeds alignment).mpr hmajority)

theorem Tally.ext_votes {one other : Tally Rat} (h : ∀ a, one.votes a = other.votes a) :
    one = other := by
  cases one
  cases other
  exact Tally.mk.injEq .. |>.mpr ⟨h .left, h .right, h .center, h .default⟩

end

section

variable (sections : List (List Row)) (column : Nat)

theorem votes_tallyAt (alignment : Pandoc.Alignment) :
    (tallyAt (tallyVotes (sections.map ballotsOf)) column).votes alignment =
      votesFor alignment column (placesOf sections) :=
  (counts_votes alignment).tallyVotes _ column

theorem total_tallyAt :
    (tallyAt (tallyVotes (sections.map ballotsOf)) column).total =
      votesIn column (placesOf sections) :=
  counts_total.tallyVotes _ column

end

/-- The tallies do not depend on the order of the sections. -/
theorem tallyVotes_perm {sections reordered : List (List Row)} (h : reordered.Perm sections) :
    (tallyVotes (reordered.map ballotsOf) : List (Tally Rat)) =
      tallyVotes (sections.map ballotsOf) := by
  have hplaces : (placesOf reordered).Perm (placesOf sections) := (h.map ballotsOf).flatMap_right _
  have hlength : (tallyVotes (reordered.map ballotsOf) : List (Tally Rat)).length =
      (tallyVotes (sections.map ballotsOf) : List (Tally Rat)).length := by
    rw [length_tallyVotes, length_tallyVotes]
    exact reach_perm hplaces
  refine List.ext_getElem hlength fun column hr hs => ?_
  have htally : tallyAt (tallyVotes (reordered.map ballotsOf)) column =
      tallyAt (tallyVotes (sections.map ballotsOf)) column :=
    Tally.ext_votes fun alignment => by
      rw [votes_tallyAt, votes_tallyAt]
      exact votesAmong_perm hplaces
  rwa [tallyAt, tallyAt, List.getElem?_eq_getElem hr, List.getElem?_eq_getElem hs] at htally

/-- **A column is aligned by strict majority.** A column has an alignment other than the default
just when the cells that stand in it give more than half of its votes to that alignment. At most
one alignment gets as many, and the order of the sections does not matter. -/
theorem alignmentsBy_eq_majority (sections : List (List Row)) :
    (∀ column alignment, alignment ≠ .default →
      ((alignmentsBy Rat sections)[column]? = some alignment ↔
        votesIn column (placesOf sections) / 2 < votesFor alignment column (placesOf sections))) ∧
    (∀ column alignment other,
      votesIn column (placesOf sections) / 2 < votesFor alignment column (placesOf sections) →
      votesIn column (placesOf sections) / 2 < votesFor other column (placesOf sections) →
      alignment = other) ∧
    ∀ reordered, reordered.Perm sections →
      alignmentsBy Rat reordered = alignmentsBy Rat sections := by
  have hnonneg (column : Nat) (alignment : Pandoc.Alignment) :
      (0 : Rat) ≤ (tallyAt (tallyVotes (sections.map ballotsOf)) column).votes alignment := by
    rw [votes_tallyAt]
    exact votesAmong_nonneg _
  refine ⟨fun column alignment hne => ?_, fun column alignment other => ?_,
    fun reordered h => congrArg (List.map Tally.winner) (tallyVotes_perm h)⟩
  · have hcolumn := hnonneg column
    rw [← total_tallyAt, ← votes_tallyAt, alignmentsBy, List.getElem?_map]
    unfold tallyAt at *
    cases htally : (tallyVotes (sections.map ballotsOf) : List (Tally Rat))[column]? with
    | some tally =>
        rw [htally] at hcolumn
        exact Option.some_inj.trans (winner_eq_iff hcolumn hne)
    | none =>
        have hempty := (counts_votes alignment).empty
        rw [Option.getD_none, counts_total.empty, hempty, zero_div]
        exact iff_of_false nofun (lt_irrefl 0)
  · rw [← total_tallyAt, ← votes_tallyAt, ← votes_tallyAt]
    exact eq_of_majority (hnonneg column)

/-- In the second column a third of the vote of a wide cell stands against one and a half for the
center, whichever section comes first. -/
theorem alignmentsBy_eq_majority_two :
    let cell (alignment : Pandoc.Alignment) (colSpan rowSpan : Int) : Cell :=
      ⟨{}, alignment, rowSpan, colSpan, []⟩
    let head : List Row := [⟨{}, [cell .left 3 1]⟩]
    let body : List Row :=
      [⟨{}, [cell .right 1 2, cell .center 1 1]⟩, ⟨{}, [cell .center 2 1]⟩]
    Pandoc.Alignment.center ≠ .default ∧
      votesIn 1 (placesOf [head, body]) / 2 < votesFor .center 1 (placesOf [head, body]) ∧
      (alignmentsBy Rat [head, body])[1]? = some .center ∧
      (∀ other, votesIn 1 (placesOf [head, body]) / 2 <
        votesFor other 1 (placesOf [head, body]) → other = .center) ∧
      alignmentsBy Rat [body, head] = alignmentsBy Rat [head, body] := by
  intro cell head body
  obtain ⟨hwinner, hunique, horder⟩ := alignmentsBy_eq_majority [head, body]
  have hplaces : placesOf [head, body] =
      [⟨0, 0, ⟨.left, 3, 1⟩⟩, ⟨0, 0, ⟨.right, 1, 2⟩⟩, ⟨0, 1, ⟨.center, 1, 1⟩⟩,
        ⟨1, 1, ⟨.center, 2, 1⟩⟩] := by decide
  have hmajority :
      votesIn 1 (placesOf [head, body]) / 2 < votesFor .center 1 (placesOf [head, body]) := by
    have hall : votesIn 1 (placesOf [head, body]) =
        ([3, 1, 2].map fun width : Nat => 1 / (width : Rat)).sum := by
      rw [hplaces]
      rfl
    have hcenter : votesFor .center 1 (placesOf [head, body]) =
        ([1, 2].map fun width : Nat => 1 / (width : Rat)).sum := by
      rw [hplaces]
      rfl
    norm_num [hall, hcenter]
  refine ⟨nofun, hmajority, (hwinner 1 .center nofun).mpr hmajority,
    fun other hother => hunique 1 other .center hother hmajority, ?_⟩
  exact horder [body, head] (List.Perm.swap head body [])

end RichDoc
