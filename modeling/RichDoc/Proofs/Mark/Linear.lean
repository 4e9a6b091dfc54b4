import RichDoc.Proofs.Mark.Registered

/-!
# Linear orders of marks

A priority may compare marks as it likes. Most of what is said about cuts
needs it to order the registered marks linearly: comparing the other way
round gives the opposite answer, being higher is transitive, and no two
different marks are level. A priority that goes by a rank, and by the order
of registration where ranks are equal, does so in every registry that was
built by looking marks up.
-/

namespace RichDoc

/-- The order is linear on the marks below a number. -/
structure LinearBelow (order : Nat → Nat → Ordering) (size : Nat) : Prop where
  swap : ∀ a < size, ∀ b < size, order b a = (order a b).swap
  eq : ∀ a < size, ∀ b < size, order a b = .eq → a = b
  trans : ∀ a < size, ∀ b < size, ∀ c < size,
    order a b = .gt → order b c = .gt → order a c = .gt

namespace LinearBelow

variable {order : Nat → Nat → Ordering} {size a b : Nat}

theorem gt_of_lt (h : LinearBelow order size) (ha : a < size) (hb : b < size)
    (hlt : order a b = .lt) : order b a = .gt := by
  rw [h.swap a ha b hb, hlt]
  rfl

/-- Of two different marks, the one that is not lower is higher. -/
theorem gt_of_ne (h : LinearBelow order size) (ha : a < size) (hb : b < size) (hne : a ≠ b)
    (hlt : order a b ≠ .lt) : order a b = .gt := by
  cases hab : order a b with
  | lt => exact absurd hab hlt
  | eq => exact absurd (h.eq a ha b hb hab) hne
  | gt => rfl

end LinearBelow

/-! ## Priorities by rank -/

namespace Registry

variable {registry : Registry} {a b : Nat} {first second : Entry}

theorem compare_of_entries (priority : Priority) (ha : registry.entry? a = some first)
    (hb : registry.entry? b = some second) :
    registry.compare priority a b = priority.compare first second := by
  unfold compare
  rw [ha, hb]

theorem exists_entry? (h : a < registry.size) : ∃ entry, registry.entry? a = some entry :=
  ⟨registry.entries[a], Array.getElem?_eq_getElem h⟩

theorem Sound.index_eq (h : registry.Sound) (ha : registry.entry? a = some first) :
    first.index = a := by
  obtain ⟨mark, rfl, -⟩ := h a first ha
  rfl

/-- By rank and then by the order of registration, registered marks are ordered linearly. -/
theorem Sound.linearBelow_ofRank (h : registry.Sound) (rank : Entry → Nat) :
    LinearBelow (registry.compare (.ofRank rank)) registry.size := by
  have hcompare {a b : Nat} {first second : Entry} (ha : registry.entry? a = some first)
      (hb : registry.entry? b = some second) : registry.compare (.ofRank rank) a b =
        (Ord.compare (rank first) (rank second)).then (Ord.compare b a) := by
    rw [compare_of_entries _ ha hb, ← h.index_eq ha, ← h.index_eq hb]
    rfl
  refine ⟨?swap, ?eq, ?trans⟩
  case swap =>
      intro a ha b hb
      obtain ⟨first, hfirst⟩ := exists_entry? ha
      obtain ⟨second, hsecond⟩ := exists_entry? hb
      rw [hcompare hfirst hsecond, hcompare hsecond hfirst, Ordering.swap_then,
        Nat.compare_swap, Nat.compare_swap]
  case eq =>
      intro a ha b hb heq
      obtain ⟨first, hfirst⟩ := exists_entry? ha
      obtain ⟨second, hsecond⟩ := exists_entry? hb
      rw [hcompare hfirst hsecond, Ordering.then_eq_eq] at heq
      exact (Nat.compare_eq_eq.mp heq.2).symm
  case trans =>
      intro a ha b hb c hc hab hbc
      obtain ⟨first, hfirst⟩ := exists_entry? ha
      obtain ⟨second, hsecond⟩ := exists_entry? hb
      obtain ⟨third, hthird⟩ := exists_entry? hc
      rw [hcompare hfirst hsecond, Ordering.then_eq_gt, Nat.compare_eq_gt, Nat.compare_eq_eq,
        Nat.compare_eq_gt] at hab
      rw [hcompare hsecond hthird, Ordering.then_eq_gt, Nat.compare_eq_gt, Nat.compare_eq_eq,
        Nat.compare_eq_gt] at hbc
      rw [hcompare hfirst hthird, Ordering.then_eq_gt, Nat.compare_eq_gt, Nat.compare_eq_eq,
        Nat.compare_eq_gt]
      omega

end Registry

end RichDoc
