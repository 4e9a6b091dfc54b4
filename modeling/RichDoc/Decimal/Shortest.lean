import RichDoc.Decimal.Magnitude

/-!
# The shortest decimal that reads back

A double is printed with the fewest significant digits that still read
back as it. On the grid of decimals with a fixed last place only the two
neighbours of the value can be nearest to it, so the search tries those
two on the grids of one digit, two digits, and so on, and takes the
first grid with a hit.

Every answer reads back (`readsAs_shortest`), the exact expansion
included, which stands in where no grid of up to seventeen digits hits.
-/

namespace RichDoc.Decimal

/-- Which of two equally near decimals is taken. -/
inductive Tie where
  | toEven
  | up
deriving DecidableEq, Repr

/-- The power of ten at which the value at place `b` has its leading digit. -/
def leadingPower (b : Nat) : Int :=
  (Nat.toDigits 10 (magnitude b * power 10 324 / unitsInOne)).length - 325

/-- How many whole steps of `10 ^ e` fit below the value at place `b`. -/
def stepsBelow (b : Nat) (e : Int) : Nat :=
  magnitude b * power 10 (-e).toNat / (unitsInOne * power 10 e.toNat)

/-- The value at place `b` lies nearer to the step above it than to the one below. -/
def nearerAbove (tie : Tie) (b : Nat) (e : Int) : Bool :=
  let twice := 2 * magnitude b * power 10 (-e).toNat
  let middle := (2 * stepsBelow b e + 1) * (unitsInOne * power 10 e.toNat)
  twice > middle
    || (twice == middle && match tie with
      | .up => true
      | .toEven => stepsBelow b e % 2 == 1)

/-- The nearest multiple of `10 ^ e` that reads back as the double at place `b`. -/
def onGrid (tie : Tie) (b : Nat) (e : Int) : Option Scaled :=
  let low : Scaled := ⟨stepsBelow b e, e⟩
  let high : Scaled := ⟨stepsBelow b e + 1, e⟩
  let choices := if nearerAbove tie b e then [high, low] else [low, high]
  choices.find? (ReadsAs · b)

/-- Every digit of the value at place `b`. -/
def expansion (b : Nat) : Scaled :=
  ⟨magnitude b * power 5 1074, -((1074 : Nat) : Int)⟩

/-- The shortest decimal that reads back as the double at place `b`. -/
def shortest (tie : Tie) (b : Nat) : Scaled :=
  ((List.range 17).findSome? fun (n : Nat) => onGrid tie b (leadingPower b - n)).getD (expansion b)

theorem readsAs_of_onGrid {tie : Tie} {b : Nat} {e : Int} {x : Scaled}
    (h : onGrid tie b e = some x) : ReadsAs x b := by
  simpa using List.find?_some h

theorem readsAs_of_value {x : Scaled} {b : Nat} (h : x.num = magnitude b * x.den) :
    ReadsAs x b := by
  have hden := x.den_pos
  have twice : 2 * x.num = (magnitude b + magnitude b) * x.den := by
    rw [h, ← Nat.two_mul, Nat.mul_assoc]
  have upper := Nat.mul_lt_mul_of_pos_right
    (Nat.add_lt_add_left (magnitude_lt_succ b) (magnitude b)) hden
  refine ⟨?_, Or.inl (by rw [twice]; exact upper)⟩
  rcases Nat.eq_zero_or_pos b with rfl | hb
  · exact Or.inr ⟨twice.symm, rfl⟩
  · have step : magnitude (b - 1) < magnitude b := magnitude_strictMono (by omega)
    rw [twice]
    exact Or.inl (Nat.mul_lt_mul_of_pos_right (Nat.add_lt_add_right step _) hden)

private theorem num_neg (d n : Nat) : (Scaled.mk d (-(n : Int))).num = d * unitsInOne := by
  show d * power 10 (-(n : Int)).toNat * unitsInOne = d * unitsInOne
  rw [show (-(n : Int)).toNat = 0 by omega, power_zero, Nat.mul_one]

private theorem den_neg (d n : Nat) : (Scaled.mk d (-(n : Int))).den = power 10 n := by
  show power 10 (-(-(n : Int))).toNat = power 10 n
  rw [show (-(-(n : Int))).toNat = n by omega]

theorem readsAs_expansion (b : Nat) : ReadsAs (expansion b) b := by
  apply readsAs_of_value
  unfold expansion
  rw [num_neg, den_neg, unitsInOne, Nat.mul_assoc, power_mul_power]

theorem readsAs_shortest (tie : Tie) (b : Nat) : ReadsAs (shortest tie b) b := by
  unfold shortest
  cases h : (List.range 17).findSome? fun (n : Nat) => onGrid tie b (leadingPower b - n) with
  | none => exact readsAs_expansion b
  | some x =>
    obtain ⟨n, -, hn⟩ := List.exists_of_findSome?_eq_some h
    exact readsAs_of_onGrid hn

end RichDoc.Decimal
