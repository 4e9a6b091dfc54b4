import RichDoc.Decimal.Power

/-!
# The doubles as a ladder of magnitudes

A finite double is a sign and a place on a ladder: the 63 bits below the
sign, read as a natural number, count the non-negative doubles in
increasing order. `magnitude` gives the value at a place in units of
2^-1074, the smallest positive double, so that every statement about a
double's value is one about natural numbers.

A decimal reads back as the double at place `b` when it lies between the
midpoints to the two neighbours of `b`, or on a midpoint and `b` is even
(`ReadsAs`). `readsAs_unique` is what the printed form of a double rests
on: no decimal reads as two different doubles.
-/

namespace RichDoc.Decimal

/-- How many doubles share one exponent, two to the 52. -/
def fractionSize : Nat := 0x10000000000000

/-- How many units of 2^-1074 make one. -/
def unitsInOne : Nat := power 2 1074

/-- The value at place `b` of the ladder, in units of 2^-1074. -/
def magnitude (b : Nat) : Nat :=
  if b < fractionSize then b
  else (fractionSize + b % fractionSize) * power 2 (b / fractionSize - 1)

theorem magnitude_lt_succ (b : Nat) : magnitude b < magnitude (b + 1) := by
  unfold magnitude fractionSize
  by_cases h : b + 1 < 0x10000000000000
  · have hb : b < 0x10000000000000 := by omega
    rw [if_pos h, if_pos hb]
    exact Nat.lt_succ_self b
  · by_cases h' : b < 0x10000000000000
    · have hb : b = 0x10000000000000 - 1 := by omega
      subst hb
      decide
    · rw [if_neg h, if_neg h']
      have hpos : 0 < power 2 (b / 0x10000000000000 - 1) := power_pos (by decide) _
      by_cases hc : (b + 1) % 0x10000000000000 = 0
      · have hq : (b + 1) / 0x10000000000000 - 1 = b / 0x10000000000000 - 1 + 1 := by omega
        have hr : b % 0x10000000000000 = 0x10000000000000 - 1 := by omega
        rw [hq, hr, hc, power_succ]
        generalize power 2 (b / 0x10000000000000 - 1) = p at hpos ⊢
        omega
      · have hq : (b + 1) / 0x10000000000000 = b / 0x10000000000000 := by omega
        have hr : (b + 1) % 0x10000000000000 = b % 0x10000000000000 + 1 := by omega
        rw [hq, hr]
        exact Nat.mul_lt_mul_of_pos_right (by omega) hpos

theorem magnitude_strictMono {a b : Nat} (h : a < b) : magnitude a < magnitude b := by
  induction b with
  | zero => omega
  | succ b ih =>
    rcases Nat.lt_succ_iff_lt_or_eq.1 h with h | rfl
    · exact Nat.lt_trans (ih h) (magnitude_lt_succ b)
    · exact magnitude_lt_succ a

theorem magnitude_mono {a b : Nat} (h : a ≤ b) : magnitude a ≤ magnitude b := by
  rcases Nat.lt_or_eq_of_le h with h | rfl
  · exact Nat.le_of_lt (magnitude_strictMono h)
  · exact Nat.le_refl _

/-- The decimal `digits * 10 ^ exponent`. -/
structure Scaled where
  digits : Nat
  exponent : Int
deriving DecidableEq, Repr

namespace Scaled

/-- Numerator of the decimal's value in units of 2^-1074. -/
def num (x : Scaled) : Nat :=
  x.digits * power 10 x.exponent.toNat * unitsInOne

/-- Denominator of the decimal's value in units of 2^-1074. -/
def den (x : Scaled) : Nat :=
  power 10 (-x.exponent).toNat

end Scaled

/-- The decimal `x` rounds to the double at place `b`, ties going to the even place. -/
def ReadsAs (x : Scaled) (b : Nat) : Prop :=
  ((magnitude (b - 1) + magnitude b) * x.den < 2 * x.num
      ∨ ((magnitude (b - 1) + magnitude b) * x.den = 2 * x.num ∧ b % 2 = 0))
    ∧ (2 * x.num < (magnitude b + magnitude (b + 1)) * x.den
      ∨ (2 * x.num = (magnitude b + magnitude (b + 1)) * x.den ∧ b % 2 = 0))

instance (x : Scaled) (b : Nat) : Decidable (ReadsAs x b) := by
  unfold ReadsAs; infer_instance

theorem Scaled.den_pos (x : Scaled) : 0 < x.den := power_pos (by decide) _

private theorem not_readsAs_of_lt {x : Scaled} {a b : Nat} (hab : a < b)
    (ha : ReadsAs x a) (hb : ReadsAs x b) : False := by
  have hden := x.den_pos
  have upper : 2 * x.num ≤ (magnitude a + magnitude (a + 1)) * x.den := by
    rcases ha.2 with h | ⟨h, _⟩ <;> omega
  have lower : (magnitude (b - 1) + magnitude b) * x.den ≤ 2 * x.num := by
    rcases hb.1 with h | ⟨h, _⟩ <;> omega
  have h₁ : magnitude a ≤ magnitude (b - 1) := magnitude_mono (by omega)
  have h₂ : magnitude (a + 1) ≤ magnitude b := magnitude_mono (by omega)
  have mid : (magnitude a + magnitude (a + 1)) * x.den
      ≤ (magnitude (b - 1) + magnitude b) * x.den :=
    Nat.mul_le_mul_right _ (by omega)
  have evenA : a % 2 = 0 := by
    rcases ha.2 with h | ⟨_, h⟩ <;> omega
  have evenB : b % 2 = 0 := by
    rcases hb.1 with h | ⟨_, h⟩ <;> omega
  have tight : magnitude a + magnitude (a + 1) = magnitude (b - 1) + magnitude b :=
    Nat.eq_of_mul_eq_mul_right hden (by omega)
  have hsucc : a + 1 = b := by
    rcases Nat.lt_or_eq_of_le (show a + 1 ≤ b by omega) with h | h
    · have := magnitude_strictMono h
      omega
    · exact h
  omega

/-- A decimal reads as at most one double. -/
theorem readsAs_unique {x : Scaled} {a b : Nat} (ha : ReadsAs x a) (hb : ReadsAs x b) : a = b := by
  rcases Nat.lt_trichotomy a b with h | h | h
  · exact (not_readsAs_of_lt h ha hb).elim
  · exact h
  · exact (not_readsAs_of_lt h hb ha).elim

end RichDoc.Decimal
