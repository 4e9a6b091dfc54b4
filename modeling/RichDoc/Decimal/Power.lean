/-!
# Powers of natural numbers

Powers of two and of ten, on natural numbers only.
-/

namespace RichDoc.Decimal

def power (base exponent : Nat) : Nat := Nat.pow base exponent

theorem power_zero (base : Nat) : power base 0 = 1 := rfl

theorem power_succ (base n : Nat) : power base (n + 1) = power base n * base := rfl

theorem power_pos {base : Nat} (h : 0 < base) (n : Nat) : 0 < power base n := by
  induction n with
  | zero => exact Nat.one_pos
  | succ n ih => exact Nat.mul_pos ih h

theorem power_mul_power (a b n : Nat) : power a n * power b n = power (a * b) n := by
  induction n with
  | zero => rfl
  | succ n ih =>
    rw [power_succ, power_succ, power_succ, ← ih]
    ac_rfl

end RichDoc.Decimal
