import Mathlib.Data.List.TakeWhile
import RichDoc.Decimal.Numeral

/-!
# Written doubles read back

The text of a finite double, in the layout for numbers that stay numbers,
is that of a decimal which reads as the double's own place on the ladder
(`exists_readScaled?_unsigned`). What is laid out is the value of the
shortest decimal in any case: with the point inside the figures, in front
of them or behind them, and with an exponent. As no decimal reads as two
doubles, finite doubles with one text are the same
(`Layout.write_json_injective`).
-/

namespace RichDoc.Decimal

/-! ## Decimals of one value -/

theorem power_add (base m n : Nat) : power base (m + n) = power base m * power base n :=
  Nat.pow_add base m n

namespace Scaled

/-- The decimals have the same value. -/
def Equals (x y : Scaled) : Prop := x.num * y.den = y.num * x.den

/-- Zeros at the end of the digits count as much as the exponent. -/
theorem equals_shift (digits zeros : Nat) (exponent : Int) :
    Equals ⟨digits * power 10 zeros, exponent⟩ ⟨digits, exponent + zeros⟩ := by
  have hexponents : zeros + exponent.toNat + (-(exponent + zeros)).toNat =
      (exponent + zeros).toNat + (-exponent).toNat := by omega
  have hpowers : power 10 zeros * power 10 exponent.toNat * power 10 (-(exponent + zeros)).toNat =
      power 10 (exponent + zeros).toNat * power 10 (-exponent).toNat := by
    rw [← power_add, ← power_add, ← power_add, hexponents]
  unfold Equals num den
  -- The units in one are a number too large to compute with.
  generalize unitsInOne = units
  calc digits * power 10 zeros * power 10 exponent.toNat * units *
        power 10 (-(exponent + zeros)).toNat
      = digits * units * (power 10 zeros * power 10 exponent.toNat *
          power 10 (-(exponent + zeros)).toNat) := by ac_rfl
    _ = digits * power 10 (exponent + zeros).toNat * units * power 10 (-exponent).toNat := by
        rw [hpowers]
        ac_rfl

variable {x y : Scaled}

theorem Equals.symm (h : x.Equals y) : y.Equals x := Eq.symm h

/-- Twice the value, taken over the denominator of another decimal of the same value. -/
theorem Equals.twice (h : x.Equals y) : 2 * x.num * y.den = 2 * y.num * x.den := by
  have hvalue : x.num * y.den = y.num * x.den := h
  rw [Nat.mul_assoc, hvalue, ← Nat.mul_assoc]

theorem Equals.lt_iff (h : x.Equals y) (n : Nat) :
    n * x.den < 2 * x.num ↔ n * y.den < 2 * y.num := by
  rw [← Nat.mul_lt_mul_right y.den_pos, h.twice, Nat.mul_right_comm,
    Nat.mul_lt_mul_right x.den_pos]

theorem Equals.gt_iff (h : x.Equals y) (n : Nat) :
    2 * x.num < n * x.den ↔ 2 * y.num < n * y.den := by
  rw [← Nat.mul_lt_mul_right y.den_pos, h.twice, Nat.mul_right_comm n,
    Nat.mul_lt_mul_right x.den_pos]

theorem Equals.eq_iff (h : x.Equals y) (n : Nat) :
    n * x.den = 2 * x.num ↔ n * y.den = 2 * y.num := by
  rw [← Nat.mul_left_inj y.den_pos.ne', h.twice, Nat.mul_right_comm,
    Nat.mul_left_inj x.den_pos.ne']

/-- What a decimal reads as depends on its value only. -/
theorem Equals.readsAs (h : x.Equals y) {place : Nat} (hx : ReadsAs x place) :
    ReadsAs y place := by
  obtain ⟨hlow, hhigh⟩ := hx
  exact ⟨hlow.imp (h.lt_iff _).mp fun ⟨hmiddle, heven⟩ => ⟨(h.eq_iff _).mp hmiddle, heven⟩,
    hhigh.imp (h.gt_iff _).mp fun ⟨hmiddle, heven⟩ => ⟨((h.eq_iff _).mp hmiddle.symm).symm, heven⟩⟩

end Scaled

/-! ## Figures -/

theorem isDigit_of_mem_zeros {n : Nat} {c : Char} (h : c ∈ zeros n) : c.isDigit = true := by
  rw [List.eq_of_mem_replicate h]
  rfl

theorem ofDigitChars_zeros_append (n : Nat) (digits : List Char) :
    Nat.ofDigitChars 10 (zeros n ++ digits) 0 = Nat.ofDigitChars 10 digits 0 := by
  rw [Nat.ofDigitChars_append, zeros, Nat.ofDigitChars_replicate_zero, Nat.mul_zero]

theorem ofDigitChars_append_zeros (digits : List Char) (n : Nat) :
    Nat.ofDigitChars 10 (digits ++ zeros n) 0 = Nat.ofDigitChars 10 digits 0 * power 10 n := by
  rw [Nat.ofDigitChars_append, zeros, Nat.ofDigitChars_replicate_zero, Nat.mul_comm]
  rfl

/-- The digits are the figures and zeros behind them. -/
theorem Scaled.exists_toDigits_eq (x : Scaled) :
    ∃ n, Nat.toDigits 10 x.digits = x.figures ++ zeros n := by
  let ending := (Nat.toDigits 10 x.digits).reverse.takeWhile (· == '0')
  refine ⟨ending.length, ?_⟩
  have hending : ending = zeros ending.length :=
    List.eq_replicate_iff.mpr ⟨rfl, fun c hc => by simpa using List.mem_takeWhile_imp hc⟩
  have hsplit : ending ++ (Nat.toDigits 10 x.digits).reverse.dropWhile (· == '0') =
      (Nat.toDigits 10 x.digits).reverse := List.takeWhile_append_dropWhile
  have hreverse := congrArg List.reverse hsplit
  rw [List.reverse_reverse, List.reverse_append, hending, zeros, List.reverse_replicate] at hreverse
  exact hreverse.symm

theorem Scaled.isDigit_of_mem_figures {x : Scaled} {c : Char} (h : c ∈ x.figures) :
    c.isDigit = true := by
  obtain ⟨n, hdigits⟩ := x.exists_toDigits_eq
  refine Nat.isDigit_of_mem_toDigits (by decide) (by decide) (?_ : c ∈ Nat.toDigits 10 x.digits)
  rw [hdigits]
  exact List.mem_append_left _ h

/-- The value of the figures, with the point where it belongs. -/
def Scaled.stripped (x : Scaled) : Scaled :=
  ⟨Nat.ofDigitChars 10 x.figures 0, x.point - x.figures.length⟩

theorem Scaled.equals_stripped (x : Scaled) : x.Equals x.stripped := by
  obtain ⟨n, hdigits⟩ := x.exists_toDigits_eq
  have hvalue : x.digits = Nat.ofDigitChars 10 x.figures 0 * power 10 n := by
    rw [← ofDigitChars_append_zeros, ← hdigits]
    exact (Nat.ofDigitChars_toDigits (by decide) (by decide)).symm
  have hexponent : x.point - x.figures.length = x.exponent + n := by
    rw [Scaled.point, hdigits, List.length_append, zeros, List.length_replicate]
    omega
  have hshift := equals_shift (Nat.ofDigitChars 10 x.figures 0) n x.exponent
  rw [← hvalue, ← hexponent] at hshift
  exact hshift

theorem Scaled.figures_ne_nil {x : Scaled} (h : x.digits ≠ 0) : x.figures ≠ [] := by
  intro hnil
  obtain ⟨n, hdigits⟩ := x.exists_toDigits_eq
  refine h ?_
  have hvalue : Nat.ofDigitChars 10 (Nat.toDigits 10 x.digits) 0 = x.digits :=
    Nat.ofDigitChars_toDigits (by decide) (by decide)
  rw [← hvalue, hdigits, hnil, ofDigitChars_append_zeros, Nat.ofDigitChars_nil, Nat.zero_mul]

/-- Only the double zero is read from zero. -/
theorem digits_ne_zero_of_readsAs {x : Scaled} {place : Nat} (h : ReadsAs x place)
    (hplace : place ≠ 0) : x.digits ≠ 0 := by
  intro hzero
  have hnum : x.num = 0 := by rw [Scaled.num, hzero, Nat.zero_mul, Nat.zero_mul]
  have hpos : 0 < magnitude place :=
    Nat.lt_of_le_of_lt (Nat.zero_le _) (magnitude_strictMono (Nat.pos_of_ne_zero hplace))
  have hsum : 0 < (magnitude (place - 1) + magnitude place) * x.den :=
    Nat.mul_pos (by omega) x.den_pos
  rcases h.1 with hlt | ⟨heq, -⟩
  · omega
  · omega

/-! ## Reading what is laid out -/

section Read

variable {whole fraction rest : List Char} {power : Int}

theorem takeWhile_digits_append (hdigits : ∀ c ∈ whole, c.isDigit = true)
    (hrest : rest.takeWhile Char.isDigit = []) :
    (whole ++ rest).takeWhile Char.isDigit = whole := by
  rw [List.takeWhile_append_of_pos hdigits, hrest, List.append_nil]

theorem dropWhile_digits_append (hdigits : ∀ c ∈ whole, c.isDigit = true)
    (hrest : rest.dropWhile Char.isDigit = rest) :
    (whole ++ rest).dropWhile Char.isDigit = rest := by
  rw [List.dropWhile_append_of_pos hdigits, hrest]

theorem readScaled?_fraction (hwhole : ∀ c ∈ whole, c.isDigit = true)
    (hfraction : ∀ c ∈ fraction, c.isDigit = true) (hne : whole ≠ [])
    (hrest : rest.takeWhile Char.isDigit = []) (hpower : readExponent? rest = some power) :
    readScaled? (whole ++ '.' :: (fraction ++ rest)) =
      some ⟨Nat.ofDigitChars 10 (whole ++ fraction) 0, power - fraction.length⟩ := by
  have hdrop : rest.dropWhile Char.isDigit = rest := by
    have hsplit : rest.takeWhile Char.isDigit ++ rest.dropWhile Char.isDigit = rest :=
      List.takeWhile_append_dropWhile
    rwa [hrest] at hsplit
  unfold readScaled?
  rw [takeWhile_digits_append hwhole rfl, dropWhile_digits_append hwhole rfl]
  change (if whole.isEmpty && ((fraction ++ rest).takeWhile Char.isDigit).isEmpty then none
    else (readExponent? ((fraction ++ rest).dropWhile Char.isDigit)).map fun power =>
      (⟨Nat.ofDigitChars 10 (whole ++ (fraction ++ rest).takeWhile Char.isDigit) 0,
        power - ((fraction ++ rest).takeWhile Char.isDigit).length⟩ : Scaled)) = _
  rw [takeWhile_digits_append hfraction hrest, dropWhile_digits_append hfraction hdrop, hpower]
  simp [hne]

theorem readScaled?_whole (hwhole : ∀ c ∈ whole, c.isDigit = true) (hne : whole ≠ [])
    (hpower : readExponent? ('e' :: rest) = some power) :
    readScaled? (whole ++ 'e' :: rest) = some ⟨Nat.ofDigitChars 10 whole 0, power⟩ := by
  unfold readScaled?
  rw [takeWhile_digits_append hwhole rfl, dropWhile_digits_append hwhole rfl]
  change (if whole.isEmpty && true then none else (readExponent? ('e' :: rest)).map fun power =>
    (⟨Nat.ofDigitChars 10 (whole ++ []) 0, power - 0⟩ : Scaled)) = _
  rw [hpower]
  simp [hne]

/-- A written exponent reads as itself. -/
theorem readExponent?_signed (n : Int) :
    readExponent? ('e' :: (if n < 0 then '-' else '+') :: Nat.toDigits 10 n.natAbs) = some n := by
  have hne : (Nat.toDigits 10 n.natAbs).isEmpty = false :=
    List.isEmpty_eq_false_iff.mpr Nat.toDigits_ne_nil
  have hdigits : (Nat.toDigits 10 n.natAbs).all Char.isDigit = true :=
    List.all_eq_true.mpr fun c hc => Nat.isDigit_of_mem_toDigits (by decide) (by decide) hc
  have hvalue : Nat.ofDigitChars 10 (Nat.toDigits 10 n.natAbs) 0 = n.natAbs :=
    Nat.ofDigitChars_toDigits (by decide) (by decide)
  by_cases hn : n < 0
  · have hmagnitude : -(n.natAbs : Int) = n := by omega
    rw [if_pos hn]
    simp only [readExponent?, splitSign, hne, hdigits, hvalue, hmagnitude]
    rfl
  · have hmagnitude : (n.natAbs : Int) = n := by omega
    rw [if_neg hn]
    simp only [readExponent?, splitSign, hne, hdigits, hvalue, hmagnitude]
    rfl

end Read

namespace Scaled

variable {x : Scaled}

/-- What is laid out without an exponent has the value of the figures. -/
theorem exists_readScaled?_positional (hne : x.figures ≠ []) :
    ∃ y, readScaled? (positional x.figures x.point ['.', '0']) = some y ∧ x.stripped.Equals y := by
  have hfigures : ∀ c ∈ x.figures, c.isDigit = true := fun c => isDigit_of_mem_figures
  have hzero : ∀ c ∈ ['0'], c.isDigit = true := List.forall_mem_singleton.mpr rfl
  have hnone : readExponent? [] = some 0 := rfl
  unfold positional
  by_cases hpoint : x.point ≤ 0
  · rw [if_pos hpoint]
    have hfraction : ∀ c ∈ zeros (-x.point).toNat ++ x.figures, c.isDigit = true := fun c hc =>
      (List.mem_append.mp hc).elim isDigit_of_mem_zeros (hfigures c)
    have hread := @readScaled?_fraction ['0'] _ [] 0 hzero hfraction
      (List.cons_ne_nil _ _) rfl hnone
    rw [List.append_nil] at hread
    refine ⟨_, hread, ?_⟩
    have hdigits : Nat.ofDigitChars 10 (['0'] ++ (zeros (-x.point).toNat ++ x.figures)) 0 =
        Nat.ofDigitChars 10 x.figures 0 := by
      rw [show ['0'] = zeros 1 from rfl, ofDigitChars_zeros_append, ofDigitChars_zeros_append]
    have hexponent : (0 : Int) - ((zeros (-x.point).toNat ++ x.figures).length : Int) =
        x.point - x.figures.length := by
      rw [List.length_append, zeros, List.length_replicate]
      omega
    rw [hdigits, hexponent]
    exact rfl
  · rw [if_neg hpoint]
    by_cases hlength : x.figures.length ≤ x.point.toNat
    · rw [if_pos hlength]
      have hwhole : ∀ c ∈ x.figures ++ zeros (x.point.toNat - x.figures.length),
          c.isDigit = true := fun c hc =>
        (List.mem_append.mp hc).elim (hfigures c) isDigit_of_mem_zeros
      have hread := @readScaled?_fraction _ ['0'] [] 0 hwhole hzero
        (List.append_ne_nil_of_left_ne_nil hne _) rfl hnone
      refine ⟨_, hread, ?_⟩
      rw [List.append_assoc, show ['0'] = zeros 1 from rfl, zeros, zeros,
        List.replicate_append_replicate]
      rw [show List.replicate _ '0' = zeros _ from rfl, ofDigitChars_append_zeros]
      refine Equals.symm ?_
      have hshift := equals_shift (Nat.ofDigitChars 10 x.figures 0)
        (x.point.toNat - x.figures.length + 1) (0 - (1 : Int))
      have hexponent : 0 - (1 : Int) + ((x.point.toNat - x.figures.length + 1 : Nat) : Int) =
          x.point - x.figures.length := by omega
      rw [hexponent] at hshift
      exact hshift
    · rw [if_neg hlength]
      have hread := @readScaled?_fraction (x.figures.take x.point.toNat)
        (x.figures.drop x.point.toNat) [] 0 (fun c hc => hfigures c (List.mem_of_mem_take hc))
        (fun c hc => hfigures c (List.mem_of_mem_drop hc))
        (by
          rw [← List.length_pos_iff, List.length_take]
          omega) rfl hnone
      rw [List.append_nil] at hread
      refine ⟨_, hread, ?_⟩
      have hexponent : (0 : Int) - ((x.figures.drop x.point.toNat).length : Int) =
          x.point - x.figures.length := by
        rw [List.length_drop]
        omega
      rw [List.take_append_drop, hexponent]
      exact rfl

/-- What is laid out with an exponent has the value of the figures. -/
theorem readScaled?_scientific (hne : x.figures ≠ []) :
    readScaled? (scientific x.figures x.point) = some x.stripped := by
  have hfigures : ∀ c ∈ x.figures, c.isDigit = true := fun c => isDigit_of_mem_figures
  have hexponent := readExponent?_signed (x.point - 1)
  obtain ⟨first, others, hsplit⟩ := List.exists_cons_of_ne_nil hne
  rw [stripped, hsplit]
  rw [hsplit] at hfigures
  obtain ⟨hfirst, hothers⟩ := List.forall_mem_cons.mp hfigures
  have hhead : ∀ c ∈ [first], c.isDigit = true := List.forall_mem_singleton.mpr hfirst
  cases others with
  | nil =>
      have hform : scientific [first] x.point = [first] ++
          'e' :: (if x.point - 1 < 0 then '-' else '+') ::
            Nat.toDigits 10 (x.point - 1).natAbs := rfl
      rw [hform, readScaled?_whole hhead (List.cons_ne_nil _ _) hexponent]
      rfl
  | cons second more =>
      have hform : scientific (first :: second :: more) x.point = [first] ++ '.' ::
          (second :: more ++ 'e' :: (if x.point - 1 < 0 then '-' else '+') ::
            Nat.toDigits 10 (x.point - 1).natAbs) := rfl
      have hlength : x.point - 1 - ((second :: more).length : Int) =
          x.point - ((first :: second :: more).length : Int) := by
        simp only [List.length_cons]
        omega
      rw [hform, readScaled?_fraction hhead hothers (List.cons_ne_nil _ _) (by rfl) hexponent,
        hlength]
      rfl

end Scaled

/-! ## Doubles with one text -/

/-- A character that texts of numbers are made of. -/
def IsNumeral (c : Char) : Prop :=
  c.isDigit = true ∨ c = '.' ∨ c = 'e' ∨ c = '+' ∨ c = '-'

/-- A double that is a number. -/
def IsFinite (x : Float) : Prop := ∃ negative place, Shape.ofFloat x = .finite negative place

theorem isNumeral_of_mem_positional {figures : List Char} {point : Int} {c : Char}
    (hfigures : ∀ c ∈ figures, c.isDigit = true) (h : c ∈ positional figures point ['.', '0']) :
    IsNumeral c := by
  have hzeros : ∀ n, c ∈ zeros n → IsNumeral c := fun n hc => .inl (isDigit_of_mem_zeros hc)
  have hpoint : c = '.' → IsNumeral c := fun hc => .inr (.inl hc)
  unfold positional at h
  split at h
  · rcases List.mem_cons.mp h with rfl | h
    · exact .inl rfl
    · rcases List.mem_cons.mp h with hc | h
      · exact hpoint hc
      · exact (List.mem_append.mp h).elim (hzeros _) fun hc => .inl (hfigures c hc)
  · split at h
    · rcases List.mem_append.mp h with h | h
      · exact (List.mem_append.mp h).elim (fun hc => .inl (hfigures c hc)) (hzeros _)
      · rcases List.mem_cons.mp h with hc | h
        · exact hpoint hc
        · exact .inl (List.mem_singleton.mp h ▸ rfl)
    · rcases List.mem_append.mp h with h | h
      · exact .inl (hfigures c (List.mem_of_mem_take h))
      · exact (List.mem_cons.mp h).elim hpoint fun hc => .inl (hfigures c (List.mem_of_mem_drop hc))

theorem isNumeral_of_mem_scientific {figures : List Char} {point : Int} {c : Char}
    (hfigures : ∀ c ∈ figures, c.isDigit = true) (h : c ∈ scientific figures point) :
    IsNumeral c := by
  unfold scientific at h
  rcases List.mem_append.mp h with h | h
  · rcases List.mem_append.mp h with h | h
    · exact .inl (hfigures c (List.mem_of_mem_take h))
    · split at h
      · cases h
      · exact (List.mem_cons.mp h).elim (fun hc => .inr (.inl hc))
          fun hc => .inl (hfigures c (List.mem_of_mem_drop hc))
  · rcases List.mem_cons.mp h with rfl | h
    · exact .inr (.inr (.inl rfl))
    · rcases List.mem_cons.mp h with rfl | h
      · split
        · exact .inr (.inr (.inr (.inr rfl)))
        · exact .inr (.inr (.inr (.inl rfl)))
      · exact .inl (Nat.isDigit_of_mem_toDigits (by decide) (by decide) h)

theorem mem_point_positional (figures : List Char) (point : Int) :
    '.' ∈ positional figures point ['.', '0'] := by
  unfold positional
  split
  · simp
  · split <;> simp

theorem mem_e_scientific (figures : List Char) (point : Int) : 'e' ∈ scientific figures point := by
  simp [scientific]

namespace Layout

/-- The text at a place is that of a decimal which reads as the place. -/
theorem exists_readScaled?_unsigned (place : Nat) :
    ∃ y, readScaled? (json.unsigned place) = some y ∧ ReadsAs y place := by
  unfold unsigned
  by_cases hzero : place = 0
  · subst hzero
    have hmagnitude : magnitude 0 = 0 := rfl
    refine ⟨⟨0, -1⟩, by decide, readsAs_of_value ?_⟩
    rw [Scaled.num, Nat.zero_mul, Nat.zero_mul, hmagnitude, Nat.zero_mul]
  · rw [if_neg hzero]
    have hreads : ReadsAs (shortest json.tie place) place := readsAs_shortest _ _
    have hne : (shortest json.tie place).figures ≠ [] :=
      Scaled.figures_ne_nil (digits_ne_zero_of_readsAs hreads hzero)
    have hstripped := (Scaled.equals_stripped _).readsAs hreads
    dsimp only
    split
    · obtain ⟨y, hread, hy⟩ := Scaled.exists_readScaled?_positional hne
      exact ⟨y, hread, hy.readsAs hstripped⟩
    · exact ⟨_, Scaled.readScaled?_scientific hne, hstripped⟩

theorem unsigned_injective {a b : Nat} (h : json.unsigned a = json.unsigned b) : a = b := by
  obtain ⟨x, hx, ha⟩ := exists_readScaled?_unsigned a
  obtain ⟨y, hy, hb⟩ := exists_readScaled?_unsigned b
  rw [h, hy] at hx
  cases hx
  exact readsAs_unique ha hb

/-- The minus sign of a text is the sign of its double. -/
theorem unsigned_ne_minus_cons (place : Nat) (rest : List Char) :
    json.unsigned place ≠ '-' :: rest := by
  intro h
  obtain ⟨x, hx, -⟩ := exists_readScaled?_unsigned place
  have hnone : readScaled? ('-' :: rest) = none := rfl
  rw [h, hnone] at hx
  cases hx

theorem isNumeral_of_mem_unsigned {place : Nat} {c : Char} (h : c ∈ json.unsigned place) :
    IsNumeral c := by
  have hfigures : ∀ (x : Scaled), ∀ c ∈ x.figures, c.isDigit = true :=
    fun _ _ => Scaled.isDigit_of_mem_figures
  unfold unsigned at h
  split at h
  · rcases List.mem_cons.mp h with rfl | h
    · exact .inl rfl
    · rcases List.mem_cons.mp h with hc | h
      · exact .inr (.inl hc)
      · exact .inl (List.mem_singleton.mp h ▸ rfl)
  · dsimp only at h
    split at h
    · exact isNumeral_of_mem_positional (hfigures _) h
    · exact isNumeral_of_mem_scientific (hfigures _) h

theorem exists_mem_unsigned (place : Nat) :
    '.' ∈ json.unsigned place ∨ 'e' ∈ json.unsigned place := by
  unfold unsigned
  split
  · exact .inl (by decide)
  · dsimp only
    split
    · exact .inl (mem_point_positional _ _)
    · exact .inr (mem_e_scientific _ _)

theorem ofShape_json_injective {a b : Bool} {i j : Nat}
    (h : json.ofShape (.finite a i) = json.ofShape (.finite b j)) : a = b ∧ i = j := by
  have htext : (if a then ['-'] else []) ++ json.unsigned i =
      (if b then ['-'] else []) ++ json.unsigned j := by
    simpa [ofShape] using congrArg String.toList h
  cases a <;> cases b
  · exact ⟨rfl, unsigned_injective htext⟩
  · exact absurd htext (unsigned_ne_minus_cons _ _)
  · exact absurd htext.symm (unsigned_ne_minus_cons _ _)
  · exact ⟨rfl, unsigned_injective (List.cons.inj htext).2⟩

end Layout

/-- The sign and the place of a finite double are all of its bits. -/
theorem Shape.ofBits_injective {m n : Nat} {negative : Bool} {place : Nat} (hm : m < UInt64.size)
    (hn : n < UInt64.size) (hmshape : ofBits m = .finite negative place)
    (hnshape : ofBits n = .finite negative place) : m = n := by
  have hbits : ∀ bits, ofBits bits = .finite negative place →
      decide (signSize ≤ bits) = negative ∧ bits % signSize = place := by
    intro bits h
    unfold ofBits at h
    dsimp only at h
    split at h
    · cases h
      exact ⟨rfl, rfl⟩
    · split at h <;> cases h
  obtain ⟨hmsign, hmplace⟩ := hbits m hmshape
  obtain ⟨hnsign, hnplace⟩ := hbits n hnshape
  have hsign : signSize ≤ m ↔ signSize ≤ n := decide_eq_decide.mp (hmsign.trans hnsign.symm)
  have hplace : m % signSize = n % signSize := hmplace.trans hnplace.symm
  unfold signSize at hsign hplace
  unfold UInt64.size at hm hn
  omega

theorem eq_of_toBits_eq {x y : Float} (h : x.toBits = y.toBits) : x = y := by
  obtain ⟨⟨a, ha⟩⟩ := x
  obtain ⟨⟨b, hb⟩⟩ := y
  cases h
  rfl

/-- The text of a number determines the number. -/
theorem Layout.write_json_injective {x y : Float} (hx : IsFinite x) (hy : IsFinite y)
    (h : json.write x = json.write y) : x = y := by
  obtain ⟨a, i, hxshape⟩ := hx
  obtain ⟨b, j, hyshape⟩ := hy
  rw [write, write, hxshape, hyshape] at h
  obtain ⟨rfl, rfl⟩ := ofShape_json_injective h
  refine eq_of_toBits_eq (UInt64.toNat_inj.mp ?_)
  exact Shape.ofBits_injective x.toBits.toNat_lt_size y.toBits.toNat_lt_size hxshape hyshape

end RichDoc.Decimal
