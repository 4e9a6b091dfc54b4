import RichDoc.Json.Printer
import RichDoc.Proofs.Decimal.ReadBack

/-!
# Compact text determines its value

Values are equal if they are written alike (`compact_injective`). Compact
text has no blanks, so it has to be clear from the text itself where each
token ends. Strings and brackets end with a character of their own; the
escapes in a string are a prefix code, in which no code word is a quote.
A number ends where the characters of numbers end, and behind a value
stands nothing, a comma or a closing bracket. So the statement proved by
recursion is one about values with some text behind them
(`compactChars_append`).
-/

namespace RichDoc.Json

open Decimal (IsNumeral IsFinite)

mutual

/-- Every double in the value is a number. -/
def Finite : Json → Prop
  | .null | .bool _ | .int _ | .str _ => True
  | .float x => IsFinite x
  | .arr items => FiniteItems items
  | .obj members => FiniteMembers members

def FiniteItems : List Json → Prop
  | [] => True
  | item :: rest => item.Finite ∧ FiniteItems rest

def FiniteMembers : Attributes → Prop
  | [] => True
  | (_, value) :: rest => value.Finite ∧ FiniteMembers rest

end

/-! ## Strings -/

/-- The characters that do not stand for themselves in a string. -/
def specials : List Char := '"' :: '\\' :: (List.range 0x20).map Char.ofNat

theorem escapeChar_of_not_mem {c : Char} (h : c ∉ specials) : escapeChar c = [c] := by
  have hquote : c ≠ '"' := fun hc => h (hc ▸ List.mem_cons_self)
  have hbackslash : c ≠ '\\' := fun hc => h (hc ▸ List.mem_cons_of_mem _ List.mem_cons_self)
  have hprintable : 0x20 ≤ c.toNat := by
    refine Nat.le_of_not_lt fun hlt => h ?_
    refine List.mem_cons_of_mem _ (List.mem_cons_of_mem _ (List.mem_map.mpr ⟨c.toNat, ?_, ?_⟩))
    · exact List.mem_range.mpr hlt
    · exact Char.ofNat_toNat c
  rw [escapeChar, if_neg hquote, if_neg hbackslash, if_pos hprintable]

theorem exists_escapeChar_eq_backslash {c : Char} (h : c ∈ specials) :
    ∃ rest, escapeChar c = '\\' :: rest := by
  have hhead : (specials.all fun c => (escapeChar c).head? == some '\\') = true := by
    decide +kernel
  exact List.head?_eq_some_iff.mp (eq_of_beq (List.all_eq_true.mp hhead c h))

/-- No escaped character begins with another one. -/
theorem eq_of_prefix_escapeChar {c d : Char} (h : escapeChar c <+: escapeChar d) : c = d := by
  have hcode : (specials.all fun c => specials.all fun d =>
      !(escapeChar c).isPrefixOf (escapeChar d) || c == d) = true := by
    decide +kernel
  have hplain : ∀ {c d : Char} {rest : List Char}, c ∉ specials → d ∈ specials →
      c :: rest ≠ escapeChar d := by
    intro c d rest hc hd heq
    obtain ⟨more, hmore⟩ := exists_escapeChar_eq_backslash hd
    obtain ⟨rfl, -⟩ := List.cons.inj (heq.trans hmore)
    exact hc (List.mem_cons_of_mem _ List.mem_cons_self)
  obtain ⟨rest, hrest⟩ := h
  by_cases hc : c ∈ specials <;> by_cases hd : d ∈ specials
  · have hpair := List.all_eq_true.mp (List.all_eq_true.mp hcode c hc) d hd
    rw [List.isPrefixOf_iff_prefix.mpr ⟨rest, hrest⟩] at hpair
    exact eq_of_beq hpair
  · obtain ⟨more, hmore⟩ := exists_escapeChar_eq_backslash hc
    rw [escapeChar_of_not_mem hd, hmore] at hrest
    obtain ⟨rfl, -⟩ := List.cons.inj hrest
    exact absurd (List.mem_cons_of_mem _ List.mem_cons_self) hd
  · rw [escapeChar_of_not_mem hc] at hrest
    exact absurd hrest (hplain hc hd)
  · rw [escapeChar_of_not_mem hc, escapeChar_of_not_mem hd] at hrest
    exact (List.cons.inj hrest).1

theorem escapeChar_append {c d : Char} {r s : List Char}
    (h : escapeChar c ++ r = escapeChar d ++ s) : c = d ∧ r = s := by
  have heq : c = d := by
    rcases List.append_eq_append_iff.mp h with ⟨more, hmore, -⟩ | ⟨more, hmore, -⟩
    · exact eq_of_prefix_escapeChar ⟨more, hmore.symm⟩
    · exact (eq_of_prefix_escapeChar ⟨more, hmore.symm⟩).symm
  subst heq
  exact ⟨rfl, List.append_cancel_left h⟩

theorem escapeChar_append_ne_quote (c : Char) (r s : List Char) : escapeChar c ++ r ≠ '"' :: s := by
  intro h
  by_cases hc : c ∈ specials
  · obtain ⟨more, hmore⟩ := exists_escapeChar_eq_backslash hc
    rw [hmore] at h
    exact absurd (List.cons.inj h).1 (by decide)
  · rw [escapeChar_of_not_mem hc] at h
    obtain ⟨rfl, -⟩ := List.cons.inj h
    exact hc List.mem_cons_self

theorem escapes_append {r s : List Char} : ∀ {a b : List Char},
    a.flatMap escapeChar ++ '"' :: r = b.flatMap escapeChar ++ '"' :: s → a = b ∧ r = s
  | [], [], h => ⟨rfl, (List.cons.inj h).2⟩
  | [], d :: b, h => by
      rw [List.flatMap_cons, List.append_assoc] at h
      exact absurd h.symm (escapeChar_append_ne_quote _ _ _)
  | c :: a, [], h => by
      rw [List.flatMap_cons, List.append_assoc] at h
      exact absurd h (escapeChar_append_ne_quote _ _ _)
  | c :: a, d :: b, h => by
      rw [List.flatMap_cons, List.flatMap_cons, List.append_assoc, List.append_assoc] at h
      obtain ⟨rfl, hrest⟩ := escapeChar_append h
      obtain ⟨rfl, hrs⟩ := escapes_append hrest
      exact ⟨rfl, hrs⟩

theorem quote_append {a b : String} {r s : List Char} (h : quote a ++ r = quote b ++ s) :
    a = b ∧ r = s := by
  have hinner :
      a.toList.flatMap escapeChar ++ '"' :: r = b.toList.flatMap escapeChar ++ '"' :: s := by
    simpa [quote] using h
  obtain ⟨hchars, hrs⟩ := escapes_append hinner
  exact ⟨String.toList_inj.mp hchars, hrs⟩

/-! ## Numbers -/

instance : DecidablePred IsNumeral := fun c =>
  inferInstanceAs (Decidable (c.isDigit = true ∨ c = '.' ∨ c = 'e' ∨ c = '+' ∨ c = '-'))

/-- No number goes on here. -/
def EndsNumeral (rest : List Char) : Prop := ∀ c ∈ rest.head?, ¬ IsNumeral c

theorem numerals_append {r s : List Char} (hr : EndsNumeral r) (hs : EndsNumeral s) :
    ∀ {a b : List Char}, (∀ c ∈ a, IsNumeral c) → (∀ c ∈ b, IsNumeral c) →
      a ++ r = b ++ s → a = b ∧ r = s
  | [], [], _, _, h => ⟨rfl, h⟩
  | [], c :: b, _, hb, h => by
      have hhead : c ∈ r.head? := by
        rw [show r = c :: (b ++ s) from h]
        rfl
      exact absurd (hb c List.mem_cons_self) (hr c hhead)
  | c :: a, [], ha, _, h => by
      have hhead : c ∈ s.head? := by
        rw [show s = c :: (a ++ r) from h.symm]
        rfl
      exact absurd (ha c List.mem_cons_self) (hs c hhead)
  | c :: a, d :: b, ha, hb, h => by
      obtain ⟨rfl, hrest⟩ := List.cons.inj h
      obtain ⟨rfl, hrs⟩ := numerals_append hr hs (List.forall_mem_cons.mp ha).2
        (List.forall_mem_cons.mp hb).2 hrest
      exact ⟨rfl, hrs⟩

theorem isDigit_or_minus_of_mem_writeInt {n : Int} {c : Char} (h : c ∈ writeInt n) :
    c.isDigit = true ∨ c = '-' := by
  have hdigit : c ∈ Nat.toDigits 10 n.natAbs → c.isDigit = true :=
    Nat.isDigit_of_mem_toDigits (by decide) (by decide)
  unfold writeInt at h
  split at h
  · exact (List.mem_cons.mp h).elim .inr fun hc => .inl (hdigit hc)
  · exact .inl (hdigit h)

theorem isNumeral_of_mem_writeInt {n : Int} {c : Char} (h : c ∈ writeInt n) : IsNumeral c :=
  (isDigit_or_minus_of_mem_writeInt h).imp_right fun hc => .inr (.inr (.inr hc))

theorem isNumeral_of_mem_writeFloat {x : Float} (hx : IsFinite x) {c : Char}
    (h : c ∈ writeFloat x) : IsNumeral c := by
  obtain ⟨negative, place, hshape⟩ := hx
  rw [writeFloat, Decimal.Layout.write, hshape, Decimal.Layout.ofShape, String.toList_ofList] at h
  rcases List.mem_append.mp h with h | h
  · split at h
    · exact .inr (.inr (.inr (.inr (List.mem_singleton.mp h))))
    · cases h
  · exact Decimal.Layout.isNumeral_of_mem_unsigned h

/-- A double is told from a whole number by its point or its exponent. -/
theorem mem_point_or_e_writeFloat {x : Float} (hx : IsFinite x) :
    '.' ∈ writeFloat x ∨ 'e' ∈ writeFloat x := by
  obtain ⟨negative, place, hshape⟩ := hx
  rw [writeFloat, Decimal.Layout.write, hshape, Decimal.Layout.ofShape, String.toList_ofList]
  exact (Decimal.Layout.exists_mem_unsigned place).imp (List.mem_append_right _)
    (List.mem_append_right _)

theorem writeInt_ne_writeFloat (n : Int) {x : Float} (hx : IsFinite x) :
    writeInt n ≠ writeFloat x := by
  intro heq
  rcases mem_point_or_e_writeFloat hx with h | h <;> rw [← heq] at h
  · simpa using isDigit_or_minus_of_mem_writeInt h
  · simpa using isDigit_or_minus_of_mem_writeInt h

theorem writeInt_injective {m n : Int} (h : writeInt m = writeInt n) : m = n := by
  have hvalue : ∀ n, Nat.ofDigitChars 10 (Nat.toDigits 10 n) 0 = n := fun n =>
    Nat.ofDigitChars_toDigits (by decide) (by decide)
  have habs : ∀ {m n : Nat}, Nat.toDigits 10 m = Nat.toDigits 10 n → m = n := by
    intro m n hdigits
    rw [← hvalue m, hdigits, hvalue]
  have hminus : ∀ {m n : Nat}, '-' :: Nat.toDigits 10 m ≠ Nat.toDigits 10 n := by
    intro m n hdigits
    have hmem : '-' ∈ Nat.toDigits 10 n := hdigits ▸ List.mem_cons_self
    exact absurd (Nat.isDigit_of_mem_toDigits (by decide) (by decide) hmem) (by decide)
  unfold writeInt at h
  split at h <;> split at h
  · have := habs (List.cons.inj h).2
    omega
  · exact absurd h hminus
  · exact absurd h.symm hminus
  · have := habs h
    omega

theorem writeFloat_injective {x y : Float} (hx : IsFinite x) (hy : IsFinite y)
    (h : writeFloat x = writeFloat y) : x = y :=
  Decimal.Layout.write_json_injective hx hy (String.toList_inj.mp h)

/-! ## Values -/

/-- What can be told of a value from the first character of its text. -/
inductive Form where
  | null
  | bool
  | number
  | str
  | arr
  | obj

def form : Json → Form
  | .null => .null
  | .bool _ => .bool
  | .int _ | .float _ => .number
  | .str _ => .str
  | .arr _ => .arr
  | .obj _ => .obj

/-- The form of the values whose text opens with a character. -/
def Form.ofChar? (c : Char) : Option Form :=
  if IsNumeral c then some .number
  else match c with
    | 'n' => some .null
    | 't' | 'f' => some .bool
    | '"' => some .str
    | '[' => some .arr
    | '\x7b' => some .obj
    | _ => none

theorem exists_numeral_cons {text : List Char} (hne : text ≠ [])
    (h : ∀ c ∈ text, IsNumeral c) :
    ∃ c rest, text = c :: rest ∧ Form.ofChar? c = some .number := by
  obtain ⟨c, rest, rfl⟩ := List.exists_cons_of_ne_nil hne
  exact ⟨c, rest, rfl, if_pos (h c List.mem_cons_self)⟩

theorem writeInt_ne_nil (n : Int) : writeInt n ≠ [] := by
  unfold writeInt
  split
  · exact List.cons_ne_nil _ _
  · exact Nat.toDigits_ne_nil

theorem exists_cons_compactChars {x : Json} (hx : x.Finite) :
    ∃ c rest, x.compactChars = c :: rest ∧ Form.ofChar? c = some x.form := by
  cases x with
  | null => exact ⟨'n', _, rfl, rfl⟩
  | bool b => cases b <;> exact ⟨_, _, rfl, rfl⟩
  | int n => exact exists_numeral_cons (writeInt_ne_nil n) fun c => isNumeral_of_mem_writeInt
  | float x =>
      have hne : writeFloat x ≠ [] := (mem_point_or_e_writeFloat hx).elim
        List.ne_nil_of_mem List.ne_nil_of_mem
      exact exists_numeral_cons hne fun c => isNumeral_of_mem_writeFloat hx
  | str text => exact ⟨'"', _, rfl, rfl⟩
  | arr items => exact ⟨'[', _, rfl, rfl⟩
  | obj members => exact ⟨'\x7b', _, rfl, rfl⟩

/-- Texts that begin alike are of values of one form. -/
theorem form_eq_of_append {x y : Json} {r s : List Char} (hx : x.Finite) (hy : y.Finite)
    (h : x.compactChars ++ r = y.compactChars ++ s) : x.form = y.form := by
  obtain ⟨c, more, hc, hform⟩ := exists_cons_compactChars hx
  obtain ⟨d, rest, hd, hform'⟩ := exists_cons_compactChars hy
  rw [hc, hd] at h
  rw [(List.cons.inj h).1, hform'] at hform
  exact (Option.some.inj hform).symm

theorem compactChars_append_ne_bracket {x : Json} (hx : x.Finite) (r s : List Char) :
    x.compactChars ++ r ≠ ']' :: s := by
  intro h
  obtain ⟨c, more, hc, hform⟩ := exists_cons_compactChars hx
  have hnone : Form.ofChar? ']' = none := rfl
  rw [hc] at h
  rw [(List.cons.inj h).1, hnone] at hform
  cases hform

theorem endsNumeral_moreItems (items : List Json) (rest : List Char) :
    EndsNumeral (compactMoreItems items ++ ']' :: rest) := by
  cases items <;> exact fun c hc => Option.mem_some.mp hc ▸ by decide

theorem endsNumeral_moreMembers (members : Attributes) (rest : List Char) :
    EndsNumeral (compactMoreMembers members ++ '\x7d' :: rest) := by
  cases members <;> exact fun c hc => Option.mem_some.mp hc ▸ by decide

/-- Only the first item has no comma before it. -/
theorem moreItems_of_items {r s : List Char} : ∀ {a b : List Json}, FiniteItems a →
    FiniteItems b → compactItems a ++ ']' :: r = compactItems b ++ ']' :: s →
      compactMoreItems a ++ ']' :: r = compactMoreItems b ++ ']' :: s
  | [], [], _, _, h => h
  | [], y :: b, _, hb, h => by
      rw [compactItems, compactItems, List.append_assoc] at h
      exact absurd h.symm (compactChars_append_ne_bracket hb.1 _ _)
  | x :: a, [], ha, _, h => by
      rw [compactItems, compactItems, List.append_assoc] at h
      exact absurd h (compactChars_append_ne_bracket ha.1 _ _)
  | x :: a, y :: b, _, _, h => congrArg (List.cons ',') h

theorem moreMembers_of_members {r s : List Char} : ∀ {a b : Attributes},
    compactMembers a ++ '\x7d' :: r = compactMembers b ++ '\x7d' :: s →
      compactMoreMembers a ++ '\x7d' :: r = compactMoreMembers b ++ '\x7d' :: s
  | [], [], h => h
  | [], (k, y) :: b, h => absurd (List.cons.inj h).1 (by decide)
  | (k, x) :: a, [], h => absurd (List.cons.inj h).1 (by decide)
  | (k, x) :: a, (l, y) :: b, h => congrArg (List.cons ',') h

mutual

/-- Where the texts of two values begin alike, with no number going on behind them, the values
are the same and so is what stands behind them. -/
theorem compactChars_append {r s : List Char} : ∀ {x y : Json}, x.Finite → y.Finite →
    EndsNumeral r → EndsNumeral s → x.compactChars ++ r = y.compactChars ++ s → x = y ∧ r = s
  | .null, y, hx, hy, hr, hs, h => by
      have hform := form_eq_of_append hx hy h
      cases y <;> cases hform
      exact ⟨rfl, List.append_cancel_left h⟩
  | .bool a, y, hx, hy, hr, hs, h => by
      have hform := form_eq_of_append hx hy h
      cases y <;> cases hform
      case bool b =>
        cases a <;> cases b
        · exact ⟨rfl, List.append_cancel_left h⟩
        · exact absurd (List.cons.inj h).1 (by decide)
        · exact absurd (List.cons.inj h).1 (by decide)
        · exact ⟨rfl, List.append_cancel_left h⟩
  | .int m, y, hx, hy, hr, hs, h => by
      have hform := form_eq_of_append hx hy h
      cases y <;> cases hform
      case int n =>
        obtain ⟨htext, hrs⟩ := numerals_append hr hs (fun c => isNumeral_of_mem_writeInt)
          (fun c => isNumeral_of_mem_writeInt) h
        exact ⟨congrArg int (writeInt_injective htext), hrs⟩
      case float z =>
        obtain ⟨htext, -⟩ := numerals_append hr hs (fun c => isNumeral_of_mem_writeInt)
          (fun c => isNumeral_of_mem_writeFloat hy) h
        exact absurd htext (writeInt_ne_writeFloat m hy)
  | .float x, y, hx, hy, hr, hs, h => by
      have hform := form_eq_of_append hx hy h
      cases y <;> cases hform
      case int n =>
        obtain ⟨htext, -⟩ := numerals_append hr hs (fun c => isNumeral_of_mem_writeFloat hx)
          (fun c => isNumeral_of_mem_writeInt) h
        exact absurd htext.symm (writeInt_ne_writeFloat n hx)
      case float z =>
        obtain ⟨htext, hrs⟩ := numerals_append hr hs (fun c => isNumeral_of_mem_writeFloat hx)
          (fun c => isNumeral_of_mem_writeFloat hy) h
        exact ⟨congrArg float (writeFloat_injective hx hy htext), hrs⟩
  | .str text, y, hx, hy, hr, hs, h => by
      have hform := form_eq_of_append hx hy h
      cases y <;> cases hform
      obtain ⟨rfl, hrs⟩ := quote_append h
      exact ⟨rfl, hrs⟩
  | .arr items, y, hx, hy, hr, hs, h => by
      have hform := form_eq_of_append hx hy h
      cases y <;> cases hform
      case arr others =>
        have hinner : compactItems items ++ ']' :: r = compactItems others ++ ']' :: s := by
          simpa [compactChars] using h
        obtain ⟨rfl, hrs⟩ := compactMoreItems_append hx hy (moreItems_of_items hx hy hinner)
        exact ⟨rfl, hrs⟩
  | .obj members, y, hx, hy, hr, hs, h => by
      have hform := form_eq_of_append hx hy h
      cases y <;> cases hform
      case obj others =>
        have hinner : compactMembers members ++ '\x7d' :: r =
            compactMembers others ++ '\x7d' :: s := by
          simpa [compactChars] using h
        obtain ⟨rfl, hrs⟩ := compactMoreMembers_append hx hy (moreMembers_of_members hinner)
        exact ⟨rfl, hrs⟩

theorem compactMoreItems_append {r s : List Char} : ∀ {a b : List Json}, FiniteItems a →
    FiniteItems b → compactMoreItems a ++ ']' :: r = compactMoreItems b ++ ']' :: s →
      a = b ∧ r = s
  | [], [], _, _, h => ⟨rfl, (List.cons.inj h).2⟩
  | [], y :: b, _, _, h => absurd (List.cons.inj h).1 (by decide)
  | x :: a, [], _, _, h => absurd (List.cons.inj h).1 (by decide)
  | x :: a, y :: b, ha, hb, h => by
      have hrest := (List.cons.inj h).2
      rw [List.append_eq, List.append_eq, List.append_assoc, List.append_assoc] at hrest
      obtain ⟨rfl, hmore⟩ := compactChars_append ha.1 hb.1 (endsNumeral_moreItems _ _)
        (endsNumeral_moreItems _ _) hrest
      obtain ⟨rfl, hrs⟩ := compactMoreItems_append ha.2 hb.2 hmore
      exact ⟨rfl, hrs⟩

theorem compactMoreMembers_append {r s : List Char} : ∀ {a b : Attributes}, FiniteMembers a →
    FiniteMembers b → compactMoreMembers a ++ '\x7d' :: r = compactMoreMembers b ++ '\x7d' :: s →
      a = b ∧ r = s
  | [], [], _, _, h => ⟨rfl, (List.cons.inj h).2⟩
  | [], (k, y) :: b, _, _, h => absurd (List.cons.inj h).1 (by decide)
  | (k, x) :: a, [], _, _, h => absurd (List.cons.inj h).1 (by decide)
  | (k, x) :: a, (l, y) :: b, ha, hb, h => by
      have hrest := (List.cons.inj h).2
      rw [List.append_eq, List.append_eq, List.append_assoc, List.append_assoc] at hrest
      obtain ⟨rfl, hvalue⟩ := quote_append hrest
      have hvalue := (List.cons.inj hvalue).2
      rw [List.append_eq, List.append_eq, List.append_assoc, List.append_assoc] at hvalue
      obtain ⟨rfl, hmore⟩ := compactChars_append ha.1 hb.1 (endsNumeral_moreMembers _ _)
        (endsNumeral_moreMembers _ _) hvalue
      obtain ⟨rfl, hrs⟩ := compactMoreMembers_append ha.2 hb.2 hmore
      exact ⟨rfl, hrs⟩

end

/-- Values with one compact text are equal. -/
theorem compact_injective {x y : Json} (hx : x.Finite) (hy : y.Finite)
    (h : x.compact = y.compact) : x = y := by
  have hend : EndsNumeral [] := fun c hc => by cases hc
  have hchars : x.compactChars ++ [] = y.compactChars ++ [] := by
    simpa [compact] using congrArg String.toList h
  exact (compactChars_append hx hy hend hend hchars).1

end RichDoc.Json
