import Mathlib.Data.List.Forall2
import RichDoc.Json.Reader
import RichDoc.Proofs.Json.Compact

/-!
# Written values are read back

Compact text reads as the value it was written for, provided that the
value is one that a reader can yield: its numbers are whole and fit 64
bits, its objects are sorted by key (`Exact`), and it is not nested too
deep (`depth`). As for printing, the statements are about a text with
something behind it (`reads_value`): nothing, a comma or a bracket, which
is all that can stand behind a value, and which no value goes on with.

Lists and objects are read item by item and member by member, whatever
they hold, so there is one lemma for lists of anything (`reads_items`) and
one for objects whose members are folded into anything (`reads_members`).
-/

namespace RichDoc.Json

open Decimal (minInt64 maxUInt64)

/-! ## Runs of readers -/

section Run

variable {α β : Type} {reader : Reader α} {cs between rest : List Char} {x : α} {y : β}

/-- From the front of a text the reader takes a value, and leaves the rest. -/
def Reader.Reads (reader : Reader α) (cs : List Char) (x : α) (rest : List Char) : Prop :=
  StateT.run reader cs = .ok (x, rest)

theorem reads_pure (x : α) (cs : List Char) : (pure x : Reader α).Reads cs x cs := rfl

theorem reads_get (cs : List Char) : (get : Reader (List Char)).Reads cs cs cs := rfl

theorem Reader.Reads.bind {next : α → Reader β} (h : reader.Reads cs x between)
    (hn : (next x).Reads between y rest) : (reader >>= next).Reads cs y rest := by
  unfold Reads at *
  rw [StateT.run_bind, h]
  exact hn

theorem Reader.Reads.map (f : α → β) (h : reader.Reads cs x rest) :
    (f <$> reader).Reads cs (f x) rest := by
  unfold Reads at *
  rw [StateT.run_map, h]
  rfl

theorem reads_peek {c : Char} (h : isSpace c = false) :
    peek.Reads (c :: rest) (some c) (c :: rest) := by
  have hdrop : (c :: rest).dropWhile isSpace = c :: rest :=
    List.dropWhile_cons_of_neg (by rw [h]; exact Bool.false_ne_true)
  show Except.ok (((c :: rest).dropWhile isSpace).head?, (c :: rest).dropWhile isSpace) = _
  rw [hdrop]
  rfl

theorem reads_advance (c : Char) (rest : List Char) : advance.Reads (c :: rest) () rest := rfl

end Run

/-- What can stand behind a value: nothing, a comma or a closing bracket. -/
def EndsValue (rest : List Char) : Prop := ∀ c ∈ rest.head?, c = ',' ∨ c = ']' ∨ c = '\x7d'

theorem endsValue_nil : EndsValue [] := nofun

theorem endsValue_moreItems (items : List Json) (rest : List Char) :
    EndsValue (compactMoreItems items ++ ']' :: rest) := by
  cases items <;> exact fun c hc => Option.mem_some.mp hc ▸ by decide

theorem endsValue_moreMembers (members : Attributes) (rest : List Char) :
    EndsValue (compactMoreMembers members ++ '\x7d' :: rest) := by
  cases members <;> exact fun c hc => Option.mem_some.mp hc ▸ by decide

/-! ## Strings -/

theorem hexUnit_digits {a b c d : Char} {i j k l : Nat} (ha : hexValue? a = some i)
    (hb : hexValue? b = some j) (hc : hexValue? c = some k) (hd : hexValue? d = some l)
    (rest : List Char) :
    hexUnit (a :: b :: c :: d :: rest) = .ok (((i * 16 + j) * 16 + k) * 16 + l, rest) := by
  have hsize : ¬ [a, b, c, d].foldl (fun n c => n + c.utf8Size) 0 < 4 := by
    have := a.utf8Size_pos
    have := b.utf8Size_pos
    have := c.utf8Size_pos
    have := d.utf8Size_pos
    simp only [List.foldl_cons, List.foldl_nil]
    omega
  have hvalues : [a, b, c, d].mapM hexValue? = some [i, j, k, l] := by
    simp [ha, hb, hc, hd]
  have htake : (a :: b :: c :: d :: rest).take 4 = [a, b, c, d] := rfl
  rw [hexUnit, htake, if_neg hsize, hvalues]
  rfl

/-- A control character is read from its number. -/
theorem escaped_control {c : Char} (h : c.toNat < 0x20) (rest : List Char) :
    escaped ('u' :: '0' :: '0' :: hexDigit (c.toNat / 16) :: hexDigit c.toNat :: rest) =
      .ok (c, rest) := by
  have hdigits : ∀ n < 0x20, hexValue? (hexDigit n) = some (n % 16) := by decide
  have hvalue : ((0 * 16 + 0) * 16 + c.toNat / 16 % 16) * 16 + c.toNat % 16 = c.toNat := by omega
  have hzero : hexValue? '0' = some 0 := rfl
  have hhex := hexUnit_digits hzero hzero (hdigits (c.toNat / 16) (by omega)) (hdigits c.toNat h)
    rest
  rw [hvalue] at hhex
  have hlow : isLowSurrogate c.toNat = false := by
    simp only [isLowSurrogate, Bool.and_eq_false_iff, decide_eq_false_iff_not]
    omega
  have hhigh : isHighSurrogate c.toNat = false := by
    simp only [isHighSurrogate, Bool.and_eq_false_iff, decide_eq_false_iff_not]
    omega
  show (hexUnit _ >>= _) = _
  rw [hhex]
  show (if isLowSurrogate c.toNat then _ else if isHighSurrogate c.toNat then _ else _) = _
  rw [hlow, hhigh]
  show Except.ok (Char.ofNat c.toNat, rest) = _
  rw [Char.ofNat_toNat]

theorem stringChars_escape {c mark : Char} {bound rest : List Char} (code : List Char)
    (h : escaped (code ++ rest) = .ok (c, rest)) :
    stringChars escaped (mark :: bound) ('\\' :: (code ++ rest)) =
      (stringChars escaped bound rest).map fun (cs, rest) => (c :: cs, rest) := by
  rw [stringChars, h]
  show (stringChars escaped bound rest >>= _) = _
  cases stringChars escaped bound rest <;> rfl

/-- A character is read back from what it is written as. -/
theorem stringChars_escapeChar (c mark : Char) (bound rest : List Char) :
    stringChars escaped (mark :: bound) (escapeChar c ++ rest) =
      (stringChars escaped bound rest).map fun (cs, rest) => (c :: cs, rest) := by
  have hletter (n : Nat) (letter : Char) (hn : c.toNat = n)
      (h : ∀ rest, escaped (letter :: rest) = .ok (Char.ofNat n, rest)) :
      stringChars escaped (mark :: bound) ('\\' :: letter :: rest) =
        (stringChars escaped bound rest).map fun (cs, rest) => (c :: cs, rest) := by
    refine stringChars_escape [letter] ?_
    rw [← Char.ofNat_toNat c, hn]
    exact h rest
  unfold escapeChar
  split
  · next hc =>
      subst hc
      exact stringChars_escape ['"'] rfl
  split
  · next hc =>
      subst hc
      exact stringChars_escape ['\\'] rfl
  split
  · next hquote hbackslash hplain =>
      rw [List.singleton_append, stringChars, if_neg (Nat.not_lt.mpr hplain)]
      · show (stringChars escaped bound rest >>= _) = _
        cases stringChars escaped bound rest <;> rfl
      · exact hquote
      · exact hbackslash
  split
  · next hn => exact hletter 0x08 'b' hn fun _ => rfl
  split
  · next hn => exact hletter 0x09 't' hn fun _ => rfl
  split
  · next hn => exact hletter 0x0A 'n' hn fun _ => rfl
  split
  · next hn => exact hletter 0x0C 'f' hn fun _ => rfl
  split
  · next hn => exact hletter 0x0D 'r' hn fun _ => rfl
  · next hcontrol _ _ _ _ _ =>
      exact stringChars_escape ['u', '0', '0', hexDigit (c.toNat / 16), hexDigit c.toNat]
        (escaped_control (Nat.not_le.mp hcontrol) rest)

theorem stringChars_escapes (rest : List Char) : ∀ cs bound : List Char, cs.length < bound.length →
    stringChars escaped bound (cs.flatMap escapeChar ++ '"' :: rest) = .ok (cs, rest)
  | _, [], h => absurd h (Nat.not_lt_zero _)
  | [], _ :: _, _ => by simp [stringChars]
  | c :: cs, _ :: bound, h => by
      rw [List.flatMap_cons, List.append_assoc, stringChars_escapeChar,
        stringChars_escapes rest cs bound (Nat.lt_of_succ_lt_succ h)]
      rfl

theorem length_le_length_escapes (cs : List Char) :
    cs.length ≤ (cs.flatMap escapeChar).length := by
  have hpos (c : Char) : 0 < (escapeChar c).length := by
    unfold escapeChar
    split_ifs <;> exact Nat.succ_pos _
  induction cs with
  | nil => exact Nat.le_refl 0
  | cons c cs ih =>
      rw [List.flatMap_cons, List.length_append, List.length_cons]
      have := hpos c
      omega

theorem reads_string (text : String) (rest : List Char) :
    string.Reads (text.toList.flatMap escapeChar ++ '"' :: rest) text rest := by
  have hbound : text.toList.length < (text.toList.flatMap escapeChar ++ '"' :: rest).length := by
    rw [List.length_append, List.length_cons]
    have := length_le_length_escapes text.toList
    omega
  show (stringChars escaped _ _ >>= _) = _
  rw [stringChars_escapes rest _ _ hbound]
  show Except.ok (String.ofList text.toList, rest) = _
  rw [String.ofList_toList]

/-! ## Whole numbers -/

theorem head?_toDigits_ne_zero : ∀ n, 0 < n → (Nat.toDigits 10 n).head? ≠ some '0'
  | n, hpos => by
      by_cases hlt : n < 10
      · have hdigit : ∀ n < 10, 0 < n → Nat.digitChar n ≠ '0' := by decide
        rw [Nat.toDigits_of_lt_base hlt]
        exact fun h => hdigit n hlt hpos (Option.some.inj h)
      · have htenth := head?_toDigits_ne_zero (n / 10) (by omega)
        obtain ⟨d, ds, hds⟩ := List.exists_cons_of_ne_nil
          (Nat.toDigits_ne_nil (n := n / 10) (b := 10))
        rw [Nat.toDigits_of_base_le (by decide) (Nat.not_lt.mp hlt), hds]
        rwa [hds] at htenth

/-- Only zero itself is written with a zero in front. -/
theorem toDigits_ne_zero_cons (n : Nat) (d : Char) (ds : List Char) :
    Nat.toDigits 10 n ≠ '0' :: d :: ds := by
  intro h
  rcases Nat.eq_zero_or_pos n with rfl | hpos
  · cases h
  · exact head?_toDigits_ne_zero n hpos (by rw [h]; rfl)

section Number

variable {rest : List Char} (h : EndsValue rest) (cut : Error)

include h

theorem EndsValue.takeWhile_isDigit : rest.takeWhile Char.isDigit = [] := by
  cases rest with
  | nil => rfl
  | cons c rest => rcases h c rfl with rfl | rfl | rfl <;> rfl

theorem EndsValue.dropWhile_isDigit : rest.dropWhile Char.isDigit = rest := by
  have hsplit : rest.takeWhile Char.isDigit ++ rest.dropWhile Char.isDigit = rest :=
    List.takeWhile_append_dropWhile
  rwa [h.takeWhile_isDigit] at hsplit

theorem reads_digits {d : Char} {ds : List Char} (hdigits : ∀ c ∈ d :: ds, c.isDigit = true) :
    (digits cut).Reads (d :: ds ++ rest) (d :: ds) rest := by
  have htake := Decimal.takeWhile_digits_append hdigits h.takeWhile_isDigit
  have hdrop := Decimal.dropWhile_digits_append hdigits h.dropWhile_isDigit
  refine (reads_get _).bind ?_
  rw [htake, hdrop]
  exact rfl

theorem reads_wholeDigits (n : Nat) :
    (wholeDigits cut).Reads (Nat.toDigits 10 n ++ rest) (Nat.toDigits 10 n) rest := by
  have hdigits : ∀ c ∈ Nat.toDigits 10 n, c.isDigit = true := fun c =>
    Nat.isDigit_of_mem_toDigits (by decide) (by decide)
  have hzero := toDigits_ne_zero_cons n
  obtain ⟨d, ds, hds⟩ := List.exists_cons_of_ne_nil (Nat.toDigits_ne_nil (n := n) (b := 10))
  rw [hds] at hdigits hzero ⊢
  refine (reads_digits h cut hdigits).bind ?_
  split
  · next second more heq => exact absurd heq (hzero second more)
  · exact reads_pure _ _

theorem reads_fractionPart : (fractionPart cut).Reads rest none rest := by
  cases rest with
  | nil => rfl
  | cons c rest => rcases h c rfl with rfl | rfl | rfl <;> rfl

theorem reads_exponentPart : (exponentPart cut).Reads rest none rest := by
  cases rest with
  | nil => rfl
  | cons c rest => rcases h c rfl with rfl | rfl | rfl <;> rfl

/-- The parts of a whole number as it is written. -/
def NumberText.ofInt (n : Int) : NumberText :=
  ⟨decide (n < 0), Nat.toDigits 10 n.natAbs, none, none⟩

theorem reads_numberText (n : Int) :
    (numberText cut).Reads (writeInt n ++ rest) (.ofInt n) rest := by
  have hparts (negative : Bool) : (do
      let whole ← wholeDigits cut
      let fraction ← fractionPart cut
      let exponent ← exponentPart cut
      return ⟨negative, whole, fraction, exponent⟩ : Reader NumberText).Reads
        (Nat.toDigits 10 n.natAbs ++ rest) ⟨negative, Nat.toDigits 10 n.natAbs, none, none⟩ rest :=
    (reads_wholeDigits h cut _).bind ((reads_fractionPart h cut).bind
      ((reads_exponentPart h cut).bind (reads_pure _ _)))
  unfold writeInt NumberText.ofInt
  by_cases hneg : n < 0
  · rw [if_pos hneg, decide_eq_true hneg]
    exact (reads_get _).bind ((reads_advance '-' _).bind (hparts true))
  · rw [if_neg hneg, decide_eq_false hneg]
    have hhead : ((Nat.toDigits 10 n.natAbs ++ rest).head? == some '-') = false := by
      obtain ⟨d, ds, hds⟩ := List.exists_cons_of_ne_nil
        (Nat.toDigits_ne_nil (n := n.natAbs) (b := 10))
      have hd : d.isDigit = true := Nat.isDigit_of_mem_toDigits (n := n.natAbs) (by decide)
        (by decide) (hds ▸ List.mem_cons_self)
      rw [hds]
      refine beq_eq_false_iff_ne.mpr fun hminus => ?_
      rw [Option.some.inj hminus] at hd
      exact absurd hd (by decide)
    refine (reads_get _).bind ?_
    dsimp only
    rw [hhead]
    exact hparts false

end Number

theorem toInt?_ofInt {n : Int} (hmin : minInt64 ≤ n) (hmax : n ≤ maxUInt64) :
    (NumberText.ofInt n).toInt? = some n := by
  have hsize : Nat.ofDigitChars 10 (Nat.toDigits 10 n.natAbs) 0 = n.natAbs :=
    Nat.ofDigitChars_toDigits (by decide) (by decide)
  simp only [NumberText.toInt?, NumberText.ofInt, hsize, Option.isSome_none, Bool.or_self,
    Bool.false_eq_true, if_false]
  by_cases hneg : n < 0
  · have hfits : ¬ (((n.natAbs : Int) = 0 || decide (-(n.natAbs : Int) < minInt64)) = true) := by
      simp only [Bool.or_eq_true, decide_eq_true_eq]
      omega
    rw [if_pos (decide_eq_true hneg), if_neg hfits]
    exact congrArg some (by omega)
  · rw [if_neg (by simpa using hneg), if_neg (by omega)]
    exact congrArg some (by omega)

theorem reads_number {n : Int} (hmin : minInt64 ≤ n) (hmax : n ≤ maxUInt64) {rest : List Char}
    (h : EndsValue rest) : number.Reads (writeInt n ++ rest) (.int n) rest := by
  refine (reads_numberText h .truncated n).bind ?_
  rw [toInt?_ofInt hmin hmax]
  exact reads_pure _ _

/-! ## Values without brackets -/

theorem reads_word (text : String) (rest : List Char) :
    (word text).Reads (text.toList ++ rest) () rest := by
  have hprefix : text.toList.isPrefixOf (text.toList ++ rest) = true :=
    List.isPrefixOf_iff_prefix.mpr (List.prefix_append _ _)
  show StateT.run (if text.toList.isPrefixOf (text.toList ++ rest) then
      set ((text.toList ++ rest).drop text.length)
    else if (text.toList ++ rest).isPrefixOf text.toList then throw .truncated
    else throw .malformed : Reader Unit) (text.toList ++ rest) = _
  rw [if_pos hprefix, ← String.length_toList, List.drop_left]
  rfl

/-- From the text of the JSON that it was written as, a reader yields the value, whatever
stands behind that text. -/
def Reader.Recovers {α : Type} (reader : Reader α) (x : α) (written : Json) : Prop :=
  ∀ rest, EndsValue rest → reader.Reads (written.compactChars ++ rest) x rest

/-- A value begins here: it has a first character, which is no blank and closes no list. -/
def StartsValue (cs : List Char) : Prop :=
  ∃ c rest, cs = c :: rest ∧ isSpace c = false ∧ c ≠ ']'

theorem StartsValue.append {cs : List Char} (h : StartsValue cs) (rest : List Char) :
    StartsValue (cs ++ rest) := by
  obtain ⟨c, more, rfl, hstart⟩ := h
  exact ⟨c, more ++ rest, rfl, hstart⟩

theorem startsValue_compactChars {x : Json} (hx : x.Finite) : StartsValue x.compactChars := by
  obtain ⟨c, more, hc, hform⟩ := exists_cons_compactChars hx
  refine ⟨c, more, hc, ?_, ?_⟩
  · refine Bool.eq_false_iff.mpr fun hspace => ?_
    simp only [isSpace, Bool.or_eq_true, decide_eq_true_eq] at hspace
    rcases hspace with ((rfl | rfl) | rfl) | rfl <;> cases hform
  · rintro rfl
    cases hform

theorem scalar_of_numeral {c : Char} (h : c = '-' ∨ c.isDigit = true) : scalar c = number := by
  unfold scalar
  split
  · exact absurd h (by decide)
  · exact absurd h (by decide)
  · exact absurd h (by decide)
  · exact absurd h (by decide)
  · rw [if_pos (by simpa using h)]

/-- A value that opens no bracket is read as a scalar, at any depth. -/
theorem reads_valueOf {inner : Option (Reader Json)} {c : Char} {cs rest : List Char} {x : Json}
    (hspace : isSpace c = false) (hlist : c ≠ '[') (hobject : c ≠ '\x7b')
    (h : (scalar c).Reads (c :: cs) x rest) : (valueOf inner).Reads (c :: cs) x rest := by
  refine (reads_peek hspace).bind ?_
  split
  · next heq => cases heq
  · next heq => exact absurd (Option.some.inj heq) hlist
  · next heq => exact absurd (Option.some.inj heq) hobject
  · next heq => exact Option.some.inj heq ▸ h

theorem recovers_null (inner : Option (Reader Json)) : (valueOf inner).Recovers .null .null :=
  fun rest _ => reads_valueOf (by decide) (by decide) (by decide)
    ((reads_word "null" rest).bind (reads_pure _ _))

theorem recovers_bool (inner : Option (Reader Json)) (b : Bool) :
    (valueOf inner).Recovers (.bool b) (.bool b) := by
  intro rest _
  cases b with
  | false =>
      exact reads_valueOf (by decide) (by decide) (by decide)
        ((reads_word "false" rest).bind (reads_pure _ _))
  | true =>
      exact reads_valueOf (by decide) (by decide) (by decide)
        ((reads_word "true" rest).bind (reads_pure _ _))

theorem recovers_str (inner : Option (Reader Json)) (text : String) :
    (valueOf inner).Recovers (.str text) (.str text) := by
  intro rest _
  rw [compactChars, quote, List.cons_append, List.append_assoc]
  exact reads_valueOf (by decide) (by decide) (by decide)
    ((reads_advance _ _).bind ((reads_string text rest).bind (reads_pure _ _)))

theorem recovers_int (inner : Option (Reader Json)) {n : Int} (hmin : minInt64 ≤ n)
    (hmax : n ≤ maxUInt64) : (valueOf inner).Recovers (.int n) (.int n) := by
  intro rest h
  have hnumber := reads_number hmin hmax h
  obtain ⟨c, more, hc⟩ := List.exists_cons_of_ne_nil (writeInt_ne_nil n)
  have hnumeral : c = '-' ∨ c.isDigit = true :=
    (isDigit_or_minus_of_mem_writeInt (n := n) (hc ▸ List.mem_cons_self)).symm
  rw [compactChars]
  rw [hc, List.cons_append] at hnumber ⊢
  refine reads_valueOf ?_ ?_ ?_ (by rwa [scalar_of_numeral hnumeral])
  · refine Bool.eq_false_iff.mpr fun hspace => ?_
    simp only [isSpace, Bool.or_eq_true, decide_eq_true_eq] at hspace
    rcases hspace with ((rfl | rfl) | rfl) | rfl <;> exact absurd hnumeral (by decide)
  · rintro rfl
    exact absurd hnumeral (by decide)
  · rintro rfl
    exact absurd hnumeral (by decide)

/-! ## Lists -/

section Lists

variable {α : Type} {item : Reader α}

/-- Every item of a list is read back, and can be told from the end of the list. -/
abbrev Reader.RecoversItems (item : Reader α) : List α → List Json → Prop :=
  List.Forall₂ fun x written => StartsValue written.compactChars ∧ item.Recovers x written

theorem reads_nextItem {cs : List Char} (h : StartsValue cs) :
    (nextItem true).Reads cs true cs := by
  obtain ⟨c, rest, rfl, hspace, hclose⟩ := h
  refine (reads_peek hspace).bind ?_
  split
  · next heq => cases heq
  · next heq => exact absurd (Option.some.inj heq) hclose
  · exact reads_pure _ _

theorem reads_nextItem_comma {cs : List Char} (h : StartsValue cs) :
    (nextItem false).Reads (',' :: cs) true cs := by
  obtain ⟨c, rest, rfl, hspace, hclose⟩ := h
  refine (reads_peek (by decide)).bind ((reads_advance ',' _).bind ((reads_peek hspace).bind ?_))
  split
  · next heq => cases heq
  · next heq => exact absurd (Option.some.inj heq) hclose
  · exact reads_pure _ _

theorem reads_nextItem_close (first : Bool) (rest : List Char) :
    (nextItem first).Reads (']' :: rest) false (']' :: rest) :=
  (reads_peek (by decide)).bind (reads_pure _ _)

theorem reads_moreItems (rest : List Char) {xs : List α} {written : List Json}
    (h : item.RecoversItems xs written) :
    ∀ bound : List Char, xs.length < bound.length →
      (itemsUpTo item bound false).Reads (compactMoreItems written ++ ']' :: rest) xs
        (']' :: rest) := by
  induction h with
  | nil =>
      intro bound hbound
      obtain ⟨c, bound, rfl⟩ := List.exists_cons_of_length_pos hbound
      exact (reads_nextItem_close false rest).bind (reads_pure _ _)
  | @cons x json xs written hx _ ih =>
      intro bound hbound
      obtain ⟨c, bound, rfl⟩ := List.exists_cons_of_length_pos (Nat.zero_lt_of_lt hbound)
      rw [compactMoreItems, List.cons_append, List.append_assoc]
      exact (reads_nextItem_comma (hx.1.append _)).bind
        ((hx.2 _ (endsValue_moreItems _ _)).bind
          ((ih bound (Nat.lt_of_succ_lt_succ hbound)).bind (reads_pure _ _)))

theorem length_le_length_moreItems (items : List Json) :
    items.length ≤ (compactMoreItems items).length := by
  induction items with
  | nil => exact Nat.le_refl 0
  | cons item rest ih =>
      simp only [compactMoreItems, List.length_cons, List.length_append]
      omega

theorem reads_itemsUpTo (rest : List Char) {xs : List α} {written : List Json}
    (h : item.RecoversItems xs written)
    {bound : List Char} (hbound : xs.length < bound.length) :
    (itemsUpTo item bound true).Reads (compactItems written ++ ']' :: rest) xs (']' :: rest) := by
  obtain ⟨c, bound, rfl⟩ := List.exists_cons_of_length_pos (Nat.zero_lt_of_lt hbound)
  cases h with
  | nil => exact (reads_nextItem_close true rest).bind (reads_pure _ _)
  | cons hx htail =>
      rw [compactItems, List.append_assoc]
      exact (reads_nextItem (hx.1.append _)).bind
        ((hx.2 _ (endsValue_moreItems _ _)).bind
          ((reads_moreItems rest htail bound (Nat.lt_of_succ_lt_succ hbound)).bind
            (reads_pure _ _)))

theorem length_lt_length_items {xs : List α} {written : List Json} (rest : List Char)
    (h : item.RecoversItems xs written) :
    xs.length < (compactItems written ++ ']' :: rest).length := by
  cases h with
  | nil => exact Nat.succ_pos _
  | @cons x json xs written hx htail =>
      have hmore := length_le_length_moreItems written
      obtain ⟨c, more, htext, -⟩ := hx.1
      have hjson := congrArg List.length htext
      rw [List.length_cons] at hjson
      simp only [compactItems, List.length_append, List.length_cons, htail.length_eq]
      omega

/-- The items of a list are read one after the other. -/
theorem reads_items (rest : List Char) {xs : List α} {written : List Json}
    (h : item.RecoversItems xs written) :
    (items item).Reads (compactItems written ++ ']' :: rest) xs rest := by
  exact (reads_get _).bind ((reads_itemsUpTo rest h (length_lt_length_items rest h)).bind
    ((reads_advance _ _).bind (reads_pure _ _)))

end Lists

/-! ## Objects -/

section Objects

variable {σ : Type} {member : String → σ → Reader σ} {state between after : σ}

/-- Reading the members one after the other takes one state to another. -/
inductive Gathers (member : String → σ → Reader σ) : σ → Attributes → σ → Prop where
  | nil (state : σ) : Gathers member state [] state
  | cons {state between after : σ} {key : String} {value : Json} {members : Attributes}
      (first : ∀ rest, EndsValue rest →
        (member key state).Reads (':' :: (value.compactChars ++ rest)) between rest)
      (more : Gathers member between members after) :
      Gathers member state ((key, value) :: members) after

theorem Gathers.append {members others : Attributes} (h : Gathers member state members between)
    (hothers : Gathers member between others after) :
    Gathers member state (members ++ others) after := by
  induction h with
  | nil => exact hothers
  | cons first _ ih => exact .cons first (ih hothers)

theorem reads_nextMember (cs : List Char) : (nextMember true).Reads ('"' :: cs) true cs :=
  (reads_peek (by decide)).bind ((reads_advance _ _).bind (reads_pure _ _))

theorem reads_nextMember_comma (cs : List Char) :
    (nextMember false).Reads (',' :: '"' :: cs) true cs :=
  (reads_peek (by decide)).bind ((reads_advance ',' _).bind ((reads_peek (by decide)).bind
    ((reads_advance _ _).bind (reads_pure _ _))))

theorem reads_nextMember_close (first : Bool) (rest : List Char) :
    (nextMember first).Reads ('\x7d' :: rest) false ('\x7d' :: rest) :=
  (reads_peek (by decide)).bind (reads_pure _ _)

theorem reads_colon (rest : List Char) : colon.Reads (':' :: rest) () rest :=
  (reads_peek (by decide)).bind (reads_advance _ _)

theorem reads_moreMembers (rest : List Char) {members : Attributes}
    (h : Gathers member state members after) :
    ∀ bound : List Char, members.length < bound.length →
      (membersUpTo string member bound false state).Reads
        (compactMoreMembers members ++ '\x7d' :: rest) after ('\x7d' :: rest) := by
  induction h with
  | nil state =>
      intro bound hbound
      obtain ⟨c, bound, rfl⟩ := List.exists_cons_of_length_pos hbound
      exact (reads_nextMember_close false rest).bind (reads_pure _ _)
  | @cons state between after key value members first _ ih =>
      intro bound hbound
      obtain ⟨c, bound, rfl⟩ := List.exists_cons_of_length_pos (Nat.zero_lt_of_lt hbound)
      have htext : compactMoreMembers ((key, value) :: members) ++ '\x7d' :: rest =
          ',' :: '"' :: (key.toList.flatMap escapeChar ++ '"' :: ':' ::
            (value.compactChars ++ (compactMoreMembers members ++ '\x7d' :: rest))) := by
        simp [compactMoreMembers, quote]
      rw [htext]
      exact (reads_nextMember_comma _).bind ((reads_string key _).bind
        ((first _ (endsValue_moreMembers _ _)).bind (ih bound (Nat.lt_of_succ_lt_succ hbound))))

theorem reads_membersUpTo (rest : List Char) {members : Attributes}
    (h : Gathers member state members after) {bound : List Char}
    (hbound : members.length < bound.length) :
    (membersUpTo string member bound true state).Reads
      (compactMembers members ++ '\x7d' :: rest) after ('\x7d' :: rest) := by
  obtain ⟨c, bound, rfl⟩ := List.exists_cons_of_length_pos (Nat.zero_lt_of_lt hbound)
  cases h with
  | nil => exact (reads_nextMember_close true rest).bind (reads_pure _ _)
  | @cons _ between _ key value members first more =>
      have htext : compactMembers ((key, value) :: members) ++ '\x7d' :: rest =
          '"' :: (key.toList.flatMap escapeChar ++ '"' :: ':' ::
            (value.compactChars ++ (compactMoreMembers members ++ '\x7d' :: rest))) := by
        simp [compactMembers, quote]
      rw [htext]
      exact (reads_nextMember _).bind ((reads_string key _).bind
        ((first _ (endsValue_moreMembers _ _)).bind
          (reads_moreMembers rest more bound (Nat.lt_of_succ_lt_succ hbound))))

theorem length_le_length_moreMembers (members : Attributes) :
    members.length ≤ (compactMoreMembers members).length := by
  induction members with
  | nil => exact Nat.le_refl 0
  | cons member rest ih =>
      simp only [compactMoreMembers, List.length_cons, List.length_append]
      omega

theorem length_le_length_members (members : Attributes) :
    members.length ≤ (compactMembers members).length := by
  cases members with
  | nil => exact Nat.le_refl 0
  | cons member rest =>
      have hmore := length_le_length_moreMembers rest
      simp only [compactMembers, List.length_cons, List.length_append]
      omega

/-- The members of an object are read one after the other. -/
theorem reads_members (rest : List Char) {written : Attributes}
    (h : Gathers member state written after) :
    (members string member state).Reads (compactMembers written ++ '\x7d' :: rest) after rest := by
  have hbound : written.length < (compactMembers written ++ '\x7d' :: rest).length := by
    have := length_le_length_members written
    simp only [List.length_append, List.length_cons]
    omega
  exact (reads_get _).bind ((reads_membersUpTo rest h hbound).bind
    ((reads_advance _ _).bind (reads_pure _ _)))

end Objects

/-! ## Values -/

mutual

/-- A value that a reader can yield: its numbers are whole and fit 64 bits, and its objects are
sorted by key. -/
def Exact : Json → Prop
  | .null | .bool _ | .str _ => True
  | .int n => minInt64 ≤ n ∧ n ≤ maxUInt64
  | .float _ => False
  | .arr items => ExactItems items
  | .obj members => ExactMembers members

def ExactItems : List Json → Prop
  | [] => True
  | item :: rest => item.Exact ∧ ExactItems rest

def ExactMembers : Attributes → Prop
  | [] => True
  | (key, value) :: rest => value.Exact ∧ (∀ later ∈ rest, key < later.1) ∧ ExactMembers rest

end

mutual

/-- How deep lists and objects are nested. -/
def depth : Json → Nat
  | .null | .bool _ | .int _ | .float _ | .str _ => 0
  | .arr items => itemsDepth items + 1
  | .obj members => membersDepth members + 1

def itemsDepth : List Json → Nat
  | [] => 0
  | item :: rest => max item.depth (itemsDepth rest)

def membersDepth : Attributes → Nat
  | [] => 0
  | (_, value) :: rest => max value.depth (membersDepth rest)

end

mutual

theorem Exact.finite : ∀ {x : Json}, x.Exact → x.Finite
  | .null, _ | .bool _, _ | .int _, _ | .str _, _ => trivial
  | .arr _, h => ExactItems.finite h
  | .obj _, h => ExactMembers.finite h

theorem ExactItems.finite : ∀ {items : List Json}, ExactItems items → FiniteItems items
  | [], _ => trivial
  | _ :: _, h => ⟨h.1.finite, h.2.finite⟩

theorem ExactMembers.finite : ∀ {members : Attributes}, ExactMembers members → FiniteMembers members
  | [], _ => trivial
  | _ :: _, h => ⟨h.1.finite, h.2.2.finite⟩

end

/-- A key that is larger than all others comes last. -/
theorem insert_eq_append {key : String} {value : Json} : ∀ {members : Attributes},
    (∀ member ∈ members, member.1 < key) →
      Keyed.insert key value members = members ++ [(key, value)]
  | [], _ => rfl
  | (first, _) :: rest, h => by
      obtain ⟨hfirst, hrest⟩ := List.forall_mem_cons.mp h
      have hne : key ≠ first := by
        rintro rfl
        exact String.lt_irrefl _ hfirst
      rw [Keyed.insert, if_neg (String.lt_asymm hfirst), if_neg hne, insert_eq_append hrest,
        List.cons_append]

/-- A reader of members that puts each value under its key. -/
def freeMember (value : Reader Json) (key : String) (members : Attributes) : Reader Attributes := do
  colon
  return Keyed.insert key (← value) members

theorem value_eq (depth : Nat) : value depth = valueOf (nested depth value) := by
  cases depth <;> rfl

mutual

/-- A value is read back if as many levels are left as it takes. -/
theorem recovers_value : ∀ x : Json, x.Exact → ∀ depth, x.depth ≤ depth →
    (value depth).Recovers x x
  | .null, _, depth, _ => value_eq depth ▸ recovers_null _
  | .bool b, _, depth, _ => value_eq depth ▸ recovers_bool _ b
  | .int _, h, depth, _ => value_eq depth ▸ recovers_int _ h.1 h.2
  | .str text, _, depth, _ => value_eq depth ▸ recovers_str _ text
  | .arr items, h, depth + 1, hdepth => by
      intro rest _
      have hitems := recovers_items items h depth (Nat.le_of_succ_le_succ hdepth)
      rw [compactChars, List.cons_append, List.append_assoc]
      exact (reads_peek (by decide)).bind ((reads_advance _ _).bind
        ((reads_items rest (List.forall₂_same.mpr hitems)).map Json.arr))
  | .obj members, h, depth + 1, hdepth => by
      intro rest _
      have hmembers := gathers_freeMember members h depth (Nat.le_of_succ_le_succ hdepth) [] nofun
      rw [compactChars, List.cons_append, List.append_assoc]
      exact (reads_peek (by decide)).bind ((reads_advance _ _).bind
        ((reads_members rest hmembers).map Json.obj))

theorem recovers_items : ∀ items : List Json, ExactItems items →
    ∀ depth, itemsDepth items ≤ depth →
      ∀ x ∈ items, StartsValue x.compactChars ∧ (value depth).Recovers x x
  | [], _, _, _ => nofun
  | item :: rest, h, depth, hdepth => by
      obtain ⟨hitem, hrest⟩ := Nat.max_le.mp hdepth
      exact List.forall_mem_cons.mpr
        ⟨⟨startsValue_compactChars h.1.finite, recovers_value item h.1 depth hitem⟩,
          recovers_items rest h.2 depth hrest⟩

theorem gathers_freeMember : ∀ members : Attributes, ExactMembers members →
    ∀ depth, membersDepth members ≤ depth →
      ∀ before : Attributes, (∀ member ∈ before, ∀ later ∈ members, member.1 < later.1) →
        Gathers (freeMember (value depth)) before members (before ++ members)
  | [], _, _, _, before, _ => by
      rw [List.append_nil]
      exact .nil before
  | (key, x) :: more, h, depth, hdepth, before, hbefore => by
      obtain ⟨hx, hmore⟩ := Nat.max_le.mp hdepth
      have hkey : ∀ member ∈ before, member.1 < key := fun member hmem =>
        hbefore member hmem (key, x) List.mem_cons_self
      have hlater : ∀ member ∈ before ++ [(key, x)], ∀ later ∈ more, member.1 < later.1 := by
        intro member hmem later hlater
        rcases List.mem_append.mp hmem with hmem | hmem
        · exact hbefore member hmem later (List.mem_cons_of_mem _ hlater)
        · rw [List.mem_singleton.mp hmem]
          exact h.2.1 later hlater
      have hstep := gathers_freeMember more h.2.2 depth hmore _ hlater
      rw [List.append_assoc, List.singleton_append] at hstep
      refine .cons (fun rest hrest => ?_) hstep
      rw [← insert_eq_append hkey]
      exact (reads_colon _).bind ((recovers_value x h.1 depth hx rest hrest).bind (reads_pure _ _))

end

/-- An object of free-form values is read back. -/
theorem recovers_attributes {members : Attributes} (h : ExactMembers members) {depth : Nat}
    (hdepth : (Json.obj members).depth ≤ depth) :
    (attributes depth).Recovers members (.obj members) := by
  intro rest _
  cases depth with
  | zero => cases hdepth
  | succ depth =>
      have hmembers := gathers_freeMember members h depth (Nat.le_of_succ_le_succ hdepth) [] nofun
      rw [compactChars, List.cons_append, List.append_assoc]
      exact (reads_peek (by decide)).bind ((reads_advance _ _).bind (reads_members rest hmembers))

end RichDoc.Json
