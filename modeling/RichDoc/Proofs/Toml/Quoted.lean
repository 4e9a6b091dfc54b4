import Mathlib.Tactic.Common
import RichDoc.Toml.Printer
import RichDoc.Toml.Reader

/-!
# Quoted strings are read back

A string is written in one of four forms. They show most characters as
they are, and all that can go wrong is that a quote of the text is taken
for one that closes it, or that something stands in the text that the form
does not admit. `Shows` is the relation of a text and what stands for it
between the quotes: between three of them up to two quotes in a row as
they are, and escapes where the form has them. A string in one of the
forms (`SpellsString`) is read (`string_of_spells`), and a string that is
quoted is in one of them (`spells_quoteChars`).

How a string ends depends on what stands behind it: two quotes are an
empty string only if no third one follows. So the statements have a
character there that is no quote.
-/

namespace RichDoc.Toml

/-! ## Escapes -/

theorem unicode?_append (ds rest : List Char) {width : Nat} (hlength : ds.length = width) :
    unicode? width (ds ++ rest) = (unicode? width ds).map fun (c, _) => (c, rest) := by
  subst hlength
  simp only [unicode?, List.take_left, List.drop_left, List.take_length]
  cases ds.mapM (digitIn? 16) with
  | none => rfl
  | some values =>
      simp only [Option.bind_eq_bind, Option.bind_some]
      split <;> rfl

/-- A control character is read from its number. -/
theorem escaped?_code {c : Char} (h : needsCode c = true) (rest : List Char) :
    escaped? ('u' :: '0' :: '0' :: hexDigit (c.toNat / 16) :: hexDigit c.toNat :: rest) =
      some (c, rest) := by
  have hsmall : c.toNat < 0x80 := by
    simp only [needsCode, Bool.and_eq_true, Bool.or_eq_true, decide_eq_true_eq] at h
    omega
  have hcode : ∀ n < 0x80, unicode? 4 ['0', '0', hexDigit (n / 16), hexDigit n] =
      some (Char.ofNat n, []) := by decide
  have happend :=
    @unicode?_append ['0', '0', hexDigit (c.toNat / 16), hexDigit c.toNat] rest 4 rfl
  refine happend.trans ?_
  rw [hcode c.toNat hsmall, Option.map_some, Char.ofNat_toNat]

/-- What stands behind a backslash for a character. -/
structure Escapes (code : List Char) (c : Char) : Prop where
  reads (rest : List Char) : escaped? (code ++ rest) = some (c, rest)
  not_joined (rest : List Char) : joined? (code ++ rest) = none

theorem escapes_quote : Escapes ['"'] '"' := ⟨fun _ => rfl, fun _ => rfl⟩

/-- Between double quotes a character stands for itself or is escaped. -/
theorem escapeChar_cases (keepLines : Bool) (c : Char) :
    (escapeChar keepLines c = [c] ∧ c ≠ '\\' ∧
      (isVisible c = true ∨ keepLines = true ∧ c = '\n')) ∨
    ∃ code, escapeChar keepLines c = '\\' :: code ∧ Escapes code c := by
  have hletter (n : Nat) (hn : c.toNat = n) : c = Char.ofNat n := by
    rw [← hn, Char.ofNat_toNat]
  unfold escapeChar
  split
  next h => exact .inr ⟨['t'], rfl, fun _ => h ▸ rfl, fun _ => rfl⟩
  next htab =>
  split
  next h =>
      cases keepLines with
      | false => exact .inr ⟨['n'], rfl, fun _ => h ▸ rfl, fun _ => rfl⟩
      | true => exact .inl ⟨by rw [h]; rfl, by rw [h]; decide, .inr ⟨rfl, h⟩⟩
  next hline =>
  split
  next h => exact .inr ⟨['\\'], rfl, fun _ => by rw [h]; rfl, fun _ => rfl⟩
  next hslash =>
  split
  next h => exact .inr ⟨['b'], rfl, fun _ => hletter _ h ▸ rfl, fun _ => rfl⟩
  split
  next h => exact .inr ⟨['f'], rfl, fun _ => hletter _ h ▸ rfl, fun _ => rfl⟩
  split
  next h => exact .inr ⟨['r'], rfl, fun _ => hletter _ h ▸ rfl, fun _ => rfl⟩
  split
  next h => exact .inr ⟨_, rfl, escaped?_code h, fun _ => rfl⟩
  next hcode =>
      refine .inl ⟨rfl, hslash, .inl ?_⟩
      simp only [needsCode, isVisible, Bool.and_eq_true, Bool.or_eq_true, decide_eq_true_eq] at *
      refine .inr ⟨?_, ?_⟩ <;> grind

/-! ## What stands between quotes -/

/-- A text shows characters between quotes if it has them as they are or
escaped. At most `row` quotes stand in a row, and `left` of them may still
follow; where there may be some, there may be line feeds too. -/
inductive Shows (quote : Char) (escapes : Bool) (row : Nat) :
    (left : Nat) → List Char → List Char → Prop
  | nil {left : Nat} : Shows quote escapes row left [] []
  | quote {left : Nat} {text cs : List Char} (h : Shows quote escapes row left text cs) :
      Shows quote escapes row (left + 1) (quote :: text) (quote :: cs)
  | plain {left : Nat} {c : Char} {text cs : List Char} (hquote : c ≠ quote)
      (hslash : escapes = true → c ≠ '\\') (hvisible : isVisible c = true ∨ 0 < row ∧ c = '\n')
      (h : Shows quote escapes row row text cs) : Shows quote escapes row left (c :: text) (c :: cs)
  | escaped {left : Nat} {c : Char} {code text cs : List Char} (hescapes : escapes = true)
      (hcode : Escapes code c) (h : Shows quote escapes row row text cs) :
      Shows quote escapes row left ('\\' :: code ++ text) (c :: cs)

/-! ### On one line -/

section Line

variable {left : Nat} {text cs : List Char}

/-- What a text shows between double quotes is read, up to the closing one. -/
theorem basicChars?_of_shows {bound : Nat} (h : Shows '"' true 0 left text cs) (hleft : left = 0)
    (hb : text.length < bound) (rest : List Char) :
    basicChars? bound (text ++ '"' :: rest) = some (cs, rest) := by
  induction h generalizing bound with
  | nil =>
      obtain ⟨bound, rfl⟩ := Nat.exists_eq_add_one.mpr (Nat.zero_lt_of_lt hb)
      rfl
  | quote => cases hleft
  | plain hquote hslash hvisible _ ih =>
      obtain ⟨bound, rfl⟩ := Nat.exists_eq_add_one.mpr (Nat.zero_lt_of_lt hb)
      rw [List.cons_append, basicChars?, if_pos (hvisible.resolve_right nofun),
        ih rfl (Nat.lt_of_succ_lt_succ hb)]
      · rfl
      · exact hquote
      · exact hslash rfl
  | escaped _ hcode _ ih =>
      obtain ⟨bound, rfl⟩ := Nat.exists_eq_add_one.mpr (Nat.zero_lt_of_lt hb)
      simp only [List.length_append, List.length_cons] at hb
      rw [List.cons_append, List.cons_append, List.append_assoc, basicChars?, hcode.reads]
      change ((basicChars? bound _).bind _) = _
      rw [ih rfl (by omega)]
      rfl

/-- What a text shows between single quotes is read, up to the closing one. -/
theorem literalChars?_of_shows (h : Shows '\'' false 0 left text cs) (hleft : left = 0)
    (rest : List Char) : literalChars? (text ++ '\'' :: rest) = some (cs, rest) := by
  induction h with
  | nil => rfl
  | quote => cases hleft
  | plain hquote _ hvisible _ ih =>
      rw [List.cons_append, literalChars?, if_pos (hvisible.resolve_right nofun), ih rfl]
      · rfl
      · exact hquote
  | escaped hescapes => cases hescapes

end Line

/-! ### Over several lines -/

section Shows

variable {quote : Char} {escapes : Bool} {left : Nat} {text cs : List Char}

theorem quotesInRow_cons_of_ne {c : Char} (h : c ≠ quote) (rest : List Char) :
    quotesInRow quote (c :: rest) = 0 := by
  simp [quotesInRow, h]

theorem quotesInRow_cons_self (rest : List Char) :
    quotesInRow quote (quote :: rest) = quotesInRow quote rest + 1 := by
  simp [quotesInRow]

/-- Quotes at the front of a text are the last of it, or they are too few to close it. -/
theorem Shows.quotesInRow_le {row : Nat} (h : Shows quote escapes row left text cs)
    (hslash : quote ≠ '\\') (tail : List Char) :
    (∃ count ≤ left, text = List.replicate count quote ∧ cs = List.replicate count quote) ∨
      quotesInRow quote (text ++ tail) ≤ left := by
  induction h with
  | nil => exact .inl ⟨0, Nat.zero_le _, rfl, rfl⟩
  | quote _ ih =>
      refine ih.imp ?_ fun hle => ?_
      · rintro ⟨count, hle, rfl, rfl⟩
        exact ⟨count + 1, Nat.succ_le_succ hle, rfl, rfl⟩
      · rw [List.cons_append, quotesInRow_cons_self]
        exact Nat.succ_le_succ hle
  | plain hquote =>
      rw [List.cons_append, quotesInRow_cons_of_ne hquote]
      exact .inr (Nat.zero_le _)
  | escaped =>
      rw [List.cons_append, List.cons_append, quotesInRow_cons_of_ne hslash.symm]
      exact .inr (Nat.zero_le _)

/-- At most two quotes and the three behind them close a text. -/
theorem multilineChars?_quotes {bound count : Nat} {next : Char} (hcount : count ≤ 2)
    (hnext : next ≠ quote) (rest : List Char) :
    multilineChars? quote escapes (bound + 1)
        (List.replicate count quote ++ quote :: quote :: quote :: next :: rest) =
      some (List.replicate count quote, next :: rest) := by
  have hrow : quotesInRow quote
      (List.replicate count quote ++ quote :: quote :: quote :: next :: rest) = count + 3 := by
    clear hcount
    induction count with
    | zero =>
        simp only [List.replicate_zero, List.nil_append, quotesInRow_cons_self,
          quotesInRow_cons_of_ne hnext]
    | succ count ih =>
        rw [List.replicate_succ, List.cons_append, quotesInRow_cons_self, ih]
  have hdrop : (List.replicate count quote ++ quote :: quote :: quote :: next :: rest).drop
      (count + 3) = next :: rest := by
    rw [← List.drop_drop, List.drop_left' List.length_replicate]
    rfl
  have hclosing : closing? (count + 3) = some count := by
    rw [closing?, if_pos (Nat.le_add_left _ _)]
    congr 1
    omega
  obtain ⟨tail, htail⟩ : ∃ tail,
      List.replicate count quote ++ quote :: quote :: quote :: next :: rest = quote :: tail := by
    cases count with
    | zero => exact ⟨_, rfl⟩
    | succ count => exact ⟨_, rfl⟩
  rw [htail] at hrow hdrop ⊢
  rw [multilineChars?, if_pos rfl, hrow, hclosing]
  dsimp only
  rw [hdrop]

/-- What a text shows is read back, up to the closing quotes. -/
theorem multilineChars?_of_shows {bound : Nat} {next : Char} (hslash : quote ≠ '\\')
    (hnext : next ≠ quote) (rest : List Char) (h : Shows quote escapes 2 left text cs)
    (hleft : left ≤ 2) (hb : text.length < bound) :
    multilineChars? quote escapes bound (text ++ quote :: quote :: quote :: next :: rest) =
      some (cs, next :: rest) := by
  induction h generalizing bound with
  | nil =>
      obtain ⟨bound, rfl⟩ := Nat.exists_eq_add_one.mpr (Nat.zero_lt_of_lt hb)
      exact @multilineChars?_quotes quote escapes bound 0 next (Nat.zero_le _) hnext rest
  | @quote left text cs h ih =>
      obtain ⟨bound, rfl⟩ := Nat.exists_eq_add_one.mpr (Nat.zero_lt_of_lt hb)
      obtain ⟨count, hcount, hlast, hchars⟩ | hfew :=
        h.quote.quotesInRow_le hslash (quote :: quote :: quote :: next :: rest)
      · rw [hlast, hchars]
        exact multilineChars?_quotes (Nat.le_trans hcount hleft) hnext rest
      · have hopen : closing? (quotesInRow quote
            (quote :: (text ++ quote :: quote :: quote :: next :: rest))) = none := by
          rw [List.cons_append] at hfew
          exact if_neg (by omega)
        rw [List.cons_append, multilineChars?, if_pos rfl, hopen]
        dsimp only
        rw [ih (Nat.le_of_succ_le hleft) (Nat.lt_of_succ_lt_succ hb), Option.map_some]
  | @plain left c text cs hquote hplain hvisible h ih =>
      obtain ⟨bound, rfl⟩ := Nat.exists_eq_add_one.mpr (Nat.zero_lt_of_lt hb)
      have hnoescape : ¬(c = '\\' && escapes) = true := by
        simp only [Bool.and_eq_true, decide_eq_true_eq]
        exact fun ⟨hc, hescapes⟩ => hplain hescapes hc
      have hshown : (isVisible c || c = '\n' || (c = '\r' &&
          (text ++ quote :: quote :: quote :: next :: rest).head? = some '\n')) = true := by
        rcases hvisible with hvisible | ⟨-, rfl⟩
        · rw [hvisible]
          rfl
        · simp
      rw [List.cons_append, multilineChars?, if_neg hquote, if_neg hnoescape, if_pos hshown,
        ih (Nat.le_refl _) (Nat.lt_of_succ_lt_succ hb), Option.map_some]
  | @escaped left c code text cs hescapes hcode h ih =>
      obtain ⟨bound, rfl⟩ := Nat.exists_eq_add_one.mpr (Nat.zero_lt_of_lt hb)
      subst hescapes
      simp only [List.length_append, List.length_cons] at hb
      rw [List.cons_append, List.cons_append, List.append_assoc, multilineChars?,
        if_neg hslash.symm, if_pos (by decide), hcode.not_joined]
      dsimp only
      rw [hcode.reads]
      change ((multilineChars? quote true bound _).bind _) = _
      rw [ih (Nat.le_refl _) (by omega)]
      rfl

end Shows

/-- What is escaped between double quotes shows its characters. -/
theorem shows_escapeChars {keepLines : Bool} {row : Nat} (hlines : keepLines = true → 0 < row)
    (left : Nat) (cs : List Char) :
    Shows '"' true row left (escapeChars keepLines row left cs) cs := by
  fun_induction escapeChars keepLines row left cs with
  | case1 => exact .nil
  | case2 rest ih => exact .escaped rfl escapes_quote ih
  | case3 rest left ih => exact .quote ih
  | case4 left c rest hquote ih =>
      obtain ⟨hplain, hslash, hvisible⟩ | ⟨code, hcode, hreads⟩ := escapeChar_cases keepLines c
      · rw [hplain]
        exact .plain hquote (fun _ => hslash) (hvisible.imp_right (And.imp_left hlines)) ih
      · rw [hcode]
        exact .escaped rfl hreads ih

/-! ## Rows of quotes -/

section Runs

variable {quote : Char} {cs : List Char}

/-- One character more, for the longest run and the one at the end. -/
def countRun (quote : Char) : Nat × Nat → Char → Nat × Nat := fun (longest, run) c =>
  if c = quote then (max longest (run + 1), run + 1) else (longest, 0)

theorem le_foldl_countRun (longest run : Nat) :
    longest ≤ (cs.foldl (countRun quote) (longest, run)).1 := by
  induction cs generalizing longest run with
  | nil => exact Nat.le_refl _
  | cons c cs ih =>
      rw [List.foldl_cons, countRun]
      split
      · exact Nat.le_trans (Nat.le_max_left _ _) (ih _ _)
      · exact ih _ _

/-- Characters without too many quotes in a row show themselves. -/
theorem shows_self_of_foldl {row longest run : Nat}
    (hvisible : ∀ c ∈ cs, isVisible c = true ∨ 0 < row ∧ c = '\n')
    (hrun : (cs.foldl (countRun quote) (longest, run)).1 ≤ row) (hle : run ≤ row) :
    Shows quote false row (row - run) cs cs := by
  induction cs generalizing longest run with
  | nil => exact .nil
  | cons c cs ih =>
      have hrest := fun d hd => hvisible d (List.mem_cons_of_mem _ hd)
      rw [List.foldl_cons, countRun] at hrun
      split at hrun
      next hc =>
          subst hc
          have hlongest := @le_foldl_countRun c cs (max longest (run + 1)) (run + 1)
          have hshows := ih hrest hrun (by omega)
          have hleft : row - run = row - (run + 1) + 1 := by omega
          rw [hleft]
          exact .quote hshows
      next hc => exact .plain hc nofun (hvisible c List.mem_cons_self) (ih hrest hrun (by omega))

theorem shows_self {row : Nat} (hrun : longestRun quote cs ≤ row)
    (hvisible : ∀ c ∈ cs, isVisible c = true ∨ 0 < row ∧ c = '\n') :
    Shows quote false row row cs cs :=
  @shows_self_of_foldl quote cs row 0 0 hvisible hrun (Nat.zero_le _)

end Runs

/-! ## What stands in front of a string -/

theorem string_basic {tail : List Char} (h : ∀ rest, tail ≠ '"' :: '"' :: rest) :
    string ('"' :: tail) =
      (basicChars? (tail.length + 1) tail).map fun (cs, rest) => (String.ofList cs, rest) := by
  unfold string
  split
  case h_7 heq =>
      cases heq
      cases basicChars? (tail.length + 1) tail <;> rfl
  -- every other pattern starts with something else
  all_goals simp_all

theorem string_literal {tail : List Char} (h : ∀ rest, tail ≠ '\'' :: '\'' :: rest) :
    string ('\'' :: tail) =
      (literalChars? tail).map fun (cs, rest) => (String.ofList cs, rest) := by
  unfold string
  split
  case h_8 heq =>
      cases heq
      cases literalChars? tail <;> rfl
  all_goals simp_all

/-- The quotes of a string, and whether it has escapes. -/
inductive QuoteForm : Char → Bool → Prop
  | basic : QuoteForm '"' true
  | literal : QuoteForm '\'' false

section Forms

variable {quote : Char} {escapes : Bool} {text cs : List Char}

theorem QuoteForm.plain (form : QuoteForm quote escapes) :
    quote ≠ '\\' ∧ quote ≠ '\n' ∧ quote ≠ '\r' := by
  cases form <;> decide

theorem string_lines (form : QuoteForm quote escapes) (tail : List Char) :
    string (quote :: quote :: quote :: '\n' :: tail) =
      (multilineChars? quote escapes (tail.length + 1) tail).map
        fun (cs, rest) => (String.ofList cs, rest) := by
  cases form with
  | basic =>
      change (multilineChars? '"' true (tail.length + 1) tail).bind _ = _
      cases multilineChars? '"' true (tail.length + 1) tail <;> rfl
  | literal =>
      change (multilineChars? '\'' false (tail.length + 1) tail).bind _ = _
      cases multilineChars? '\'' false (tail.length + 1) tail <;> rfl

theorem string_line (form : QuoteForm quote escapes) {tail : List Char}
    (h : ∀ c ∈ tail.head?, c ≠ '\n' ∧ c ≠ '\r') :
    string (quote :: quote :: quote :: tail) =
      (multilineChars? quote escapes (tail.length + 1) tail).map
        fun (cs, rest) => (String.ofList cs, rest) := by
  cases form with
  | basic =>
      unfold string
      split
      case h_3 heq =>
          cases heq
          cases multilineChars? '"' true (tail.length + 1) tail <;> rfl
      case h_7 hmore heq =>
          cases heq
          exact (hmore tail rfl).elim
      all_goals simp_all
  | literal =>
      unfold string
      split
      case h_6 heq =>
          cases heq
          cases multilineChars? '\'' false (tail.length + 1) tail <;> rfl
      case h_8 hmore heq =>
          cases heq
          exact (hmore tail rfl).elim
      all_goals simp_all

/-- A string in one of the four forms, and its characters. A line feed right behind three quotes
is no part of it. -/
inductive SpellsString : List Char → List Char → Prop
  | line {quote : Char} {escapes : Bool} {text cs : List Char} (form : QuoteForm quote escapes)
      (h : Shows quote escapes 0 0 text cs) : SpellsString (quote :: (text ++ [quote])) cs
  | lines {quote : Char} {escapes : Bool} {front text cs : List Char}
      (form : QuoteForm quote escapes)
      (hfront : front = ['\n'] ∨ front = [] ∧ text.head? ≠ some '\n')
      (h : Shows quote escapes 2 2 text cs) :
      SpellsString (quote :: quote :: quote :: (front ++ text ++ [quote, quote, quote])) cs

/-- A text that starts with no line feed starts with no carriage return either. -/
theorem Shows.head_ne_newline {row left : Nat} (h : Shows quote escapes row left text cs)
    (hquote : quote ≠ '\n' ∧ quote ≠ '\r') (hline : text.head? ≠ some '\n') (tail : List Char) :
    ∀ c ∈ (text ++ quote :: tail).head?, c ≠ '\n' ∧ c ≠ '\r' := by
  intro c hc
  cases h with
  | nil => exact Option.mem_some.mp hc ▸ hquote
  | quote => exact Option.mem_some.mp hc ▸ hquote
  | @plain _ d _ _ _ _ hvisible =>
      obtain rfl : d = c := Option.mem_some.mp hc
      have hline : d ≠ '\n' := fun h => hline (congrArg some h)
      refine ⟨hline, ?_⟩
      rintro rfl
      exact absurd (hvisible.resolve_right fun h => hline h.2) (by decide)
  | escaped => exact Option.mem_some.mp hc ▸ ⟨by decide, by decide⟩

/-- A text on one line starts with no quote. -/
theorem Shows.ne_quotes (h : Shows quote escapes 0 0 text cs) (hquote : quote ≠ '\\') {next : Char}
    (hnext : next ≠ quote) (rest more : List Char) :
    text ++ quote :: next :: rest ≠ quote :: quote :: more := by
  intro heq
  cases h with
  | nil => exact hnext (List.cons.inj (List.cons.inj heq).2).1
  | plain hne => exact hne (List.cons.inj heq).1
  | escaped => exact hquote (List.cons.inj heq).1.symm

/-- **A string in one of the forms is read**, if no quote stands behind it. -/
theorem string_of_spells (h : SpellsString text cs) {next : Char} (hbasic : next ≠ '"')
    (hliteral : next ≠ '\'') (rest : List Char) :
    string (text ++ next :: rest) = some (String.ofList cs, next :: rest) := by
  cases h with
  | @line quote escapes text _ form h =>
      rw [List.cons_append, List.append_assoc, List.singleton_append]
      cases form with
      | basic =>
          have hb : text.length < (text ++ '"' :: next :: rest).length + 1 := by
            rw [List.length_append]
            omega
          rw [string_basic (h.ne_quotes (by decide) hbasic rest),
            basicChars?_of_shows h rfl hb, Option.map_some]
      | literal =>
          rw [string_literal (h.ne_quotes (by decide) hliteral rest),
            literalChars?_of_shows h rfl, Option.map_some]
  | @lines quote escapes front text _ form hfront h =>
      obtain ⟨hslash, hquote⟩ := form.plain
      have hnext : next ≠ quote := by
        cases form
        · exact hbasic
        · exact hliteral
      have hb : text.length < (text ++ quote :: quote :: quote :: next :: rest).length + 1 := by
        rw [List.length_append]
        omega
      have hread := multilineChars?_of_shows hslash hnext rest h (Nat.le_refl _) hb
      simp only [List.cons_append, List.append_assoc, List.nil_append]
      rcases hfront with rfl | ⟨rfl, hline⟩
      · rw [List.singleton_append, string_lines form, hread, Option.map_some]
      · rw [List.nil_append, string_line form (h.head_ne_newline hquote hline _), hread,
          Option.map_some]

end Forms

/-! ## Quoted strings -/

/-- Characters that need no code are visible, but for line feeds. -/
theorem visible_of_any_needsCode {c : Char} {cs : List Char} (h : cs.any needsCode = false)
    (hc : c ∈ cs) : isVisible c = true ∨ c = '\n' := by
  have h : needsCode c = false := Bool.eq_false_iff.mpr (List.any_eq_false.mp h c hc)
  by_cases htab : c = '\t'
  · exact .inl (by rw [htab]; rfl)
  · by_cases hline : c = '\n'
    · exact .inr hline
    · simp only [needsCode, isVisible, htab, hline, Bool.and_eq_false_iff, Bool.or_eq_false_iff,
        Bool.or_eq_true, Bool.and_eq_true, decide_eq_true_eq, decide_eq_false_iff_not] at h ⊢
      grind

/-- What a form asks of the characters that it is chosen for. -/
def StringForm.Suits (cs : List Char) : StringForm → Prop
  | .basic | .multilineBasic => True
  | .literal => cs.any needsCode = false ∧ longestRun '\'' cs = 0 ∧ '\n' ∉ cs
  | .multilineLiteral => cs.any needsCode = false ∧ longestRun '\'' cs ≤ 2

theorem StringForm.suits_ofChars (cs : List Char) : (StringForm.ofChars cs).Suits cs := by
  unfold ofChars
  dsimp only
  split
  · trivial
  split
  next h => simpa [Suits, and_assoc] using h
  split
  · trivial
  split
  next h => simpa [Suits] using h
  split <;> trivial

/-- The line feed in front is there if a text that shows the characters may start with one. -/
theorem firstLine_cases {quote : Char} {escapes : Bool} {text cs : List Char}
    (form : QuoteForm quote escapes) (h : Shows quote escapes 2 2 text cs) :
    firstLine cs = ['\n'] ∨ firstLine cs = [] ∧ text.head? ≠ some '\n' := by
  unfold firstLine
  split
  next => exact .inl rfl
  next hline =>
      refine .inr ⟨rfl, fun hhead => hline ?_⟩
      cases h with
      | nil => cases hhead
      | quote => exact absurd (Option.some.inj hhead) form.plain.2.1
      | plain => simp [Option.some.inj hhead]
      | escaped => exact absurd (Option.some.inj hhead) (by decide)

/-- **A string that is quoted is in one of the forms.** -/
theorem spells_quoteChars (cs : List Char) : SpellsString (quoteChars cs) cs := by
  have hsuits := StringForm.suits_ofChars cs
  unfold quoteChars
  cases hform : StringForm.ofChars cs with
  | basic => exact .line .basic (@shows_escapeChars false 0 nofun 0 cs)
  | literal =>
      rw [hform] at hsuits
      obtain ⟨hcodes, hrun, hline⟩ := hsuits
      refine .line .literal (shows_self (Nat.le_of_eq hrun) fun c hc => .inl ?_)
      exact (visible_of_any_needsCode hcodes hc).resolve_right fun h => hline (h ▸ hc)
  | multilineBasic =>
      have hshows := @shows_escapeChars true 2 (fun _ => Nat.two_pos) 2 cs
      exact .lines .basic (firstLine_cases .basic hshows) hshows
  | multilineLiteral =>
      rw [hform] at hsuits
      obtain ⟨hcodes, hrun⟩ := hsuits
      have hshows : Shows '\'' false 2 2 cs cs := shows_self hrun fun c hc =>
        (visible_of_any_needsCode hcodes hc).imp_right fun h => ⟨Nat.two_pos, h⟩
      exact .lines .literal (firstLine_cases .literal hshows) hshows

end RichDoc.Toml
