import RichDoc.Proofs.Json.ReadBack
import RichDoc.Proofs.Toml.Quoted

/-!
# Written values are read

What a value is written as is a relation of a text and the value
(`SpellsValue`): a string in one of its forms, a number or a list of
numbers, with blanks, line ends and comments around the items of the list.
A value is read from the front of a text if what stands behind it is part
of no value (`reads_value`).

`Reader.Reads` says what one reader takes from the front of a text, and
the readers of a value are put together along `Reader.Reads.bind`. The
loops count their rounds against the text, and how high the count is makes
no difference (`skipLinesUpTo_eq`).
-/

namespace RichDoc.Toml

/-! ## Runs of readers -/

section Run

variable {α β : Type} {reader : Reader α} {cs between rest : List Char} {x : α} {y : β}

/-- From the front of a text the reader takes a value, and leaves the rest. -/
def Reader.Reads (reader : Reader α) (cs : List Char) (x : α) (rest : List Char) : Prop :=
  StateT.run reader cs = some (x, rest)

theorem reads_pure (x : α) (cs : List Char) : (pure x : Reader α).Reads cs x cs := rfl

theorem reads_get (cs : List Char) : (get : Reader (List Char)).Reads cs cs cs := rfl

theorem reads_set (cs rest : List Char) : (set rest : Reader Unit).Reads cs () rest := rfl

theorem reads_some (x : α) (cs : List Char) : (liftM (some x) : Reader α).Reads cs x cs := rfl

theorem reads_peek (cs : List Char) : peek.Reads cs cs.head? cs := rfl

theorem reads_advance (c : Char) (rest : List Char) : (advance 1).Reads (c :: rest) () rest := rfl

theorem reads_expect (c : Char) (rest : List Char) : (expect c).Reads (c :: rest) () rest := by
  simp [Reader.Reads, expect, after?]

theorem Reader.Reads.run_bind (next : α → Reader β) (h : reader.Reads cs x between) :
    (reader >>= next).run cs = (next x).run between := by
  unfold Reads at h
  rw [StateT.run_bind, h]
  rfl

theorem Reader.Reads.bind {next : α → Reader β} (h : reader.Reads cs x between)
    (hn : (next x).Reads between y rest) : (reader >>= next).Reads cs y rest :=
  (h.run_bind next).trans hn

theorem Reader.Reads.map (f : α → β) (h : reader.Reads cs x rest) :
    (f <$> reader).Reads cs (f x) rest := by
  unfold Reads at *
  rw [StateT.run_map, h]
  rfl

end Run

/-! ## Characters up to another one -/

section Span

variable {p : Char → Bool} {front : List Char} {c : Char}

theorem takeWhile_append_stop (hfront : ∀ d ∈ front, p d = true) (hc : p c = false)
    (rest : List Char) : (front ++ c :: rest).takeWhile p = front := by
  rw [List.takeWhile_append_of_pos hfront, List.takeWhile_cons_of_neg (by simp [hc]),
    List.append_nil]

theorem dropWhile_append_stop (hfront : ∀ d ∈ front, p d = true) (hc : p c = false)
    (rest : List Char) : (front ++ c :: rest).dropWhile p = c :: rest := by
  rw [List.dropWhile_append_of_pos hfront, List.dropWhile_cons_of_neg (by simp [hc])]

end Span

/-! ## Blanks, comments and line ends -/

/-- What stands at the end of a line: blanks, a comment or none, and the line end. -/
inductive IsGap : List Char → Prop
  | intro {blanks comment ending : List Char} (hblanks : blanks.all isBlank = true)
      (hcomment : comment = [] ∨ ∃ text, comment = '#' :: text ∧ text.all isVisible = true)
      (hending : ending = ['\n'] ∨ ending = ['\r', '\n']) : IsGap (blanks ++ comment ++ ending)

/-- Blanks on any number of lines, which may end in comments. -/
inductive IsSpace : List Char → Prop
  | blanks {blanks : List Char} (hblanks : blanks.all isBlank = true) : IsSpace blanks
  | gap {gap rest : List Char} (hgap : IsGap gap) (h : IsSpace rest) : IsSpace (gap ++ rest)

/-- A character that starts no blank, comment or line end. -/
structure IsSolid (c : Char) : Prop where
  not_blank : isBlank c = false
  not_comment : c ≠ '#'
  not_newline : c ≠ '\n' ∧ c ≠ '\r'

/-- There is a text, and it starts with no blank, comment or line end. -/
def StartsSolid (cs : List Char) : Prop := ∃ c rest, cs = c :: rest ∧ IsSolid c

theorem isGap_newline : IsGap ['\n'] := @IsGap.intro [] [] ['\n'] rfl (.inl rfl) (.inl rfl)

section Blanks

variable {c : Char} {blanks gap space cs rest : List Char}

theorem reads_skipBlanks (hblanks : blanks.all isBlank = true)
    (hcs : ∀ c ∈ cs.head?, isBlank c = false) : skipBlanks.Reads (blanks ++ cs) () cs := by
  have hdrop : (blanks ++ cs).dropWhile isBlank = cs := by
    rw [List.dropWhile_append_of_pos (List.all_eq_true.mp hblanks)]
    cases cs with
    | nil => rfl
    | cons c rest => exact List.dropWhile_cons_of_neg (by simp [hcs c rfl])
  simp only [Reader.Reads, skipBlanks, StateT.run_modify, hdrop]
  rfl

theorem reads_skipComment (hc : c ≠ '#') : skipComment.Reads (c :: rest) () (c :: rest) := by
  simp [Reader.Reads, skipComment, hc]

theorem reads_newline_of_ne (hc : c ≠ '\n' ∧ c ≠ '\r') :
    newline.Reads (c :: rest) false (c :: rest) := by
  simp [Reader.Reads, newline, hc]

/-- A gap is passed over in three steps, and before the last there is something left. -/
theorem reads_gap (hgap : IsGap gap) (rest : List Char) :
    ∃ behind ending, skipBlanks.Reads (gap ++ rest) () behind ∧
      skipComment.Reads behind () ending ∧ newline.Reads ending true rest ∧ ending ≠ [] := by
  obtain @⟨blanks, comment, ending, hblanks, hcomment, hending⟩ := hgap
  obtain ⟨c, more, rfl, hblank, hvisible, hsign⟩ : ∃ c more, ending = c :: more ∧
      isBlank c = false ∧ isVisible c = false ∧ c ≠ '#' := by
    rcases hending with rfl | rfl
    · exact ⟨_, _, rfl, by decide⟩
    · exact ⟨_, _, rfl, by decide⟩
  refine ⟨comment ++ c :: more ++ rest, c :: more ++ rest, ?_, ?_, ?_, by simp⟩
  · simp only [List.append_assoc]
    refine reads_skipBlanks hblanks fun d hd => ?_
    rcases hcomment with rfl | ⟨text, rfl, -⟩
    · exact Option.mem_some.mp hd ▸ hblank
    · exact Option.mem_some.mp hd ▸ rfl
  · rcases hcomment with rfl | ⟨text, rfl, htext⟩
    · exact reads_skipComment hsign
    · have hdrop := dropWhile_append_stop (List.all_eq_true.mp htext) hvisible (more ++ rest)
      simp only [Reader.Reads, skipComment, StateT.run_modify, List.cons_append, List.append_assoc,
        hdrop]
      rfl
  · rcases hending with h | h <;> cases h <;> rfl

theorem reads_endOfLine (hgap : IsGap gap) (rest : List Char) :
    endOfLine.Reads (gap ++ rest) () rest := by
  obtain ⟨behind, ending, hblanks, hcomment, hnewline, hne⟩ := reads_gap hgap rest
  refine hblanks.bind (hcomment.bind ((reads_get _).bind ?_))
  rw [if_neg (by simpa using hne)]
  exact hnewline.bind (reads_pure _ _)

/-! ### Several lines -/

theorem newline_cases (cs : List Char) : newline.Reads cs false cs ∨
    ∃ rest, newline.Reads cs true rest ∧ rest.length < cs.length := by
  unfold newline Reader.Reads
  simp only [(reads_get cs).run_bind]
  split
  · exact .inr ⟨_, rfl, Nat.lt_succ_self _⟩
  · exact .inr ⟨_, rfl, Nat.lt_add_of_pos_right Nat.two_pos⟩
  · exact .inl rfl

/-- One round: what is left of a line, if anything is, and the line end. -/
theorem skipLinesUpTo_succ (cs : List Char) : ∃ behind, behind.length ≤ cs.length ∧
    ∀ bound, (skipLinesUpTo (bound + 1)).run cs =
      (do if ← newline then skipLinesUpTo bound : Reader Unit).run behind := by
  have hcomment (cs : List Char) :
      ∃ behind, skipComment.Reads cs () behind ∧ behind.length ≤ cs.length := by
    refine ⟨_, rfl, ?_⟩
    dsimp only
    split
    · exact Nat.le_succ_of_le (List.dropWhile_suffix _).length_le
    · exact Nat.le_refl _
  obtain ⟨behind, hreads, hle⟩ := hcomment (cs.dropWhile isBlank)
  refine ⟨behind, Nat.le_trans hle (List.dropWhile_suffix _).length_le, fun bound => ?_⟩
  have hblanks : skipBlanks.Reads cs () (cs.dropWhile isBlank) := rfl
  exact (hblanks.run_bind _).trans (hreads.run_bind _)

/-- The count of the rounds makes no difference if there are enough for every character. -/
theorem skipLinesUpTo_eq {bound bound' : Nat} (hb : cs.length ≤ bound) (hb' : cs.length ≤ bound') :
    (skipLinesUpTo bound).run cs = (skipLinesUpTo bound').run cs := by
  have hnil (bound : Nat) : (skipLinesUpTo bound).run [] = some ((), []) := by
    cases bound <;> rfl
  induction bound generalizing cs bound' with
  | zero =>
      obtain rfl := List.length_eq_zero_iff.mp (Nat.le_zero.mp hb)
      rw [hnil, hnil]
  | succ bound ih =>
      cases bound' with
      | zero =>
          obtain rfl := List.length_eq_zero_iff.mp (Nat.le_zero.mp hb')
          rw [hnil, hnil]
      | succ bound' =>
          obtain ⟨behind, hle, hround⟩ := skipLinesUpTo_succ cs
          rw [hround, hround]
          obtain hend | ⟨rest, hend, hlt⟩ := newline_cases behind
          · rw [hend.run_bind, hend.run_bind]
            rfl
          · rw [hend.run_bind, hend.run_bind]
            exact ih (by omega) (by omega)

/-- A gap is passed over before anything else. -/
theorem skipLines_gap (hgap : IsGap gap) (rest : List Char) :
    skipLines.run (gap ++ rest) = skipLines.run rest := by
  obtain ⟨behind, ending, hblanks, hcomment, hnewline, -⟩ := reads_gap hgap rest
  have hlength : (gap ++ rest).length ≠ 0 ∧ rest.length ≤ (gap ++ rest).length - 1 := by
    obtain @⟨_, _, ending, -, -, rfl | rfl⟩ := hgap <;> simp <;> omega
  obtain ⟨bound, hbound⟩ := Nat.exists_eq_succ_of_ne_zero hlength.1
  have hrounds : (skipLinesUpTo (gap ++ rest).length).run (gap ++ rest) =
      (skipLinesUpTo bound).run rest := by
    rw [hbound, skipLinesUpTo, hblanks.run_bind, hcomment.run_bind, hnewline.run_bind]
    rfl
  have hleft : (skipLinesUpTo bound).run rest = (skipLinesUpTo rest.length).run rest :=
    skipLinesUpTo_eq (by omega) (Nat.le_refl _)
  exact hrounds.trans hleft

theorem reads_skipLines (hspace : IsSpace space) (hcs : StartsSolid cs) :
    skipLines.Reads (space ++ cs) () cs := by
  induction hspace with
  | @blanks blanks hblanks =>
      obtain ⟨c, rest, rfl, hc⟩ := hcs
      have hlength : (blanks ++ c :: rest).length = blanks.length + rest.length + 1 := by
        rw [List.length_append, List.length_cons, Nat.add_assoc]
      have hfirst : ∀ d ∈ (c :: rest).head?, isBlank d = false := fun d hd =>
        Option.mem_some.mp hd ▸ hc.not_blank
      refine (reads_get _).bind ?_
      rw [hlength, skipLinesUpTo]
      exact (reads_skipBlanks hblanks hfirst).bind ((reads_skipComment hc.not_comment).bind
        ((reads_newline_of_ne hc.not_newline).bind (reads_pure _ _)))
  | gap hgap _ ih =>
      rw [List.append_assoc, Reader.Reads, skipLines_gap hgap]
      exact ih

end Blanks

/-! ## Keys -/

section Keys

variable {c : Char} {rest between : List Char} {name : String}

/-- A key that is written without quotes. -/
structure IsBareKey (name : String) : Prop where
  nonempty : name.toList ≠ []
  chars : name.toList.all isKeyChar = true

theorem IsBareKey.isKeyChar {name : String} (h : IsBareKey name) {c : Char}
    (hc : c ∈ name.toList) : isKeyChar c = true :=
  List.all_eq_true.mp h.chars c hc

instance (name : String) : Decidable (IsBareKey name) :=
  decidable_of_iff (name.toList ≠ [] ∧ name.toList.all isKeyChar = true)
    ⟨fun ⟨h, hc⟩ => ⟨h, hc⟩, fun ⟨h, hc⟩ => ⟨h, hc⟩⟩

theorem reads_simpleKey (hname : IsBareKey name) (hc : isKeyChar c = false) :
    simpleKey.Reads (name.toList ++ c :: rest) name (c :: rest) := by
  have htake := takeWhile_append_stop (fun _ => hname.isKeyChar) hc rest
  have hdrop := dropWhile_append_stop (fun _ => hname.isKeyChar) hc rest
  -- a quote is no character of a key
  have hquote {quote : Char} {more : List Char} (hq : isKeyChar quote = false) :
      name.toList ++ c :: rest ≠ quote :: more := by
    obtain ⟨d, ds, hds⟩ := List.exists_cons_of_ne_nil hname.nonempty
    intro heq
    rw [hds] at heq
    have hd : isKeyChar d = true := hname.isKeyChar (hds ▸ List.mem_cons_self)
    rw [(List.cons.inj heq).1, hq] at hd
    cases hd
  change simpleKey _ = _
  unfold simpleKey
  split
  next heq => exact absurd heq (hquote rfl)
  next heq => exact absurd heq (hquote rfl)
  next =>
      dsimp only
      rw [htake, hdrop, String.ofList_toList, if_neg (by simp [hname.nonempty])]

/-- A key with no dot behind it. -/
theorem reads_key (hname : IsBareKey name) (hc : isKeyChar c = false)
    (hblank : skipBlanks.Reads (c :: rest) () between) (hdot : between.head? ≠ some '.') :
    key.Reads (name.toList ++ c :: rest) ([], name) between := by
  refine (reads_simpleKey hname hc).bind (hblank.bind ((reads_peek between).bind ?_))
  split
  next heq => exact absurd heq hdot
  next => exact reads_pure _ _

end Keys

/-! ## Whole numbers -/

section Numbers

variable {n : Nat}

/-- A number is written with digits alone. -/
theorem isDigit_of_mem {c : Char} (h : c ∈ Nat.toDigits 10 n) : c.isDigit = true :=
  Nat.isDigit_of_mem_toDigits (by decide) (by decide) h

theorem ne_of_isDigit {c d : Char} (hd : d.isDigit = true) (hc : c.isDigit = false) : d ≠ c := by
  rintro rfl
  rw [hc] at hd
  cases hd

theorem toDigits_ne_cons {c : Char} (hc : c.isDigit = false) (more : List Char) :
    Nat.toDigits 10 n ≠ c :: more :=
  fun heq => ne_of_isDigit (isDigit_of_mem (heq ▸ List.mem_cons_self)) hc rfl

theorem exists_digit (n : Nat) : ∃ d ds, Nat.toDigits 10 n = d :: ds ∧ d.isDigit = true := by
  obtain ⟨d, ds, hds⟩ := List.exists_cons_of_ne_nil (Nat.toDigits_ne_nil (n := n) (b := 10))
  exact ⟨d, ds, hds, isDigit_of_mem (hds ▸ List.mem_cons_self)⟩

theorem head?_digits_ne {c : Char} (hc : c.isDigit = false) (rest : List Char) :
    (Nat.toDigits 10 n ++ rest).head? ≠ some c := by
  obtain ⟨d, ds, hds, hd⟩ := exists_digit n
  rw [hds]
  exact fun heq => ne_of_isDigit hd hc (Option.some.inj heq)

theorem digitRun?_toDigits : digitRun? Char.isDigit (Nat.toDigits 10 n) =
    some (Nat.toDigits 10 n) := by
  have hgroup : (Nat.toDigits 10 n).splitOn '_' = [Nat.toDigits 10 n] :=
    List.splitOn_eq_singleton fun h => absurd (isDigit_of_mem h) (by decide)
  have hdigits : (Nat.toDigits 10 n).all Char.isDigit = true :=
    List.all_eq_true.mpr fun _ => isDigit_of_mem
  have hne : (Nat.toDigits 10 n).isEmpty = false :=
    List.isEmpty_eq_false_iff.mpr Nat.toDigits_ne_nil
  simp [digitRun?, hgroup, hdigits, hne]

theorem wholeRun?_toDigits : wholeRun? false (Nat.toDigits 10 n) = some (Nat.toDigits 10 n) := by
  unfold wholeRun?
  split
  next heq => exact absurd heq (toDigits_ne_cons rfl _)
  next =>
      rw [digitRun?_toDigits]
      split
      next heq => exact absurd (Option.some.inj heq) (Json.toDigits_ne_zero_cons n _ _)
      next => rfl

theorem decimalInteger?_toDigits :
    decimalInteger? (Nat.toDigits 10 n) = some (integerOf (Nat.toDigits 10 n) n) := by
  have hsign : Decimal.splitSign (Nat.toDigits 10 n) = (false, Nat.toDigits 10 n) := by
    unfold Decimal.splitSign
    split
    next heq => exact absurd heq (toDigits_ne_cons rfl _)
    next heq => exact absurd heq (toDigits_ne_cons rfl _)
    next => rfl
  have hsigned : isSigned (Nat.toDigits 10 n) = false := by
    obtain ⟨d, ds, hds, hd⟩ := exists_digit n
    rw [hds]
    simp [isSigned, ne_of_isDigit hd]
  have hvalue : Nat.ofDigitChars 10 (Nat.toDigits 10 n) 0 = n :=
    Nat.ofDigitChars_toDigits (by decide) (by decide)
  rw [decimalInteger?, hsign]
  dsimp only
  rw [hsigned, wholeRun?_toDigits]
  dsimp only
  rw [hvalue]
  rfl

theorem integer?_toDigits : integer? (Nat.toDigits 10 n) =
    some (integerOf (Nat.toDigits 10 n) n) := by
  unfold integer?
  split
  next heq => exact absurd heq (Json.toDigits_ne_zero_cons n _ _)
  next heq => exact absurd heq (Json.toDigits_ne_zero_cons n _ _)
  next heq => exact absurd heq (Json.toDigits_ne_zero_cons n _ _)
  next => exact decimalInteger?_toDigits

theorem scalar?_toDigits (h : inRange n = true) :
    scalar? (Nat.toDigits 10 n) = some (.integer n) := by
  have hword {word : String} {c : Char} (hc : c ∈ word.toList) (hdigit : c.isDigit = false) :
      String.ofList (Nat.toDigits 10 n) ≠ word := by
    rintro rfl
    rw [String.toList_ofList] at hc
    rw [isDigit_of_mem hc] at hdigit
    cases hdigit
  unfold scalar?
  split
  next heq => exact absurd heq (@hword "true" 't' (by decide) (by decide))
  next heq => exact absurd heq (@hword "false" 'f' (by decide) (by decide))
  next => rw [integer?_toDigits, Option.some_or, integerOf, if_pos h]

end Numbers

/-! ## Values -/

/-- The rest of a list of numbers behind its bracket. Between the numbers
and the signs there may be space, and a comma behind the last number. -/
inductive SpellsNumbers : List Char → List Nat → Prop
  | nil {space : List Char} (hspace : IsSpace space) : SpellsNumbers (space ++ [']']) []
  | last {space behind : List Char} {n : Nat} (hspace : IsSpace space) (hn : inRange n = true)
      (hbehind : IsSpace behind) :
      SpellsNumbers (space ++ (Nat.toDigits 10 n ++ (behind ++ [']']))) [n]
  | more {space behind rest : List Char} {n : Nat} {ns : List Nat} (hspace : IsSpace space)
      (hn : inRange n = true) (hbehind : IsSpace behind) (h : SpellsNumbers rest ns) :
      SpellsNumbers (space ++ (Nat.toDigits 10 n ++ (behind ++ ',' :: rest))) (n :: ns)

/-- A text that is written for a value: a string, a number or a list of numbers. -/
inductive SpellsValue : List Char → Value → Prop
  | string {text cs : List Char} (h : SpellsString text cs) :
      SpellsValue text (.string (String.ofList cs))
  | number {n : Nat} (hn : inRange n = true) : SpellsValue (Nat.toDigits 10 n) (.integer n)
  | numbers {text : List Char} {ns : List Nat} (h : SpellsNumbers text ns) :
      SpellsValue ('[' :: text) (.array false (ns.map fun n : Nat => .integer n))

/-- A text that starts with a character that is part of no value. -/
def EndsValue (cs : List Char) : Prop := ∃ c rest, cs = c :: rest ∧ isBare c = false

section Values

variable {n : Nat} {space text behind : List Char}

theorem isBare_of_isDigit {d : Char} (h : d.isDigit = true) : isBare d = true := by
  unfold isBare
  split
  all_goals first | rfl | exact absurd h (by decide)

theorem isBare_of_isBlank {c : Char} (h : isBlank c = true) : isBare c = false := by
  simp only [isBlank, Bool.or_eq_true, decide_eq_true_eq] at h
  rcases h with rfl | rfl <;> rfl

theorem endsValue_blanks {blanks : List Char} (hblanks : blanks.all isBlank = true)
    (h : EndsValue behind) : EndsValue (blanks ++ behind) := by
  cases blanks with
  | nil => exact h
  | cons c blanks =>
      exact ⟨c, _, rfl, isBare_of_isBlank (List.all_eq_true.mp hblanks c List.mem_cons_self)⟩

theorem IsGap.endsValue (hgap : IsGap text) (rest : List Char) : EndsValue (text ++ rest) := by
  obtain @⟨blanks, comment, ending, hblanks, hcomment, hending⟩ := hgap
  have hline : EndsValue (ending ++ rest) := by
    rcases hending with rfl | rfl
    · exact ⟨_, _, rfl, rfl⟩
    · exact ⟨_, _, rfl, rfl⟩
  simp only [List.append_assoc]
  refine endsValue_blanks hblanks ?_
  rcases hcomment with rfl | ⟨text, rfl, -⟩
  · exact hline
  · exact ⟨'#', _, rfl, rfl⟩

theorem IsSpace.endsValue (hspace : IsSpace space) (h : EndsValue behind) :
    EndsValue (space ++ behind) := by
  cases hspace with
  | blanks hblanks => exact endsValue_blanks hblanks h
  | gap hgap =>
      rw [List.append_assoc]
      exact hgap.endsValue _

/-! ### Numbers and strings -/

theorem after?_eq_none {c : Char} {cs : List Char} (h : c ∉ cs) : after? c cs = none := by
  cases cs with
  | nil => rfl
  | cons d rest => exact if_neg fun hd : d = c => h (hd ▸ List.mem_cons_self)

/-- There is no date without a dash. -/
theorem date?_eq_none {cs : List Char} (h : '-' ∉ cs) : date? cs = none := by
  unfold date? fixedDigits?
  dsimp only
  split
  · have hrest : after? '-' (cs.drop 4) = none :=
      after?_eq_none fun hmem => h (List.mem_of_mem_drop hmem)
    change (after? '-' (cs.drop 4)).bind _ = none
    rw [hrest, Option.bind_none]
  · rfl

theorem reads_bare (hn : inRange n = true) (hbehind : EndsValue behind) :
    bare.Reads (Nat.toDigits 10 n ++ behind) (.integer n) behind := by
  obtain ⟨c, rest, rfl, hc⟩ := hbehind
  have hbare (d : Char) (hd : d ∈ Nat.toDigits 10 n) : isBare d = true :=
    isBare_of_isDigit (isDigit_of_mem hd)
  have htake := takeWhile_append_stop hbare hc rest
  have hdrop := dropWhile_append_stop hbare hc rest
  have hdate : date? (Nat.toDigits 10 n) = none :=
    date?_eq_none fun hdash => absurd (isDigit_of_mem hdash) (by decide)
  change bare _ = _
  unfold bare
  dsimp only
  rw [htake, hdrop, hdate]
  -- only behind a date a blank does not end the value
  split
  next =>
      rw [if_neg (by simp)]
      dsimp only
      rw [scalar?_toDigits hn]
      rfl
  next =>
      dsimp only
      rw [scalar?_toDigits hn]
      rfl

theorem reads_number (inner : Option (Reader Value)) (hn : inRange n = true)
    (hbehind : EndsValue behind) :
    (valueOf inner).Reads (Nat.toDigits 10 n ++ behind) (.integer n) behind := by
  refine (reads_peek _).bind ?_
  split
  next heq => exact absurd heq (head?_digits_ne rfl _)
  next heq => exact absurd heq (head?_digits_ne rfl _)
  next heq => exact absurd heq (head?_digits_ne rfl _)
  next heq => exact absurd heq (head?_digits_ne rfl _)
  next => exact reads_bare hn hbehind

theorem SpellsString.starts {cs : List Char} (h : SpellsString text cs) :
    ∃ quote rest, text = quote :: rest ∧ (quote = '"' ∨ quote = '\'') := by
  cases h with
  | line form => cases form <;> exact ⟨_, _, rfl, by decide⟩
  | lines form => cases form <;> exact ⟨_, _, rfl, by decide⟩

theorem reads_string (inner : Option (Reader Value)) {cs : List Char} (h : SpellsString text cs)
    (hbehind : EndsValue behind) :
    (valueOf inner).Reads (text ++ behind) (.string (String.ofList cs)) behind := by
  obtain ⟨c, rest, rfl, hc⟩ := hbehind
  have hquote {quote : Char} (hq : isBare quote = true) : c ≠ quote := by
    rintro rfl
    rw [hq] at hc
    cases hc
  have hstring : string.Reads (text ++ c :: rest) (String.ofList cs) (c :: rest) :=
    string_of_spells h (hquote rfl) (hquote rfl) rest
  refine (reads_peek _).bind ?_
  obtain ⟨quote, more, rfl, rfl | rfl⟩ := h.starts
  · exact hstring.map _
  · exact hstring.map _

/-! ### Lists -/

theorem startsSolid_digits (n : Nat) (rest : List Char) :
    StartsSolid (Nat.toDigits 10 n ++ rest) := by
  obtain ⟨d, ds, hds, hd⟩ := exists_digit n
  rw [hds]
  refine ⟨d, ds ++ rest, rfl, ?_, ne_of_isDigit hd rfl, ne_of_isDigit hd rfl,
    ne_of_isDigit hd rfl⟩
  simp [isBlank, ne_of_isDigit hd]

/-- Each number of a list takes one round. -/
theorem reads_itemsUpTo {item : Reader Value} {ns : List Nat} {bound : Nat}
    (hitem : ∀ n : Nat, inRange n = true → ∀ behind, EndsValue behind →
      item.Reads (Nat.toDigits 10 n ++ behind) (.integer n) behind)
    (h : SpellsNumbers text ns) (hb : text.length ≤ bound) (rest : List Char) :
    (itemsUpTo item bound).Reads (text ++ rest) (ns.map fun n : Nat => .integer n) rest := by
  have hbracket : StartsSolid (']' :: rest) := ⟨']', rest, rfl, by constructor <;> decide⟩
  have hcomma (more : List Char) : StartsSolid (',' :: more) :=
    ⟨',', more, rfl, by constructor <;> decide⟩
  induction h generalizing bound with
  | nil hspace =>
      rw [List.length_append, List.length_singleton] at hb
      obtain ⟨bound, rfl⟩ := Nat.exists_eq_add_one.mpr (Nat.lt_of_lt_of_le (Nat.succ_pos _) hb)
      rw [List.append_assoc]
      exact (reads_skipLines hspace hbracket).bind ((reads_peek _).bind
        ((reads_advance _ _).bind (reads_pure _ _)))
  | @last space behind n hspace hn hbehind =>
      simp only [List.length_append, List.length_singleton] at hb
      obtain ⟨bound, rfl⟩ : ∃ count, bound = count + 1 := Nat.exists_eq_add_one.mpr (by omega)
      have hread := hitem n hn _ (hbehind.endsValue ⟨']', rest, rfl, rfl⟩)
      simp only [List.append_assoc, List.singleton_append]
      refine (reads_skipLines hspace (startsSolid_digits n _)).bind ((reads_peek _).bind ?_)
      rw [if_neg (head?_digits_ne rfl _)]
      refine hread.bind ((reads_skipLines hbehind hbracket).bind ((reads_peek _).bind ?_))
      exact (reads_expect _ _).bind (reads_pure _ _)
  | @more space behind others n ns hspace hn hbehind h ih =>
      simp only [List.length_append, List.length_cons] at hb
      obtain ⟨bound, rfl⟩ : ∃ count, bound = count + 1 := Nat.exists_eq_add_one.mpr (by omega)
      have hread := hitem n hn _ (hbehind.endsValue ⟨',', others ++ rest, rfl, rfl⟩)
      simp only [List.append_assoc, List.cons_append]
      refine (reads_skipLines hspace (startsSolid_digits n _)).bind ((reads_peek _).bind ?_)
      rw [if_neg (head?_digits_ne rfl _)]
      exact hread.bind ((reads_skipLines hbehind (hcomma _)).bind ((reads_peek _).bind
        ((reads_advance _ _).bind ((ih (by omega)).bind (reads_pure _ _)))))

/-- **A value is read** from what it is written as, with an end of it behind. -/
theorem reads_value {x : Value} (h : SpellsValue text x) (hbehind : EndsValue behind) :
    (value maxNesting).Reads (text ++ behind) x behind := by
  cases h with
  | string h => exact reads_string _ h hbehind
  | number hn => exact reads_number _ hn hbehind
  | @numbers text ns h =>
      have hitem (n : Nat) (hn : inRange n = true) (behind : List Char) (hend : EndsValue behind) :
          (value 79).Reads (Nat.toDigits 10 n ++ behind) (.integer n) behind :=
        reads_number _ hn hend
      have hb : text.length ≤ (text ++ behind).length + 1 := by
        rw [List.length_append]
        omega
      exact (reads_peek _).bind ((reads_advance _ _).bind ((reads_some _ _).bind
        ((reads_get _).bind ((reads_itemsUpTo hitem h hb behind).map _))))

end Values

end RichDoc.Toml
