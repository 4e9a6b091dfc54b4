import RichDoc.Proofs.Json.Compact

/-!
# Indented text without its blanks is compact text

Both texts of a value hold the same tokens, and the indented one has line
feeds and spaces between them. What is a blank between tokens and what is
part of a string can be told from the text alone, by a scanner that knows
whether it is in a string (`dropBlanks`). It leaves tokens as they are and
drops new lines, so from the indented text of a value, whatever stands
behind it, it makes the compact one (`dropBlanks_indentedChars`). That
takes strings in which every quote and line feed is escaped.
-/

namespace RichDoc.Json

/-- Where in a text the next character stands. -/
inductive Scan where
  | outside
  | string
  /-- In a string, behind a backslash. -/
  | escape

/-- The text without the spaces and line feeds that are in no string. -/
def dropBlanks : Scan → List Char → List Char
  | _, [] => []
  | .outside, c :: rest =>
    if c = ' ' ∨ c = '\n' then dropBlanks .outside rest
    else c :: dropBlanks (if c = '"' then .string else .outside) rest
  | .string, c :: rest =>
    c :: dropBlanks (if c = '\\' then .escape else if c = '"' then .outside else .string) rest
  | .escape, c :: rest => c :: dropBlanks .string rest

/-- A whole text without the spaces and line feeds that are in no string. -/
def withoutBlanks (text : String) : String := String.ofList (dropBlanks .outside text.toList)

/-! ## Tokens -/

/-- The character is no blank and begins no string. -/
def IsSolid (c : Char) : Prop := c ≠ ' ' ∧ c ≠ '\n' ∧ c ≠ '"'

instance : DecidablePred IsSolid := fun c =>
  inferInstanceAs (Decidable (c ≠ ' ' ∧ c ≠ '\n' ∧ c ≠ '"'))

theorem dropBlanks_cons {c : Char} (h : IsSolid c) (rest : List Char) :
    dropBlanks .outside (c :: rest) = c :: dropBlanks .outside rest := by
  obtain ⟨hspace, hline, hquote⟩ := h
  rw [dropBlanks, if_neg (not_or.mpr ⟨hspace, hline⟩), if_neg hquote]

theorem dropBlanks_append {token : List Char} (h : ∀ c ∈ token, IsSolid c) (rest : List Char) :
    dropBlanks .outside (token ++ rest) = token ++ dropBlanks .outside rest := by
  induction token with
  | nil => rfl
  | cons c token ih =>
      obtain ⟨hc, htoken⟩ := List.forall_mem_cons.mp h
      rw [List.cons_append, dropBlanks_cons hc, ih htoken, List.cons_append]

theorem IsSolid.of_isNumeral {c : Char} (h : Decimal.IsNumeral c) : IsSolid c := by
  refine ⟨?_, ?_, ?_⟩ <;> rintro rfl <;> exact absurd h (by decide)

theorem isSolid_of_mem_writeBool {b : Bool} {c : Char} (h : c ∈ writeBool b) : IsSolid c := by
  have hwords : ∀ b, ((writeBool b).all fun c => decide (IsSolid c)) = true := by decide
  exact of_decide_eq_true (List.all_eq_true.mp (hwords b) c h)

theorem isSolid_of_mem_null {c : Char} (h : c ∈ "null".toList) : IsSolid c := by
  have hword : ("null".toList.all fun c => decide (IsSolid c)) = true := by decide
  exact of_decide_eq_true (List.all_eq_true.mp hword c h)

/-- A double that is no number is written as a word. -/
theorem isSolid_of_mem_writeFloat {x : Float} {c : Char} (h : c ∈ writeFloat x) : IsSolid c := by
  cases hshape : Decimal.Shape.ofFloat x with
  | finite negative place =>
      exact .of_isNumeral (isNumeral_of_mem_writeFloat ⟨negative, place, hshape⟩ h)
  | nan =>
      rw [writeFloat, Decimal.Layout.write, hshape] at h
      exact isSolid_of_mem_null h
  | infinite negative =>
      rw [writeFloat, Decimal.Layout.write, hshape] at h
      exact isSolid_of_mem_null h

/-! ## Strings -/

/-- In a string, what a character is written as leaves the scanner in the string. -/
theorem dropBlanks_escapeChar (c : Char) (rest : List Char) :
    dropBlanks .string (escapeChar c ++ rest) = escapeChar c ++ dropBlanks .string rest := by
  by_cases hc : c ∈ specials
  · -- a backslash, the character that it escapes, and hexadecimal digits if there are any
    have hshapes : (specials.all fun c => decide (2 ≤ (escapeChar c).length) &&
        ((escapeChar c).drop 2).all fun d => d != '\\' && d != '"') = true := by
      decide +kernel
    obtain ⟨hlong, hrest⟩ := Bool.and_eq_true_iff.mp (List.all_eq_true.mp hshapes c hc)
    have hlong : 2 ≤ (escapeChar c).length := of_decide_eq_true hlong
    have hdrop : ∀ d ∈ (escapeChar c).drop 2, d ≠ '\\' ∧ d ≠ '"' := fun d hd => by
      simpa using List.all_eq_true.mp hrest d hd
    have hplain : ∀ text : List Char, (∀ d ∈ text, d ≠ '\\' ∧ d ≠ '"') →
        dropBlanks .string (text ++ rest) = text ++ dropBlanks .string rest := by
      intro text htext
      induction text with
      | nil => rfl
      | cons d text ih =>
          obtain ⟨⟨hbackslash, hquote⟩, htext⟩ := List.forall_mem_cons.mp htext
          rw [List.cons_append, dropBlanks, if_neg hbackslash, if_neg hquote, ih htext,
            List.cons_append]
    obtain ⟨more, hmore⟩ := exists_escapeChar_eq_backslash hc
    rw [hmore] at hdrop hlong ⊢
    cases more with
    | nil => exact absurd hlong (by decide)
    | cons d digits =>
        rw [List.cons_append, List.cons_append, dropBlanks, if_pos rfl, dropBlanks,
          hplain digits hdrop, List.cons_append, List.cons_append]
  · have hquote : c ≠ '"' := fun h => hc (h ▸ List.mem_cons_self)
    have hbackslash : c ≠ '\\' := fun h =>
      hc (h ▸ List.mem_cons_of_mem _ List.mem_cons_self)
    rw [escapeChar_of_not_mem hc, List.singleton_append, dropBlanks, if_neg hbackslash,
      if_neg hquote, List.singleton_append]

theorem dropBlanks_escapes (cs rest : List Char) :
    dropBlanks .string (cs.flatMap escapeChar ++ rest) =
      cs.flatMap escapeChar ++ dropBlanks .string rest := by
  induction cs with
  | nil => rfl
  | cons c cs ih =>
      rw [List.flatMap_cons, List.append_assoc, dropBlanks_escapeChar, ih, List.append_assoc]

theorem dropBlanks_quote (text : String) (rest : List Char) :
    dropBlanks .outside (quote text ++ rest) = quote text ++ dropBlanks .outside rest := by
  have hopen : ∀ more, dropBlanks .outside ('"' :: more) = '"' :: dropBlanks .string more :=
    fun _ => rfl
  have hclose : dropBlanks .string ('"' :: rest) = '"' :: dropBlanks .outside rest := rfl
  simp only [quote, List.cons_append, List.append_assoc, List.nil_append]
  rw [hopen, dropBlanks_escapes, hclose]

/-! ## New lines -/

theorem dropBlanks_newline (width level : Nat) (rest : List Char) :
    dropBlanks .outside (newline width level ++ rest) = dropBlanks .outside rest := by
  have hspaces : ∀ n, dropBlanks .outside (List.replicate n ' ' ++ rest) =
      dropBlanks .outside rest := by
    intro n
    induction n with
    | zero => rfl
    | succ n ih =>
        rw [List.replicate_succ, List.cons_append, dropBlanks, if_pos (.inl rfl), ih]
  rw [newline, List.cons_append, dropBlanks, if_pos (.inr rfl), hspaces]

theorem dropBlanks_colon (rest : List Char) :
    dropBlanks .outside (':' :: ' ' :: rest) = ':' :: dropBlanks .outside rest := rfl

/-! ## Values -/

mutual

/-- Without blanks, the indented text of a value is its compact one, whatever comes behind it. -/
theorem dropBlanks_indentedChars (width level : Nat) (rest : List Char) : ∀ x : Json,
    dropBlanks .outside (x.indentedChars width level ++ rest) =
      x.compactChars ++ dropBlanks .outside rest
  | .null => dropBlanks_append (fun _ => isSolid_of_mem_null) rest
  | .bool _ => dropBlanks_append (fun _ => isSolid_of_mem_writeBool) rest
  | .int _ => dropBlanks_append (fun _ hc => .of_isNumeral (isNumeral_of_mem_writeInt hc)) rest
  | .float _ => dropBlanks_append (fun _ => isSolid_of_mem_writeFloat) rest
  | .str text => dropBlanks_quote text rest
  | .arr items => by
      simp only [indentedChars, compactChars, List.cons_append, List.append_assoc, List.nil_append]
      rw [dropBlanks_cons (by decide), dropBlanks_indentedItems, dropBlanks_cons (by decide)]
  | .obj members => by
      simp only [indentedChars, compactChars, List.cons_append, List.append_assoc, List.nil_append]
      rw [dropBlanks_cons (by decide), dropBlanks_indentedMembers, dropBlanks_cons (by decide)]

theorem dropBlanks_indentedItems (width level : Nat) (rest : List Char) : ∀ items : List Json,
    dropBlanks .outside (indentedItems width level items ++ rest) =
      compactItems items ++ dropBlanks .outside rest
  | [] => rfl
  | item :: more => by
      simp only [indentedItems, compactItems, List.append_assoc]
      rw [dropBlanks_newline, dropBlanks_indentedChars, dropBlanks_indentedMoreItems]

theorem dropBlanks_indentedMoreItems (width level : Nat) (rest : List Char) : ∀ items : List Json,
    dropBlanks .outside (indentedMoreItems width level items ++ rest) =
      compactMoreItems items ++ dropBlanks .outside rest
  | [] => dropBlanks_newline width level rest
  | item :: more => by
      simp only [indentedMoreItems, compactMoreItems, List.cons_append, List.append_assoc]
      rw [dropBlanks_cons (by decide), dropBlanks_newline, dropBlanks_indentedChars,
        dropBlanks_indentedMoreItems]

theorem dropBlanks_indentedMembers (width level : Nat) (rest : List Char) :
    ∀ members : Attributes,
      dropBlanks .outside (indentedMembers width level members ++ rest) =
        compactMembers members ++ dropBlanks .outside rest
  | [] => rfl
  | (key, value) :: more => by
      simp only [indentedMembers, compactMembers, List.cons_append, List.append_assoc]
      rw [dropBlanks_newline, dropBlanks_quote, dropBlanks_colon, dropBlanks_indentedChars,
        dropBlanks_indentedMoreMembers]

theorem dropBlanks_indentedMoreMembers (width level : Nat) (rest : List Char) :
    ∀ members : Attributes,
      dropBlanks .outside (indentedMoreMembers width level members ++ rest) =
        compactMoreMembers members ++ dropBlanks .outside rest
  | [] => dropBlanks_newline width level rest
  | (key, value) :: more => by
      simp only [indentedMoreMembers, compactMoreMembers, List.cons_append, List.append_assoc]
      rw [dropBlanks_cons (by decide), dropBlanks_newline, dropBlanks_quote, dropBlanks_colon,
        dropBlanks_indentedChars, dropBlanks_indentedMoreMembers]

end

theorem withoutBlanks_indented (width : Nat) (value : Json) :
    withoutBlanks (value.indented width) = value.compact := by
  have hchars := dropBlanks_indentedChars width 0 [] value
  rw [List.append_nil, dropBlanks, List.append_nil] at hchars
  rw [withoutBlanks, indented, String.toList_ofList, hchars, compact]

/-- Blanks in strings stay, also behind an escaped quote. -/
example : withoutBlanks "[\n  \"a \\\" b\",\n  1\n]" = "[\"a \\\" b\",1]" := by decide

end RichDoc.Json
