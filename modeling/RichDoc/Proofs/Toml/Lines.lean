import Mathlib.Tactic.Common
import RichDoc.Proofs.Toml.Values

/-!
# Written documents are read

A document of entries and tables under repeated headers is written line by
line: a line has an entry (`SpellsEntry`), a header (`SpellsHeader`) or
nothing but a comment, and blanks wherever they change nothing. What is
read from such a text are just the entries and the tables in the order in
which they stand there (`parse?_of_spells`).

The reader goes through a text with a draft of the document, and every
line changes the draft. `Takes` says that a text leads from one draft to
another, whatever stands behind the text: one line does
(`takes_entry`, `takes_header`), and texts that do can be put together
(`Takes.append`). Entries are added to the table that is open,
which is the root or the last table under the header; what the two have in
common is `Opens`.
-/

namespace RichDoc.Toml

/-! ## What is written -/

/-- A line with an entry of a table. -/
inductive SpellsEntry (name : String) (x : Value) : List Char → Prop
  | intro {indent before behind v gap : List Char} (hname : IsBareKey name)
      (hindent : indent.all isBlank = true) (hbefore : before.all isBlank = true)
      (hbehind : behind.all isBlank = true) (hv : SpellsValue v x) (hgap : IsGap gap) :
      SpellsEntry name x
        (indent ++ (name.toList ++ (before ++ '=' :: (behind ++ (v ++ gap)))))

/-- A line with the header of one more table. -/
inductive SpellsHeader (name : String) : List Char → Prop
  | intro {indent before behind gap : List Char} (hname : IsBareKey name)
      (hindent : indent.all isBlank = true) (hbefore : before.all isBlank = true)
      (hbehind : behind.all isBlank = true) (hgap : IsGap gap) :
      SpellsHeader name
        (indent ++ '[' :: '[' :: (before ++ (name.toList ++ (behind ++ ']' :: ']' :: gap))))

/-- Lines with entries, in order, and lines with nothing. -/
inductive SpellsEntries : List Char → Members → Prop
  | nil : SpellsEntries [] []
  | gap {gap rest : List Char} {members : Members} (hgap : IsGap gap)
      (h : SpellsEntries rest members) : SpellsEntries (gap ++ rest) members
  | entry {line rest : List Char} {name : String} {x : Value} {members : Members}
      (hline : SpellsEntry name x line) (h : SpellsEntries rest members) :
      SpellsEntries (line ++ rest) ((name, x) :: members)

/-- Tables, each with a header and its entries. -/
inductive SpellsTables (name : String) : List Char → List Members → Prop
  | nil : SpellsTables name [] []
  | table {header text rest : List Char} {table : Members} {tables : List Members}
      (hheader : SpellsHeader name header) (hentries : SpellsEntries text table)
      (h : SpellsTables name rest tables) :
      SpellsTables name (header ++ (text ++ rest)) (table :: tables)

theorem SpellsEntries.append {text rest : List Char} {members others : Members}
    (h : SpellsEntries text members) (hrest : SpellsEntries rest others) :
    SpellsEntries (text ++ rest) (members ++ others) := by
  induction h with
  | nil => exact hrest
  | gap hgap _ ih =>
      rw [List.append_assoc]
      exact .gap hgap ih
  | entry hline _ ih =>
      rw [List.append_assoc]
      exact .entry hline ih

/-! ## Tables -/

theorem Members.replace_eq_self {key : String} {members : Members} (value : Value)
    (h : members.lookup key = none) : members.replace key value = members := by
  refine (List.map_congr_left fun pair hpair => ?_).trans (List.map_id members)
  have hne : (key != pair.1) = true := List.lookup_eq_none_iff.mp h pair hpair
  exact if_neg fun heq => by simp [heq] at hne

/-- Of members with different names it makes no difference in which order they are. -/
theorem Members.lookup_perm {members others : Members} (h : members.Perm others)
    (hnodup : (members.map Prod.fst).Nodup) (key : String) :
    members.lookup key = others.lookup key := by
  induction h with
  | nil => rfl
  | cons pair _ ih =>
      rw [List.map_cons, List.nodup_cons] at hnodup
      rw [List.lookup_cons, List.lookup_cons, ih hnodup.2]
  | swap first second rest =>
      obtain ⟨a, x⟩ := first
      obtain ⟨b, y⟩ := second
      simp only [List.map_cons, List.nodup_cons, List.mem_cons, not_or] at hnodup
      simp only [List.lookup_cons]
      by_cases ha : key = a
      · have hb : (key == b) = false :=
          beq_eq_false_iff_ne.mpr fun h => hnodup.1.1 (h.symm.trans ha)
        rw [hb]
      · rw [beq_eq_false_iff_ne.mpr ha]
  | trans hfirst _ ih ih' =>
      exact (ih hnodup).trans (ih' ((hfirst.map Prod.fst).nodup_iff.mp hnodup))

theorem assign_nil {key : String} {value : Value} {origin : Origin} {members : Members}
    (horigin : origin ≠ .dotted) (h : members.lookup key = none) :
    assign [] key value origin members = some (members ++ [(key, value)]) := by
  simp [assign, changeAt, horigin, h]

/-- Members with a list of tables of repeated headers behind them, if there are any. -/
def withTables (name : String) (members : Members) (tables : List Members) : Members :=
  members ++ if tables.isEmpty then [] else [(name, .array true (tables.map (.table .header)))]

section Tables

variable {name : String} {members : Members} {tables : List Members}

theorem withTables_of_ne_nil (hne : tables ≠ []) :
    withTables name members tables =
      members ++ [(name, .array true (tables.map (.table .header)))] := by
  rw [withTables, if_neg (by simpa using hne)]

theorem lookup_withTables (h : members.lookup name = none) (hne : tables ≠ []) :
    (withTables name members tables).lookup name =
      some (.array true (tables.map (.table .header))) := by
  rw [withTables_of_ne_nil hne, List.lookup_append, h]
  simp

theorem lookup_withTables_of_ne {key : String} (h : key ≠ name) :
    (withTables name members tables).lookup key = members.lookup key := by
  rw [withTables, List.lookup_append]
  split
  · exact Option.or_none
  · rw [List.lookup_cons, beq_eq_false_iff_ne.mpr h]
    exact Option.or_none

theorem replace_withTables {others : List Members} (h : members.lookup name = none)
    (hne : tables ≠ []) (hother : others ≠ []) :
    (withTables name members tables).replace name (.array true (others.map (.table .header))) =
      withTables name members others := by
  have hfront := Members.replace_eq_self (.array true (others.map (.table .header))) h
  rw [withTables_of_ne_nil hne, withTables_of_ne_nil hother, Members.replace, List.map_append,
    ← Members.replace, hfront]
  simp

/-- A repeated header adds an empty table. -/
theorem addTable_withTables (h : members.lookup name = none) (origin : Origin) :
    addTable name origin (withTables name members tables) =
      some (withTables name members (tables ++ [[]])) := by
  unfold addTable
  by_cases hne : tables = []
  · have hnone : (withTables name members tables).lookup name = none := by
      simpa [hne, withTables] using h
    rw [hnone]
    simp [hne, withTables]
  · have hreplace := @replace_withTables _ _ _ (tables ++ [[]]) h hne (by simp)
    rw [List.map_append] at hreplace
    rw [lookup_withTables h hne]
    exact congrArg some hreplace

/-- A change below a repeated header is made in the last table. -/
theorem changeAt_withTables (h : members.lookup name = none) (origin : Origin) (table : Members)
    (change : Origin → Members → Option Members) :
    changeAt false change [name] origin (withTables name members (tables ++ [table])) =
      (change .header table).map fun table => withTables name members (tables ++ [table]) := by
  rw [changeAt, lookup_withTables h (by simp), List.map_append]
  dsimp only
  rw [List.map_singleton, List.getLast?_concat]
  dsimp only
  rw [changeAt, List.dropLast_concat]
  refine congrArg (Option.map · _) (funext fun other => ?_)
  have hreplace := @replace_withTables _ _ (tables ++ [table]) (tables ++ [other]) h (by simp)
    (by simp)
  rwa [List.map_append, List.map_singleton] at hreplace

end Tables

/-! ## Lines -/

section Lines

variable {draft : Draft} {name : String} {indent gap : List Char}

/-- A text leads from a draft to another, whatever stands behind it. -/
def Takes (draft : Draft) (text : List Char) (after : Draft) : Prop :=
  ∃ rounds ≤ text.length, ∀ bound rest,
    (linesUpTo (bound + rounds) draft).run (text ++ rest) = (linesUpTo bound after).run rest

theorem Takes.nil : Takes draft [] draft := ⟨0, Nat.le_refl _, fun _ _ => rfl⟩

theorem Takes.append {between after : Draft} {text more : List Char}
    (h : Takes draft text between) (hmore : Takes between more after) :
    Takes draft (text ++ more) after := by
  obtain ⟨rounds, hle, hrun⟩ := h
  obtain ⟨rounds', hle', hrun'⟩ := hmore
  refine ⟨rounds' + rounds, ?_, fun bound rest => ?_⟩
  · rw [List.length_append, Nat.add_comm]
    exact Nat.add_le_add hle hle'
  · rw [List.append_assoc, ← Nat.add_assoc, hrun, hrun']

/-- A line with nothing changes nothing. -/
theorem takes_gap (hgap : IsGap gap) : Takes draft gap draft := by
  refine ⟨0, Nat.zero_le _, fun bound rest => ?_⟩
  cases bound with
  | zero => rfl
  | succ bound =>
      change (linesUpTo (bound + 1) draft).run (gap ++ rest) = _
      rw [linesUpTo, StateT.run_bind, skipLines_gap hgap]
      rfl

/-- A line takes one round. -/
theorem takes_line {text : List Char} {after : Draft} (hindent : indent.all isBlank = true)
    (hstart : ∀ rest, StartsSolid (text ++ rest)) (hgap : IsGap gap)
    (hline : ∀ rest, (line draft).Reads (text ++ (gap ++ rest)) after (gap ++ rest)) :
    Takes draft (indent ++ (text ++ gap)) after := by
  refine ⟨1, ?_, fun bound rest => ?_⟩
  · obtain ⟨c, cs, hcs, -⟩ := hstart []
    have hlength : (text ++ []).length = cs.length + 1 := by rw [hcs, List.length_cons]
    rw [List.append_nil] at hlength
    simp only [List.length_append]
    omega
  · simp only [List.append_assoc]
    have hskip := reads_skipLines (.blanks hindent) (hstart (gap ++ rest))
    obtain ⟨c, cs, hcs, -⟩ := hstart (gap ++ rest)
    rw [linesUpTo]
    refine (hskip.run_bind _).trans ?_
    refine ((reads_get _).run_bind _).trans ?_
    rw [if_neg (by simp [hcs])]
    refine ((hline rest).run_bind _).trans ?_
    exact (reads_endOfLine hgap rest).run_bind _

theorem isSolid_of_isKeyChar {c : Char} (h : isKeyChar c = true) : IsSolid c ∧ c ≠ '[' := by
  have hne {d : Char} (hd : isKeyChar d = false) : c ≠ d := by
    rintro rfl
    rw [hd] at h
    cases h
  have hspace : c ≠ ' ' := hne rfl
  have htab : c ≠ '\t' := hne rfl
  exact ⟨⟨by simp [isBlank, hspace, htab], hne rfl, hne rfl, hne rfl⟩, hne rfl⟩

/-- The first character of a key. -/
theorem IsBareKey.exists_cons (hname : IsBareKey name) :
    ∃ c cs, name.toList = c :: cs ∧ IsSolid c ∧ c ≠ '[' := by
  obtain ⟨c, cs, hcs⟩ := List.exists_cons_of_ne_nil hname.nonempty
  exact ⟨c, cs, hcs, isSolid_of_isKeyChar (hname.isKeyChar (hcs ▸ List.mem_cons_self))⟩

/-- A value starts with no blank. -/
theorem SpellsValue.exists_cons {v : List Char} {x : Value} (h : SpellsValue v x) :
    ∃ c cs, v = c :: cs ∧ isBlank c = false := by
  cases h with
  | string h =>
      obtain ⟨quote, rest, rfl, hquote⟩ := h.starts
      exact ⟨quote, rest, rfl, by rcases hquote with rfl | rfl <;> rfl⟩
  | @number n _ =>
      obtain ⟨c, rest, hrest, hc⟩ := startsSolid_digits n []
      exact ⟨c, rest, (List.append_nil _).symm.trans hrest, hc.not_blank⟩
  | numbers => exact ⟨'[', _, rfl, rfl⟩

/-- A key ends before the blanks in front of a sign. -/
theorem reads_keyBefore {before : List Char} {sign : Char} (hname : IsBareKey name)
    (hbefore : before.all isBlank = true) (hkey : isKeyChar sign = false)
    (hblank : isBlank sign = false) (hdot : sign ≠ '.') (rest : List Char) :
    key.Reads (name.toList ++ (before ++ sign :: rest)) ([], name) (sign :: rest) := by
  have hskip : skipBlanks.Reads (before ++ sign :: rest) () (sign :: rest) :=
    reads_skipBlanks hbefore fun c hc => Option.mem_some.mp hc ▸ hblank
  cases before with
  | nil => exact reads_key hname hkey hskip (by simp [hdot])
  | cons c before =>
      have hc : isBlank c = true := List.all_eq_true.mp hbefore c List.mem_cons_self
      refine reads_key hname ?_ hskip (by simp [hdot])
      simp only [isBlank, Bool.or_eq_true, decide_eq_true_eq] at hc
      rcases hc with rfl | rfl <;> rfl

theorem reads_assignment {before behind v rest : List Char} {x : Value} (hname : IsBareKey name)
    (hbefore : before.all isBlank = true) (hbehind : behind.all isBlank = true)
    (hv : SpellsValue v x) (hrest : EndsValue rest) :
    (assignment skipBlanks (value maxNesting)).Reads
      (name.toList ++ (before ++ '=' :: (behind ++ (v ++ rest)))) ([], name, x) rest := by
  obtain ⟨c, cs, hcs, hblank⟩ := hv.exists_cons
  have hsign : skipBlanks.Reads ([] ++ '=' :: (behind ++ (v ++ rest))) ()
      ('=' :: (behind ++ (v ++ rest))) :=
    reads_skipBlanks rfl fun b hb => Option.mem_some.mp hb ▸ rfl
  have hvalue : skipBlanks.Reads (behind ++ (v ++ rest)) () (v ++ rest) := by
    refine reads_skipBlanks hbehind fun b hb => ?_
    rw [hcs] at hb
    exact Option.mem_some.mp hb ▸ hblank
  exact (reads_keyBefore hname hbefore rfl rfl (by decide) _).bind (hsign.bind
    ((reads_expect _ _).bind (hvalue.bind ((reads_value hv hrest).bind (reads_pure _ _)))))

/-- A line with an entry adds it to the open table. -/
theorem takes_entry {text : List Char} {x : Value} {root : Members} (h : SpellsEntry name x text)
    (hroot : changeAt false (assign [] name x) draft.header .header draft.root = some root) :
    Takes draft text { draft with root } := by
  obtain @⟨indent, before, behind, v, gap, hname, hindent, hbefore, hbehind, hv, hgap⟩ := h
  obtain ⟨d, ds, hds, hsolid, hbracket⟩ := hname.exists_cons
  have hsplit : indent ++ (name.toList ++ (before ++ '=' :: (behind ++ (v ++ gap)))) =
      indent ++ ((name.toList ++ (before ++ '=' :: (behind ++ v))) ++ gap) := by simp
  rw [hsplit]
  refine takes_line hindent (fun rest => ⟨d, _, by rw [hds]; rfl, hsolid⟩) hgap fun rest => ?_
  simp only [List.append_assoc, List.cons_append]
  refine (reads_get _).bind ?_
  split
  next heq =>
      rw [hds] at heq
      exact absurd (List.cons.inj heq).1 hbracket
  next heq =>
      rw [hds] at heq
      exact absurd (List.cons.inj heq).1 hbracket
  next =>
      refine (reads_assignment hname hbefore hbehind hv (hgap.endsValue rest)).bind ?_
      dsimp only
      rw [hroot]
      exact (reads_some _ _).bind (reads_pure _ _)

/-- A header adds an empty table and opens it. -/
theorem takes_header {text : List Char} {root : Members} (h : SpellsHeader name text)
    (hroot : addTable name .header draft.root = some root) : Takes draft text ⟨[name], root⟩ := by
  obtain @⟨indent, before, behind, gap, hname, hindent, hbefore, hbehind, hgap⟩ := h
  obtain ⟨d, ds, hds, hsolid, -⟩ := hname.exists_cons
  have hsplit :
      indent ++ '[' :: '[' :: (before ++ (name.toList ++ (behind ++ ']' :: ']' :: gap))) =
        indent ++ ('[' :: '[' :: (before ++ (name.toList ++ (behind ++ [']', ']']))) ++ gap) := by
    simp
  rw [hsplit]
  refine takes_line hindent (fun rest => ⟨'[', _, rfl, by constructor <;> decide⟩) hgap
    fun rest => ?_
  simp only [List.append_assoc, List.cons_append, List.nil_append]
  have hfirst : skipBlanks.Reads
      (before ++ (name.toList ++ (behind ++ ']' :: ']' :: (gap ++ rest)))) ()
      (name.toList ++ (behind ++ ']' :: ']' :: (gap ++ rest))) := by
    refine reads_skipBlanks hbefore fun c hc => ?_
    rw [hds] at hc
    exact Option.mem_some.mp hc ▸ hsolid.not_blank
  refine (reads_get _).bind ?_
  dsimp only
  refine (reads_set _ _).bind (hfirst.bind
    ((reads_keyBefore hname hbehind rfl rfl (by decide) _).bind
      ((reads_expect _ _).bind ((reads_expect _ _).bind ?_))))
  dsimp only [changeAt]
  rw [hroot]
  exact (reads_some _ _).bind (reads_pure _ _)

/-! ### Entries and tables -/

/-- Drafts in which one table is open, for all the members that it may have. -/
structure Opens (place : Members → Draft) : Prop where
  header (table other : Members) : (place table).header = (place other).header
  assigns {table : Members} {name : String} (x : Value) (h : table.lookup name = none) :
    changeAt false (assign [] name x) (place table).header .header (place table).root =
      some (place (table ++ [(name, x)])).root

theorem opens_root : Opens (Draft.mk []) where
  header _ _ := rfl
  assigns _ h := assign_nil (by decide) h

theorem opens_last {entries : Members} (h : entries.lookup name = none) (tables : List Members) :
    Opens fun table => ⟨[name], withTables name entries (tables ++ [table])⟩ where
  header _ _ := rfl
  assigns _ hnew := by
    rw [changeAt_withTables h, assign_nil (by decide) hnew]
    rfl

/-- Entries are added to the open table, if they have other names than those in it. -/
theorem takes_entries {place : Members → Draft} (hplace : Opens place) {text : List Char}
    {table members : Members} (h : SpellsEntries text members)
    (hnodup : ((table ++ members).map Prod.fst).Nodup) :
    Takes (place table) text (place (table ++ members)) := by
  induction h generalizing table with
  | nil =>
      rw [List.append_nil]
      exact .nil
  | gap hgap _ ih => exact (takes_gap hgap).append (ih hnodup)
  | @entry line rest name x members hline _ ih =>
      rw [List.append_cons] at hnodup ⊢
      have hnew : table.lookup name = none := by
        rw [List.lookup_eq_none_iff]
        intro pair hpair
        rw [List.append_assoc, List.map_append, List.nodup_append] at hnodup
        exact bne_iff_ne.mpr fun h => hnodup.2.2 pair.1 (List.mem_map_of_mem hpair) name
          (by simp) h.symm
      have hfirst := takes_entry hline (hplace.assigns x hnew)
      rw [hplace.header table (table ++ [(name, x)])] at hfirst
      exact hfirst.append (ih hnodup)

/-- Each header adds one table, and the entries behind it fill it. -/
theorem takes_tables {entries : Members} (hentries : entries.lookup name = none)
    {text : List Char} {tables : List Members} (h : SpellsTables name text tables)
    (hnodup : ∀ table ∈ tables, (table.map Prod.fst).Nodup) (header : List String)
    (before : List Members) :
    ∃ last, Takes ⟨header, withTables name entries before⟩ text
      ⟨last, withTables name entries (before ++ tables)⟩ := by
  induction h generalizing header before with
  | nil =>
      rw [List.append_nil]
      exact ⟨header, .nil⟩
  | @table _ _ _ table tables hheader hline _ ih =>
      rw [List.forall_mem_cons] at hnodup
      obtain ⟨last, hrest⟩ := ih hnodup.2 [name] (before ++ [table])
      rw [List.append_assoc, List.singleton_append] at hrest
      have hadd : Takes ⟨header, withTables name entries before⟩ _
          ⟨[name], withTables name entries (before ++ [[]])⟩ :=
        takes_header hheader (addTable_withTables hentries _)
      have hfill := @takes_entries _ (opens_last hentries before) _ [] _ hline hnodup.1
      exact ⟨last, hadd.append (hfill.append hrest)⟩

/-! ## Documents -/

/-- A mark of the encoding starts no line. -/
theorem linesUpTo_mark {c : Char} (hc : c.toNat = 0xFEFF) (bound : Nat) (rest : List Char) :
    (linesUpTo bound draft).run (c :: rest) = none := by
  obtain rfl : c = Char.ofNat 0xFEFF := by rw [← hc, Char.ofNat_toNat]
  cases bound <;> rfl

/-- The text of a document leads to it from the empty draft. -/
theorem parse?_of_takes {text : String} {after : Draft} (h : Takes {} text.toList after) :
    parse? text = some after.root := by
  obtain ⟨rounds, hle, hrun⟩ := h
  have hend : (linesUpTo (text.toList.length + 1) {}).run text.toList = some (after, []) := by
    have hrounds : text.toList.length + 1 = text.toList.length - rounds + 1 + rounds := by omega
    have h := hrun (text.toList.length - rounds + 1) []
    rw [List.append_nil, ← hrounds] at h
    rw [h]
    rfl
  unfold parse?
  generalize text.toList = cs at hend
  cases cs with
  | nil =>
      dsimp only
      rw [hend]
      rfl
  | cons c rest =>
      have hmark : ¬c.toNat = 0xFEFF := fun hc => by
        rw [linesUpTo_mark hc] at hend
        cases hend
      dsimp only
      rw [if_neg hmark, hend]
      rfl

/-- **A document is read** as the entries and tables that are written in it. -/
theorem parse?_of_spells {text : String} {front rest : List Char} {entries : Members}
    {tables : List Members} (htext : text.toList = front ++ rest)
    (hfront : SpellsEntries front entries) (hrest : SpellsTables name rest tables)
    (hnew : entries.lookup name = none) (hentries : (entries.map Prod.fst).Nodup)
    (htables : ∀ table ∈ tables, (table.map Prod.fst).Nodup) :
    parse? text = some (withTables name entries tables) := by
  have hfirst : Takes {} front ⟨[], entries⟩ :=
    @takes_entries _ opens_root _ [] _ hfront hentries
  obtain ⟨last, hlast⟩ := takes_tables hnew hrest htables [] []
  have hnone : withTables name entries [] = entries := List.append_nil _
  rw [hnone, List.nil_append] at hlast
  have htakes := hfirst.append hlast
  rw [← htext] at htakes
  exact parse?_of_takes htakes

end Lines

/-! ## Printed lines -/

section Printed

variable {name : String}

theorem spells_stringLine (hname : IsBareKey name) (text : String) :
    SpellsEntry name (.string text) (stringLine name text).toList := by
  have hvalue := SpellsValue.string (spells_quoteChars text.toList)
  rw [String.ofList_toList] at hvalue
  have hline : (stringLine name text).toList =
      [] ++ (name.toList ++ ([' '] ++ '=' :: ([' '] ++ (quoteChars text.toList ++ ['\n'])))) := by
    simp [stringLine, quote]
  rw [hline]
  exact .intro hname rfl rfl rfl hvalue isGap_newline

theorem spells_numberLine {n : Nat} (hname : IsBareKey name) (hn : inRange n = true) :
    SpellsEntry name (.integer n) (numberLine name n).toList := by
  have hline : (numberLine name n).toList =
      [] ++ (name.toList ++ ([' '] ++ '=' :: ([' '] ++ (Nat.toDigits 10 n ++ ['\n'])))) := by
    simp [numberLine]
  rw [hline]
  exact .intro hname rfl rfl rfl (.number hn) isGap_newline

/-- A line of a list that has a number on each line. -/
def itemText (n : Nat) : List Char := [' ', ' ', ' ', ' '] ++ Nat.toDigits 10 n ++ [',', '\n']

theorem spells_items {ns : List Nat} (hns : ∀ n ∈ ns, inRange n = true) :
    SpellsNumbers ('\n' :: (ns.flatMap itemText ++ [']'])) ns := by
  induction ns with
  | nil => exact @SpellsNumbers.nil ['\n'] (@IsSpace.gap _ [] isGap_newline (.blanks rfl))
  | cons n ns ih =>
      rw [List.forall_mem_cons] at hns
      have hsplit : '\n' :: ((n :: ns).flatMap itemText ++ [']']) =
          (['\n'] ++ [' ', ' ', ' ', ' ']) ++ (Nat.toDigits 10 n ++ ([] ++
            ',' :: '\n' :: (ns.flatMap itemText ++ [']']))) := by
        simp [itemText]
      rw [hsplit]
      exact .more (.gap isGap_newline (.blanks rfl)) hns.1 (.blanks rfl) (ih hns.2)

theorem spells_numbersLine {ns : List Nat} (hname : IsBareKey name)
    (hns : ∀ n ∈ ns, inRange n = true) :
    SpellsEntry name (.array false (ns.map fun n : Nat => .integer n))
      (numbersLine name ns).toList := by
  have hitem (n : Nat) : ("    " ++ toString n ++ ",\n").toList = itemText n := by
    simp [itemText]
  have hline : (numbersLine name ns).toList =
      [] ++ (name.toList ++ ([' '] ++ '=' :: ([' '] ++
        ('[' :: '\n' :: (ns.flatMap itemText ++ [']']) ++ ['\n'])))) := by
    simp only [numbersLine, String.toList_append, String.toList_join, List.flatMap_map, hitem]
    simp
  rw [hline]
  exact .intro hname rfl rfl rfl (.numbers (spells_items hns)) isGap_newline

theorem spells_repeatedHeader (hname : IsBareKey name) :
    SpellsHeader name (repeatedHeader name).toList := by
  have hline : (repeatedHeader name).toList =
      [] ++ '[' :: '[' :: ([] ++ (name.toList ++ ([] ++ ']' :: ']' :: ['\n']))) := by
    simp [repeatedHeader]
  rw [hline]
  exact .intro hname rfl rfl rfl isGap_newline

end Printed

end RichDoc.Toml
