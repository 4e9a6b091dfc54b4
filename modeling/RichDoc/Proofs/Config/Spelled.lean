import Mathlib.Data.List.Forall2
import Mathlib.Tactic.Common
import RichDoc.Config.Basic
import RichDoc.Proofs.Toml.Lines

/-!
# Configurations are read from what spells them

A text spells a configuration (`Config.SpelledBy`) if its entries stand
there in some order and behind them a table for each index, with the
entries of the index in some order as well. Blanks, comments and lines
with nothing change nothing, and a string may have any of its forms.

What is parsed from such a text is the configuration, unless the name of
an index was there before (`parse_of_spelledBy`): the text has the tables
that are written in it, and of a table only counts what it holds under
each name (`index?_of_perm`, `ofMembers?_of_perm`). The text that is
written of a configuration spells it (`spelledBy_write`), so it is read
back.
-/

namespace RichDoc

open Toml

/-! ## Repeated names -/

theorem firstRepeated?_eq_none_iff {before names : List String} :
    firstRepeated? before names = none ↔ names.Nodup ∧ ∀ name ∈ names, name ∉ before := by
  induction names generalizing before with
  | nil => simp [firstRepeated?]
  | cons name rest ih =>
      unfold firstRepeated?
      split
      next h => simp [h]
      next h =>
          rw [ih]
          simp only [List.mem_cons, List.nodup_cons, not_or, forall_eq_or_imp]
          constructor
          · rintro ⟨hrest, hnew⟩
            exact ⟨⟨fun hmem => (hnew name hmem).1 rfl, hrest⟩, h,
              fun other hmem => (hnew other hmem).2⟩
          · rintro ⟨⟨hname, hrest⟩, -, hnew⟩
            exact ⟨hrest, fun other hmem => ⟨fun heq => hname (heq ▸ hmem), hnew other hmem⟩⟩

/-- The name that is reported is the first that was there before. -/
theorem exists_of_firstRepeated? {before names : List String} {name : String}
    (h : firstRepeated? before names = some name) :
    ∃ front rest, names = front ++ name :: rest ∧ front.Nodup ∧ (∀ other ∈ front, other ∉ before) ∧
      (name ∈ front ∨ name ∈ before) := by
  induction names generalizing before with
  | nil => cases h
  | cons first names ih =>
      unfold firstRepeated? at h
      split at h
      next hbefore =>
          cases h
          exact ⟨[], names, rfl, List.nodup_nil, nofun, .inr hbefore⟩
      next hbefore =>
          obtain ⟨front, rest, rfl, hnodup, hnew, hname⟩ := ih h
          simp only [List.mem_cons, not_or] at hnew
          refine ⟨first :: front, rest, rfl, ?_, ?_, ?_⟩
          · exact List.nodup_cons.mpr ⟨fun hmem => (hnew first hmem).1 rfl, hnodup⟩
          · exact List.forall_mem_cons.mpr ⟨hbefore, fun other hmem => (hnew other hmem).2⟩
          · rw [List.mem_cons] at hname ⊢
            tauto

namespace Config

variable {config : Config} {definition : IndexDefinition}

/-- The numbers of a configuration have their sizes: 32 bits for those of a version, 64 bits for
the indent. -/
structure Fits (config : Config) : Prop where
  apiVersion : ∀ version ∈ config.apiVersion, version.major ≤ maxVersionNumber ∧
    version.minor ≤ maxVersionNumber ∧ version.patch ≤ maxVersionNumber
  indent : ∀ indent ∈ config.indent, indent ≤ maxIndent

/-! ## What is spelled -/

/-- The version as a member, if there is one. -/
def versionMember (config : Config) : Members :=
  (config.apiVersion.map fun version => ("api_version",
    Value.array false ([version.major, version.minor, version.patch].map
      fun n : Nat => .integer n))).toList

/-- The members that the entries in front of the indexes stand for. -/
def entryMembers (config : Config) : Members :=
  config.versionMember ++
    (config.indent.map fun indent : Nat => ("indent", Value.integer indent)).toList

/-- A text as a member, if there is one. -/
def textMember (name : String) (text : Option String) : Members :=
  (text.map fun text => (name, Value.string text)).toList

/-- The members of the table of an index. -/
def indexMembers (definition : IndexDefinition) : Members :=
  [("name", .string definition.name)] ++ textMember "ref_class" definition.refClass ++
    textMember "placement" definition.placement

/-- The tables of indexes, each with its members in some order. -/
abbrev TablesFor (tables : List Members) (definitions : List IndexDefinition) : Prop :=
  List.Forall₂ (fun table definition => table.Perm (indexMembers definition)) tables definitions

/-- The text has the entries of the configuration, and then a table for each index. In which order
the entries of one table stand makes no difference. -/
inductive SpelledBy (config : Config) (text : String) : Prop
  | intro {front rest : List Char} {entries : Members} {tables : List Members}
      (htext : text.toList = front ++ rest)
      (hentries : entries.Perm config.entryMembers) (hfront : SpellsEntries front entries)
      (htables : TablesFor tables config.indexes)
      (hrest : SpellsTables "indexes" rest tables) : SpelledBy config text

/-! ## What is read -/

theorem nodup_entryMembers (config : Config) : (config.entryMembers.map Prod.fst).Nodup := by
  unfold entryMembers versionMember
  cases config.apiVersion <;> cases config.indent <;> simp

theorem nodup_indexMembers (definition : IndexDefinition) :
    ((indexMembers definition).map Prod.fst).Nodup := by
  obtain ⟨name, refClass, placement⟩ := definition
  cases refClass <;> cases placement <;> simp [indexMembers, textMember]

theorem nodup_tables {tables : List Members} {definitions : List IndexDefinition}
    (h : TablesFor tables definitions) : ∀ table ∈ tables, (table.map Prod.fst).Nodup := by
  induction h with
  | nil => nofun
  | cons hfirst _ ih =>
      exact List.forall_mem_cons.mpr
        ⟨(hfirst.map Prod.fst).nodup_iff.mpr (nodup_indexMembers _), ih⟩

theorem othersUsable_of_subset {names : List String} {members : Members}
    (h : ∀ pair ∈ members, pair.1 ∈ names) : othersUsable names members = true := by
  unfold othersUsable
  rw [List.filter_eq_nil_iff.mpr]
  · rfl
  · exact fun pair hpair => by simp [h pair hpair]

/-- An index is read from its entries in any order. -/
theorem index?_of_perm {table : Members} (h : table.Perm (indexMembers definition)) :
    index? (.table .header table) = some definition := by
  have hnodup := (h.map Prod.fst).nodup_iff.mpr (nodup_indexMembers definition)
  have hothers : othersUsable ["name", "ref_class", "placement"] table = true :=
    othersUsable_of_subset fun pair hpair => by
      have hmem := h.mem_iff.mp hpair
      obtain ⟨name, refClass, placement⟩ := definition
      cases refClass <;> cases placement <;> simp [indexMembers, textMember] at hmem <;> grind
  rw [index?, hothers, Members.lookup_perm h hnodup, Members.lookup_perm h hnodup,
    Members.lookup_perm h hnodup]
  obtain ⟨name, refClass, placement⟩ := definition
  cases refClass <;> cases placement <;> rfl

theorem indexes?_of_perm {tables : List Members} {definitions : List IndexDefinition}
    (h : TablesFor tables definitions) :
    indexes? (.array true (tables.map (.table .header))) = some definitions := by
  rw [indexes?, List.mapM_map]
  induction h with
  | nil => rfl
  | cons hfirst _ ih =>
      rw [List.mapM_cons, ih, Function.comp, index?_of_perm hfirst]
      rfl

theorem natural?_of_le {limit n : Nat} (h : n ≤ limit) : natural? limit (.integer n) = some n := by
  simp [natural?, h]

theorem apiVersion?_of_le {version : Pandoc.ApiVersion} (hmajor : version.major ≤ maxVersionNumber)
    (hminor : version.minor ≤ maxVersionNumber) (hpatch : version.patch ≤ maxVersionNumber) :
    apiVersion? (.array false ([version.major, version.minor, version.patch].map
      fun n : Nat => .integer n)) = some version := by
  simp [apiVersion?, natural?_of_le hmajor, natural?_of_le hminor, natural?_of_le hpatch]

theorem lookup_entryMembers (config : Config) : config.entryMembers.lookup "indexes" = none := by
  unfold entryMembers versionMember
  cases config.apiVersion <;> cases config.indent <;> rfl

theorem fit?_apiVersion (h : config.Fits) :
    fit? apiVersion? (config.entryMembers.lookup "api_version") = some config.apiVersion := by
  obtain ⟨apiVersion, indent, indexes⟩ := config
  cases apiVersion with
  | none => cases indent <;> rfl
  | some version =>
      obtain ⟨hmajor, hminor, hpatch⟩ := h.apiVersion version rfl
      exact congrArg (Option.map some) (apiVersion?_of_le hmajor hminor hpatch)

theorem fit?_indent (h : config.Fits) :
    fit? (natural? maxIndent) (config.entryMembers.lookup "indent") = some config.indent := by
  obtain ⟨apiVersion, indent, indexes⟩ := config
  cases indent with
  | none => cases apiVersion <;> rfl
  | some indent =>
      have hread := congrArg (Option.map some) (natural?_of_le (h.indent indent rfl))
      cases apiVersion <;> exact hread

/-- A configuration is read from its entries in any order; those that are not there come back
unset. -/
theorem ofMembers?_of_perm (hfits : config.Fits) {entries : Members} {tables : List Members}
    (hentries : entries.Perm config.entryMembers)
    (htables : TablesFor tables config.indexes) :
    ofMembers? (withTables "indexes" entries tables) = some config := by
  have hnodup := (hentries.map Prod.fst).nodup_iff.mpr config.nodup_entryMembers
  have hnone : entries.lookup "indexes" = none :=
    (Members.lookup_perm hentries hnodup _).trans config.lookup_entryMembers
  have hothers : othersUsable ["api_version", "indent", "indexes"]
      (withTables "indexes" entries tables) = true := by
    refine othersUsable_of_subset fun pair hpair => ?_
    rw [withTables, List.mem_append] at hpair
    rcases hpair with hpair | hpair
    · have hmem := hentries.mem_iff.mp hpair
      unfold entryMembers versionMember at hmem
      cases config.apiVersion <;> cases config.indent <;> simp at hmem <;> grind
    · split at hpair
      · cases hpair
      · simp [List.mem_singleton.mp hpair]
  have hlookup {name : String} (hname : name ≠ "indexes") :
      (withTables "indexes" entries tables).lookup name = config.entryMembers.lookup name := by
    rw [← Members.lookup_perm hentries hnodup]
    exact lookup_withTables_of_ne hname
  have hindexes : fit? indexes? ((withTables "indexes" entries tables).lookup "indexes") =
      some (if config.indexes.isEmpty then none else some config.indexes) := by
    obtain ⟨apiVersion, indent, indexes⟩ := config
    cases htables with
    | nil =>
        rw [withTables, List.isEmpty_nil, if_pos rfl, List.append_nil, hnone]
        rfl
    | cons hfirst hrest =>
        rw [lookup_withTables hnone (List.cons_ne_nil _ _)]
        exact congrArg (Option.map some) (indexes?_of_perm (.cons hfirst hrest))
  unfold ofMembers?
  rw [hothers, hlookup (by decide), fit?_apiVersion hfits, hlookup (by decide), fit?_indent hfits,
    hindexes]
  obtain ⟨apiVersion, indent, indexes⟩ := config
  cases indexes <;> rfl

/-- **What is parsed from a text that spells a configuration** is the configuration, if it has no
name twice. -/
theorem parse_of_spelledBy {text : String} (hfits : config.Fits) (h : config.SpelledBy text)
    (path : String) :
    Config.parse path text =
      match firstRepeated? [] (config.indexes.map (·.name)) with
      | some name => .error (.duplicateIndex path name)
      | none => .ok config := by
  obtain @⟨front, rest, entries, tables, htext, hentries, hfront, htables, hrest⟩ := h
  have hnodup := (hentries.map Prod.fst).nodup_iff.mpr config.nodup_entryMembers
  have hnone : entries.lookup "indexes" = none :=
    (Members.lookup_perm hentries hnodup _).trans config.lookup_entryMembers
  have hparse := parse?_of_spells htext hfront hrest hnone hnodup (nodup_tables htables)
  have hconfig : (parse? text).bind ofMembers? = some config := by
    rw [hparse, Option.bind_some, ofMembers?_of_perm hfits hentries htables]
  cases hname : firstRepeated? [] (config.indexes.map (·.name)) <;>
    simp only [parse, hconfig, hname]

/-- A text spells no other configuration than the one that is parsed from it. -/
theorem parse_eq_ok_iff {text path : String} {other : Config} (hfits : config.Fits)
    (h : config.SpelledBy text) :
    Config.parse path text = .ok other ↔
      other = config ∧ (config.indexes.map (·.name)).Nodup := by
  rw [parse_of_spelledBy hfits h]
  cases hname : firstRepeated? [] (config.indexes.map (·.name)) with
  | none => simp [(firstRepeated?_eq_none_iff.mp hname).1, eq_comm]
  | some name =>
      have hrepeated : ¬(config.indexes.map (·.name)).Nodup := fun hnodup =>
        nomatch hname.symm.trans
          (firstRepeated?_eq_none_iff.mpr ⟨hnodup, fun _ _ => List.not_mem_nil⟩)
      simp [hrepeated]

/-! ## What is written -/

theorem inRange_of_le {limit n : Nat} (h : n ≤ limit) (hlimit : inRange limit = true) :
    inRange n = true := by
  simp only [inRange, Bool.and_eq_true, decide_eq_true_eq] at hlimit ⊢
  omega

/-- An entry that may be missing. -/
theorem spells_optional {α : Type} {name : String} {print : α → String} {value : α → Value}
    {entry : Option α} (h : ∀ x ∈ entry, SpellsEntry name (value x) (print x).toList) :
    SpellsEntries ((entry.map print).getD "").toList
      (entry.map fun x => (name, value x)).toList := by
  cases entry with
  | none => exact .nil
  | some x =>
      have hline := SpellsEntries.entry (h x rfl) .nil
      rwa [List.append_nil] at hline

theorem spells_writeEntries (h : config.Fits) :
    SpellsEntries config.writeEntries.toList config.entryMembers := by
  unfold writeEntries
  rw [String.toList_append]
  refine (spells_optional fun version hversion => ?_).append
    (spells_optional fun indent hindent => ?_)
  · obtain ⟨hmajor, hminor, hpatch⟩ := h.apiVersion version hversion
    refine spells_numbersLine (by decide) ?_
    simp only [List.forall_mem_cons]
    exact ⟨inRange_of_le hmajor (by decide), inRange_of_le hminor (by decide),
      inRange_of_le hpatch (by decide), nofun⟩
  · exact spells_numberLine (by decide) (inRange_of_le (h.indent indent hindent) (by decide))

theorem spells_textMember {name : String} (hname : IsBareKey name) (text : Option String) :
    SpellsEntries ((text.map (stringLine name)).getD "").toList (textMember name text) :=
  spells_optional fun text _ => spells_stringLine hname text

/-- A header, and the entries of the index behind it. -/
theorem spells_writeIndex (definition : IndexDefinition) :
    ∃ header entries, (writeIndex definition).toList = header ++ entries ∧
      SpellsHeader "indexes" header ∧ SpellsEntries entries (indexMembers definition) := by
  have hname : SpellsEntries (stringLine "name" definition.name).toList
      [("name", .string definition.name)] :=
    @spells_textMember "name" (by decide) (some definition.name)
  have hrefClass := @spells_textMember "ref_class" (by decide) definition.refClass
  have hplacement := @spells_textMember "placement" (by decide) definition.placement
  have hentries := (hname.append hrefClass).append hplacement
  refine ⟨_, _, ?_, spells_repeatedHeader (by decide), hentries⟩
  simp only [writeIndex, String.toList_append, List.append_assoc]

/-- The indexes, with a blank line between them. -/
theorem spells_writeIndexes (definitions : List IndexDefinition) :
    SpellsTables "indexes"
      (['\n'].intercalate (definitions.map fun definition => (writeIndex definition).toList))
      (definitions.map indexMembers) := by
  induction definitions with
  | nil => exact .nil
  | cons definition rest ih =>
      obtain ⟨header, entries, hindex, hheader, hentries⟩ := spells_writeIndex definition
      cases rest with
      | nil =>
          have htable := SpellsTables.table hheader hentries .nil
          rw [List.append_nil, ← hindex] at htable
          rwa [List.map_singleton, List.map_singleton, List.intercalate_singleton]
      | cons next rest =>
          have hblank := hentries.append (.gap isGap_newline .nil)
          have htable := SpellsTables.table hheader hblank ih
          rw [List.append_nil, List.append_nil, List.append_assoc, ← List.append_assoc, ← hindex,
            ← List.append_assoc] at htable
          rw [List.map_cons, List.map_cons, List.intercalate_cons_cons]
          exact htable

/-- The text of a configuration, whether or not there is something on both sides of the blank
line. -/
theorem toList_write (config : Config) :
    ∃ blank, (blank = [] ∨ blank = ['\n']) ∧ config.write.toList =
      config.writeEntries.toList ++ blank ++
        ['\n'].intercalate
          (config.indexes.map fun definition => (writeIndex definition).toList) := by
  have hnewline : "\n".toList = ['\n'] := rfl
  unfold write
  dsimp only
  rw [String.toList_intercalate, hnewline, List.map_append, List.map_map]
  split
  next hempty =>
      rw [String.isEmpty_iff] at hempty
      exact ⟨[], .inl rfl, by rw [hempty]; rfl⟩
  next =>
      cases config.indexes with
      | nil => exact ⟨[], .inl rfl, by simp⟩
      | cons definition rest =>
          refine ⟨['\n'], .inr rfl, ?_⟩
          rw [List.map_singleton, List.singleton_append, List.map_cons,
            List.intercalate_cons_cons]
          rfl

/-- **The text of a configuration spells it.** -/
theorem spelledBy_write (h : config.Fits) : config.SpelledBy config.write := by
  obtain ⟨blank, hblank, htext⟩ := config.toList_write
  have hgap : SpellsEntries blank [] := by
    rcases hblank with rfl | rfl
    · exact .nil
    · exact .gap isGap_newline .nil
  have hfront := (spells_writeEntries h).append hgap
  rw [List.append_nil] at hfront
  have htables : TablesFor (config.indexes.map indexMembers) config.indexes :=
    List.forall₂_map_left_iff.mpr (List.forall₂_same.mpr fun _ _ => .refl _)
  exact .intro htext (.refl _) hfront htables (spells_writeIndexes config.indexes)

/-- What is parsed from the text of a configuration is the configuration, if it has no name
twice. -/
theorem parse_write (h : config.Fits) (path : String) :
    Config.parse path config.write =
      match firstRepeated? [] (config.indexes.map (·.name)) with
      | some name => .error (.duplicateIndex path name)
      | none => .ok config :=
  parse_of_spelledBy h (spelledBy_write h) path

end Config

end RichDoc
