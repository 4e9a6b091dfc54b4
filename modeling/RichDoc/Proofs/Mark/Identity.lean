import Mathlib.Data.List.Forall2
import RichDoc.Proofs.Json.Compact
import RichDoc.Proofs.Mark.Registered

/-!
# Marks keep their identity

A registry that is built by looking marks up, one after the other, never
mixes two of them up (`denotes_answers`). The index that a mark is given
stands for it from then on: the entry under it holds the mark itself and
what the mark turns into, and no other mark has the index. Marks are told
apart by the text of their attributes, so all of it rests on the text
being that of one map of attributes only (`Mark.canonical_injective`).
-/

namespace RichDoc

/-! ## Attributes and their text -/

/-- Every double in the attributes is a number. -/
def Mark.Finite (mark : Mark) : Prop := Json.FiniteMembers mark.attrs

theorem Mark.canonical_injective {a b : Mark} (ha : a.Finite) (hb : b.Finite)
    (h : a.canonical = b.canonical) : a.attrs = b.attrs := by
  have hobjects : Json.obj a.attrs = Json.obj b.attrs := Json.compact_injective ha hb h
  exact Json.obj.inj hobjects

theorem Entry.stands_iff {entry : Entry} {type canonical : String} :
    entry.stands type canonical = true ↔ entry.mark.type = type ∧ entry.canonical = canonical := by
  simp [stands]

namespace Registry

variable {registry : Registry} {mark other : Mark} {index : Nat} {entry : Entry}

/-! ## Entries -/

theorem entry?_indexOf_cases (h : entry? (registry.indexOf mark).2 index = some entry) :
    registry.entry? index = some entry ∨ entry = .ofMark index mark := by
  cases hm : registry.index? mark with
  | some found =>
      rw [indexOf_of_index? hm] at h
      exact .inl h
  | none =>
      rw [indexOf_of_index?_eq_none hm] at h
      have hpush : (registry.entries.push (.ofMark registry.size mark))[index]? = some entry := h
      rw [Array.getElem?_push] at hpush
      split at hpush
      · next heq =>
          cases hpush
          rw [heq]
          exact .inr rfl
      · exact .inl hpush

/-- An entry was there before, or it was made from one of the marks. -/
theorem entry?_register_cases {marks : List Mark}
    (h : entry? (registry.register marks) index = some entry) :
    registry.entry? index = some entry ∨ ∃ mark ∈ marks, entry = .ofMark index mark := by
  induction marks generalizing registry with
  | nil => exact .inl h
  | cons mark rest ih =>
      rcases ih h with hthen | ⟨made, hmem, hmade⟩
      · exact (entry?_indexOf_cases hthen).imp_right fun hmade => ⟨mark, List.mem_cons_self, hmade⟩
      · exact .inr ⟨made, List.mem_cons_of_mem _ hmem, hmade⟩

theorem exists_mem_of_entry?_ofMarks {marks : List Mark}
    (h : entry? (ofMarks marks) index = some entry) :
    ∃ mark ∈ marks, entry = .ofMark index mark := by
  rcases entry?_register_cases h with hempty | hmade
  · simp [ entry?, empty] at hempty
  · exact hmade

/-! ## The answers to a sequence of calls -/

/-- The indexes of marks that are looked up one after the other. -/
def answers (registry : Registry) : List Mark → List Nat
  | [] => []
  | mark :: rest => (registry.indexOf mark).1 :: answers (registry.indexOf mark).2 rest

theorem answers_append (registry : Registry) (marks more : List Mark) :
    registry.answers (marks ++ more) =
      registry.answers marks ++ (registry.register marks).answers more := by
  induction marks generalizing registry with
  | nil => rfl
  | cons mark rest ih => exact congrArg (List.cons _) (ih _)

/-- In the end the index of each mark is still the one that it was given. -/
theorem forall₂_index?_answers (registry : Registry) (marks : List Mark) :
    List.Forall₂ (fun mark index => (registry.register marks).index? mark = some index) marks
      (registry.answers marks) := by
  induction marks generalizing registry with
  | nil => exact .nil
  | cons mark rest ih =>
      exact .cons (index?_register (registry.index?_indexOf_self mark) rest) (ih _)

/-- The index of a mark depends on its type and on the text of its attributes only. -/
theorem index?_eq_iff (hmark : registry.index? mark = some index) :
    registry.index? other = some index ↔
      mark.type = other.type ∧ mark.canonical = other.canonical := by
  constructor
  · intro hother
    obtain ⟨entry, hentry, hstands⟩ := exists_stands hmark
    obtain ⟨entry', hentry', hstands'⟩ := exists_stands hother
    obtain rfl := Option.some.inj (hentry.symm.trans hentry')
    obtain ⟨htype, htext⟩ := Entry.stands_iff.mp hstands
    obtain ⟨htype', htext'⟩ := Entry.stands_iff.mp hstands'
    exact ⟨htype.symm.trans htype', htext.symm.trans htext'⟩
  · rintro ⟨htype, htext⟩
    rwa [index?, ← htype, ← htext]

/-- The index stands for the mark: the entry under it holds the mark and what it turns into. -/
def Denotes (registry : Registry) (mark : Mark) (index : Nat) : Prop :=
  index < registry.size ∧ ∃ entry, registry.entry? index = some entry ∧ entry.mark = mark ∧
    entry.kind = .ofName mark.type ∧ entry.container = .ofMark (.ofName mark.type) mark

theorem denotes_of_index? {marks : List Mark} (hfinite : ∀ mark ∈ marks, mark.Finite)
    (hmem : mark ∈ marks) (h : (ofMarks marks).index? mark = some index) :
    (ofMarks marks).Denotes mark index := by
  obtain ⟨entry, hentry, hstands⟩ := exists_stands h
  obtain ⟨made, hmade, rfl⟩ := exists_mem_of_entry?_ofMarks hentry
  obtain ⟨htype, htext⟩ := Entry.stands_iff.mp hstands
  have hattrs : made.attrs = mark.attrs :=
    Mark.canonical_injective (hfinite made hmade) (hfinite mark hmem) htext
  have hsame : made = mark := by
    obtain ⟨type, attrs⟩ := made
    obtain ⟨type', attrs'⟩ := mark
    cases hattrs
    cases (htype : type = type')
    rfl
  subst hsame
  exact ⟨(Array.getElem?_eq_some_iff.mp hentry).1, _, hentry, rfl, rfl, rfl⟩

/-- Marks are looked up one after the other, from an empty registry on. Each answer stands for
its mark, every entry for its own index, and both still do after more marks; marks have one
index exactly if their types and the texts of their attributes agree, and one text is that of
one map of attributes. -/
theorem denotes_answers (marks : List Mark) (hfinite : ∀ mark ∈ marks, mark.Finite) :
    List.Forall₂ (ofMarks marks).Denotes marks (empty.answers marks) ∧
    (∀ index entry, Registry.entry? (ofMarks marks) index = some entry → entry.index = index) ∧
    (∀ more, empty.answers marks <+: empty.answers (marks ++ more) ∧
      ∀ index entry, Registry.entry? (ofMarks marks) index = some entry →
        Registry.entry? (ofMarks (marks ++ more)) index = some entry) ∧
    (∀ call ∈ marks.zip (empty.answers marks), ∀ other ∈ marks.zip (empty.answers marks),
      (call.2 = other.2 ↔
        call.1.type = other.1.type ∧ call.1.canonical = other.1.canonical)) ∧
    ∀ mark other : Mark, mark.Finite → other.Finite →
      mark.canonical = other.canonical → mark.attrs = other.attrs := by
  have hanswers := empty.forall₂_index?_answers marks
  refine ⟨?_, ?_, ?_, ?_, fun mark other => Mark.canonical_injective⟩
  · refine List.forall₂_iff_zip.mpr ⟨hanswers.length_eq, fun {mark index} hmem => ?_⟩
    exact denotes_of_index? hfinite (List.of_mem_zip hmem).1 (List.forall₂_zip hanswers hmem)
  · intro index entry hentry
    obtain ⟨mark, -, rfl⟩ := exists_mem_of_entry?_ofMarks hentry
    rfl
  · intro more
    have hregister : ofMarks (marks ++ more) = (ofMarks marks).register more :=
      empty.register_append marks more
    refine ⟨?_, fun index entry hentry => ?_⟩
    · rw [answers_append]
      exact List.prefix_append _ _
    · rw [hregister]
      exact entry?_register hentry more
  · rintro ⟨mark, i⟩ hcall ⟨other, j⟩ hother
    have hmark : (ofMarks marks).index? mark = some i := List.forall₂_zip hanswers hcall
    have hsecond : (ofMarks marks).index? other = some j := List.forall₂_zip hanswers hother
    rw [← index?_eq_iff hmark, hsecond, Option.some_inj, eq_comm]

theorem denotes_answers_four :
    let link : Mark := ⟨"link", [("href", .str "\"a\""), ("width", .float 1.5)]⟩
    let plain : Mark := ⟨"link", [("href", .str "a"), ("width", .arr [.int 1, .null])]⟩
    let marks := [⟨"strong", []⟩, link, plain, link]
    empty.answers marks = [0, 1, 2, 1] ∧ (ofMarks marks).Denotes link 1 := by
  intro link plain marks
  have hfinite : ∀ mark ∈ marks, mark.Finite := by
    have hlink : link.Finite := ⟨trivial, ⟨false, 0x3FF8000000000000, rfl⟩, trivial⟩
    have hplain : plain.Finite := ⟨trivial, ⟨trivial, trivial, trivial⟩, trivial⟩
    simp only [marks, List.forall_mem_cons]
    exact ⟨trivial, hlink, hplain, hlink, nofun⟩
  have hanswers : empty.answers marks = [0, 1, 2, 1] := by decide +kernel
  have hdenotes := (denotes_answers marks hfinite).1
  rw [hanswers] at hdenotes
  exact ⟨hanswers, (List.forall₂_cons.mp (List.forall₂_cons.mp hdenotes).2).1⟩

end Registry

end RichDoc
