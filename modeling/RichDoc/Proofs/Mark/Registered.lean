import RichDoc.Mark.Priority

/-!
# A registry that grows

Marks are only ever added to a registry, behind those that are there. What
an index stood for it stands for ever after, so the container of a mark
does not depend on when it is asked for, and neither does the index of a mark
once it has one.
-/

namespace RichDoc

namespace Registry

/-- The registry after some marks were looked up in it, one after the other. -/
def register (registry : Registry) (marks : List Mark) : Registry :=
  marks.foldl (fun registry mark => (registry.indexOf mark).2) registry

theorem register_append (registry : Registry) (marks more : List Mark) :
    registry.register (marks ++ more) = (registry.register marks).register more :=
  List.foldl_append

/-- The container of a mark; an index that stands for nothing has an empty span. -/
def containerAt (registry : Registry) (index : Nat) : Container :=
  match registry.entry? index with
  | some entry => entry.container
  | none => .span {}

variable {registry : Registry} {index : Nat} {entry : Entry}

theorem entry?_indexOf (h : registry.entry? index = some entry) (mark : Mark) :
    entry? (registry.indexOf mark).2 index = some entry := by
  unfold indexOf
  split
  · exact h
  · have hlt : index < registry.entries.size := (Array.getElem?_eq_some_iff.mp h).1
    exact (Array.getElem?_push_lt hlt).trans ((Array.getElem?_eq_getElem hlt).symm.trans h)

theorem entry?_register (h : registry.entry? index = some entry) (marks : List Mark) :
    entry? (registry.register marks) index = some entry := by
  induction marks generalizing registry with
  | nil => exact h
  | cons mark rest ih => exact ih (entry?_indexOf h mark)

/-- Entries are added behind those that are there. -/
theorem prefix_entries_indexOf (registry : Registry) (mark : Mark) :
    registry.entries.toList <+: (registry.indexOf mark).2.entries.toList := by
  unfold indexOf
  split
  · exact List.prefix_rfl
  · rw [Array.toList_push]
    exact List.prefix_append _ _

theorem prefix_entries_register (registry : Registry) (marks : List Mark) :
    registry.entries.toList <+: (registry.register marks).entries.toList := by
  induction marks generalizing registry with
  | nil => exact List.prefix_rfl
  | cons mark rest ih => exact (registry.prefix_entries_indexOf mark).trans (ih _)

theorem containerAt_eq_of_registered (h : registry.entry? index = some entry) :
    registry.containerAt index = entry.container := by
  rw [containerAt, h]

/-- A registered mark keeps its container. -/
theorem containerAt_register (h : registry.entry? index = some entry) (marks : List Mark) :
    (registry.register marks).containerAt index = registry.containerAt index := by
  rw [containerAt_eq_of_registered h, containerAt_eq_of_registered (entry?_register h marks)]

/-! ## Indexes of marks -/

/-- The index of a mark, if it is registered. -/
def index? (registry : Registry) (mark : Mark) : Option Nat :=
  registry.entries.findIdx? (Entry.stands mark.type mark.canonical)

variable {mark : Mark}

theorem stands_ofMark (index : Nat) (mark : Mark) :
    (Entry.ofMark index mark).stands mark.type mark.canonical = true := by
  simp [Entry.stands, Entry.ofMark]

theorem indexOf_of_index? (h : registry.index? mark = some index) :
    registry.indexOf mark = (index, registry) := by
  unfold indexOf
  rw [show registry.entries.findIdx? _ = some index from h]

theorem indexOf_of_index?_eq_none (h : registry.index? mark = none) :
    registry.indexOf mark =
      (registry.size, ⟨registry.entries.push (.ofMark registry.size mark)⟩) := by
  unfold indexOf
  rw [show registry.entries.findIdx? _ = none from h]

/-- Looking up another mark does not change the index of a mark. -/
theorem index?_indexOf (h : registry.index? mark = some index) (other : Mark) :
    index? (registry.indexOf other).2 mark = some index := by
  cases ho : registry.index? other with
  | some found => rw [indexOf_of_index? ho, h]
  | none =>
      rw [indexOf_of_index?_eq_none ho, index?, Array.findIdx?_push]
      rw [show registry.entries.findIdx? _ = some index from h]
      rfl

theorem index?_register (h : registry.index? mark = some index) (marks : List Mark) :
    index? (registry.register marks) mark = some index := by
  induction marks generalizing registry with
  | nil => exact h
  | cons other rest ih => exact ih (index?_indexOf h other)

/-- A mark that was looked up is registered, with the index that it was given. -/
theorem index?_indexOf_self (registry : Registry) (mark : Mark) :
    index? (registry.indexOf mark).2 mark = some (registry.indexOf mark).1 := by
  cases h : registry.index? mark with
  | some index => rw [indexOf_of_index? h, h]
  | none =>
      rw [indexOf_of_index?_eq_none h, index?, Array.findIdx?_push]
      rw [show registry.entries.findIdx? _ = none from h]
      simp [stands_ofMark, size]

theorem exists_index?_register {marks : List Mark} (h : mark ∈ marks) :
    ∃ index, (registry.register marks).index? mark = some index := by
  obtain ⟨front, rest, rfl⟩ := List.append_of_mem h
  rw [register_append]
  exact ⟨_, index?_register (index?_indexOf_self _ mark) rest⟩

theorem register_of_registered {marks : List Mark}
    (h : ∀ mark ∈ marks, ∃ index, registry.index? mark = some index) :
    registry.register marks = registry := by
  induction marks with
  | nil => rfl
  | cons mark rest ih =>
      obtain ⟨⟨index, hindex⟩, hrest⟩ := List.forall_mem_cons.mp h
      rw [register, List.foldl_cons, indexOf_of_index? hindex]
      exact ih hrest

/-- Looking marks up once more registers nothing. -/
theorem register_register (registry : Registry) (marks : List Mark) :
    (registry.register marks).register marks = registry.register marks :=
  register_of_registered fun _ => exists_index?_register

/-- The entry under the index of a mark stands for it. -/
theorem exists_stands (h : registry.index? mark = some index) :
    ∃ entry, registry.entry? index = some entry ∧
      entry.stands mark.type mark.canonical = true := by
  obtain ⟨hlt, hstands, -⟩ := Array.findIdx?_eq_some_iff_getElem.mp h
  exact ⟨registry.entries[index], Array.getElem?_eq_getElem hlt, hstands⟩

/-! ## Registries that were built by looking marks up -/

/-- Every entry was made from a mark, and the mark has its index. -/
def Sound (registry : Registry) : Prop :=
  ∀ index entry, registry.entry? index = some entry →
    ∃ mark, entry = .ofMark index mark ∧ registry.index? mark = some index

theorem Sound.indexOf (h : registry.Sound) (mark : Mark) : Sound (registry.indexOf mark).2 := by
  cases hm : registry.index? mark with
  | some index => rwa [indexOf_of_index? hm]
  | none =>
      intro index entry hentry
      by_cases hlt : index < registry.size
      · have hold : registry.entry? index = some entry := by
          rw [indexOf_of_index?_eq_none hm] at hentry
          unfold entry? at *
          rw [← hentry, Array.getElem?_push_lt hlt, Array.getElem?_eq_getElem hlt]
        obtain ⟨made, hmade, hindex⟩ := h index entry hold
        exact ⟨made, hmade, index?_indexOf hindex mark⟩
      · have hself := index?_indexOf_self registry mark
        rw [indexOf_of_index?_eq_none hm] at hentry hself ⊢
        obtain ⟨hle, hget⟩ := Array.getElem?_eq_some_iff.mp hentry
        have heq : index = registry.size := by
          simp only [Array.size_push] at hle
          simp only [size] at *
          omega
        subst heq
        refine ⟨mark, ?_, hself⟩
        rw [← hget]
        exact Array.getElem_push_eq

theorem Sound.register (h : registry.Sound) (marks : List Mark) :
    (registry.register marks).Sound := by
  induction marks generalizing registry with
  | nil => exact h
  | cons mark rest ih => exact ih (h.indexOf mark)

theorem sound_ofMarks (marks : List Mark) : (ofMarks marks).Sound := by
  have hempty : empty.Sound := by
    intro index entry hentry
    simp [ entry?, empty] at hentry
  exact hempty.register marks

/-- What stands under the index of a mark was made from a mark of the same type. -/
theorem Sound.containerAt (h : registry.Sound) (hm : registry.index? mark = some index) :
    ∃ made : Mark, made.type = mark.type ∧ registry.index? made = some index ∧
      registry.containerAt index = .ofMark (.ofName made.type) made := by
  obtain ⟨entry, hentry, hstands⟩ := exists_stands hm
  obtain ⟨made, rfl, hmade⟩ := h index entry hentry
  refine ⟨made, ?_, hmade, containerAt_eq_of_registered hentry⟩
  simp only [Entry.stands, Entry.ofMark, Bool.and_eq_true, beq_iff_eq] at hstands
  exact hstands.1

end Registry

end RichDoc
