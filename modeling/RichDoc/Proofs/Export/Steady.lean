import RichDoc.Proofs.Export.Composed
import RichDoc.Proofs.Mark.Registered

/-!
# What a conversion leaves behind

A conversion may fail at any point, and its progress outlives the
failure. Whatever happens, a conversion only registers marks, numbers
citations and gives the path back as it found it: its progress afterwards
follows from the progress before (`Progress.Leads`). A conversion with
this property is called steady. Steadiness is kept by everything that
conversions are put together with (`Export.closed_steady`), so all
converters have it, and the conversions of every node do
(`Prepared.steady_ofNodes`).
-/

namespace RichDoc

/-- Marks were registered and citations numbered; the path is the same. -/
structure Progress.Leads (before after : Progress) : Prop where
  registered : ∃ marks, after.registry = before.registry.register marks
  counted : before.citations ≤ after.citations
  path : after.path = before.path

namespace Progress.Leads

variable {a b c : Progress}

theorem refl (a : Progress) : a.Leads a := ⟨⟨[], rfl⟩, Nat.le_refl _, rfl⟩

theorem trans (hab : a.Leads b) (hbc : b.Leads c) : a.Leads c := by
  obtain ⟨marks, hb⟩ := hab.registered
  obtain ⟨more, hc⟩ := hbc.registered
  refine ⟨⟨marks ++ more, ?_⟩, Nat.le_trans hab.counted hbc.counted, hbc.path.trans hab.path⟩
  rw [Registry.register_append, ← hb, hc]

end Progress.Leads

namespace Export

variable {α β : Type} {environment : Environment} {progress progress' : Progress}

/-! ## Steady conversions -/

/-- The conversion only adds to its progress, whether it gives a result or fails. -/
def Steady (convert : Export α) : Prop :=
  ∀ environment (progress : Progress), progress.Leads (convert.runFrom environment progress).2

theorem Steady.leads {convert : Export α} (h : convert.Steady) {result : Except ExportError α}
    (hrun : convert.runFrom environment progress = (result, progress')) :
    progress.Leads progress' := by
  have := h environment progress
  rwa [hrun] at this

theorem steady_pure (x : α) : (pure x : Export α).Steady := fun _ progress => .refl progress

theorem steady_read : (read : Export Environment).Steady := fun _ progress => .refl progress

theorem steady_indexOf (mark : Mark) : (indexOf mark).Steady :=
  fun _ _ => ⟨⟨[mark], rfl⟩, Nat.le_refl _, rfl⟩

/-- The second part need only be steady after results that the first one can have. -/
theorem Steady.bind_of_yields {convert : Export α} {next : α → Export β} {P : α → Prop}
    (h : convert.Steady) (hP : convert.Yields P) (hn : ∀ x, P x → (next x).Steady) :
    (convert >>= next).Steady := by
  intro environment progress
  rcases hc : convert.runFrom environment progress with ⟨error | x, between⟩
  · rw [runFrom_bind_error hc]
    exact h.leads hc
  · rw [runFrom_bind_ok hc]
    exact (h.leads hc).trans (hn x (hP _ _ _ _ hc) environment between)

/-- Going down to a child and back leaves the path as it was. -/
theorem Steady.descend {convert : Export α} (h : convert.Steady) (index : Nat) (type : String) :
    (Export.descend index type convert).Steady := by
  intro environment progress
  obtain ⟨registered, counted, hpath⟩ := h environment (enter index type progress)
  rw [runFrom_descend]
  refine ⟨registered, counted, ?_⟩
  show List.tail _ = _
  rw [hpath]
  rfl

theorem closed_steady : Closed fun _ => Steady where
  pure := steady_pure
  throw _ := fun _ progress => .refl progress
  progress _ h := fun environment progress => h progress environment progress
  throwAt _ := fun _ progress => .refl progress
  ask _ _ := fun _ progress => .refl progress
  indexOf := steady_indexOf
  nextCitation := fun _ _ => ⟨⟨[], rfl⟩, Nat.le_succ _, rfl⟩
  bind_of_yields := .bind_of_yields
  descend := .descend

theorem Steady.bind {convert : Export α} {next : α → Export β} (h : convert.Steady)
    (hn : ∀ x, (next x).Steady) : (convert >>= next).Steady :=
  closed_steady.bind h hn

end Export

/-- All conversions that a prepared node holds are steady. -/
inductive Prepared.Steady : Prepared → Prop where
  | intro {prepared : Prepared} (block : prepared.block.Steady)
      (metaValue : prepared.metaValue.Steady)
      (children : ∀ child ∈ prepared.children, Prepared.Steady child) : Prepared.Steady prepared

theorem Prepared.steady_iff_each {child : Prepared} :
    child.Steady ↔ child.Each fun _ => Export.Steady := by
  constructor
  · intro h
    induction h with
    | intro block metaValue _ ih => exact .intro block metaValue ih
  · intro h
    induction h with
    | intro block metaValue _ ih => exact .intro block metaValue ih

/-- The footnote of a chunk, if it is one, has a steady conversion. -/
def Chunk.Steady : Chunk → Prop
  | .leaf _ => True
  | .note _ content => content.Steady

theorem Chunk.steady_iff_each {chunk : Chunk} :
    chunk.Steady ↔ chunk.Each fun _ => Export.Steady := by
  cases chunk <;> exact Iff.rfl

namespace Export

variable {α : Type} {children : List Prepared} {chunk : Chunk} {chunks : List Chunk}

/-! ## The converters -/

theorem steady_structural (message : String) : (structural message : Export α).Steady :=
  closed_steady.structural message

theorem steady_kindOf (node : Node) : (kindOf node).Steady := closed_steady.kindOf node

theorem steady_eachChildFrom {convert : Nat → Prepared → Export α}
    (h : ∀ index, ∀ child ∈ children, (convert index child).Steady) (index : Nat) :
    (eachChildFrom convert index children).Steady :=
  closed_steady.eachChildFrom h index

theorem steady_blocks (h : ∀ child ∈ children, child.Steady) : (blocks children).Steady :=
  closed_steady.blocks fun child hc => Prepared.steady_iff_each.mp (h child hc)

theorem steady_mapM_indexOf (marks : List Mark) : (marks.mapM indexOf).Steady :=
  closed_steady.mapM_indexOf marks

theorem steady_contribute (index : Nat) (child : Prepared) : (contribute index child).Steady :=
  closed_steady.contribute index child

theorem steady_collect (children : List Prepared) : (collect children).Steady :=
  closed_steady.collect children

theorem yields_collect (h : ∀ child ∈ children, child.Steady) :
    (collect children).Yields fun row => ∀ chunk ∈ row.1, chunk.Steady := by
  intro environment progress row progress' hrun chunk hchunk
  have heach := closed_steady.yields_collect fun child hc => Prepared.steady_iff_each.mp (h child hc)
  exact Chunk.steady_iff_each.mpr (heach _ _ _ _ hrun chunk hchunk)

theorem steady_openFrame (nest : Nest) (numbered : List (Nat × Nat)) (range : MarkRange) :
    (openFrame nest numbered range).Steady :=
  closed_steady.openFrame nest numbered range

theorem steady_openAt (position : Nat) (nest : Nest) (numbered : List (Nat × Nat))
    (ranges : List MarkRange) : (openAt position nest numbered ranges).Steady :=
  closed_steady.openAt position nest numbered ranges

theorem steady_emit (h : chunk.Steady) : (emit chunk).Steady :=
  closed_steady.emit (Chunk.steady_iff_each.mp h)

theorem steady_assembleFrom (h : ∀ chunk ∈ chunks, chunk.Steady) (position : Nat)
    (assembly : Assembly) : (assembleFrom position assembly chunks).Steady :=
  closed_steady.assembleFrom (fun chunk hc => Chunk.steady_iff_each.mp (h chunk hc)) position
    assembly

theorem steady_untangled (ranges : List MarkRange) : (untangled ranges).Steady :=
  closed_steady.untangled ranges

theorem steady_inlines (h : ∀ child ∈ children, child.Steady) : (inlines children).Steady :=
  closed_steady.inlines fun child hc => Prepared.steady_iff_each.mp (h child hc)

end Export

/-! ## Nodes -/

namespace Prepared

/-- The conversions of a node, and of all nodes below it, are steady. -/
theorem steady_ofNodes (nodes : List Node) : ∀ child ∈ ofNodes nodes, child.Steady :=
  fun child hc => steady_iff_each.mpr (Export.closed_steady.each_ofNodes nodes child hc)

end Prepared

end RichDoc
