import RichDoc.Proofs.Export.Converted
import RichDoc.Proofs.Export.Stack
import RichDoc.Proofs.Table.Indexed

/-!
# Rows with every access checked

The conversion of a row once more, with every access that could be out of
range spelled out: entries of the registry are looked up by the indexes
of marks, ranges are untangled by index, and containers are opened and
closed on a stack. An access is a read that gives nothing where it is out
of range (`Export.checked`), and what comes then is a `fault`, which is
any conversion one likes.

For the nodes of a document it is the same conversion, whatever the fault
is (`Checked.inlines_eq`). Collecting looks an entry up right after the
mark was registered. What it collects are ranges that are not empty, of
marks that are registered (`Checked.of_mem_collected`), and so are the
pieces, since a piece has the mark of the range it was cut from. From
there on the walk with the stack goes along with the walk over the nest
(`Checked.mirrors_assembleFrom`): a registry only grows, also while a
footnote is converted, so a container that is closed late still finds its
entry.
-/

namespace RichDoc

open Pandoc (Block Inline MetaValue)

namespace Export

variable {α β γ δ : Type} {environment : Environment} {progress after : Progress}

/-- What a read gives; where that is nothing, the fault comes instead. -/
def checked (fault : ∀ α : Type, Export α) (read : Environment → Progress → Option α) :
    Export α := do
  match read (← MonadReader.read) (← get) with
  | some x => return x
  | none => fault α

theorem runFrom_checked {fault : ∀ α : Type, Export α} {read : Environment → Progress → Option α}
    {x : α} (h : read environment progress = some x) :
    (checked fault read).runFrom environment progress = (.ok x, progress) := by
  show (match read environment progress with
    | some x => return x
    | none => fault α : Export α).runFrom environment progress = _
  rw [h]
  rfl

theorem ext_runFrom {one other : Export α}
    (h : ∀ environment progress,
      one.runFrom environment progress = other.runFrom environment progress) : one = other := by
  funext environment progress
  exact h environment progress

/-! ## Conversions that end alike -/

/-- Two runs end with the same progress, and both fail for the same cause or have results that
are related by the registry. -/
inductive EndAlike (R : Registry → α → β → Prop) :
    Except ExportError α × Progress → Except ExportError β × Progress → Prop where
  | ok {x : α} {y : β} {after : Progress} (related : R after.registry x y) :
      EndAlike R (.ok x, after) (.ok y, after)
  | error (cause : ExportError) (after : Progress) :
      EndAlike R (.error cause, after) (.error cause, after)

/-- From this progress on, the first conversion ends as the second one does. -/
def Mirrors (R : Registry → α → β → Prop) (one : Export α) (other : Export β)
    (environment : Environment) (progress : Progress) : Prop :=
  EndAlike R (one.runFrom environment progress) (other.runFrom environment progress)

namespace Mirrors

variable {R : Registry → α → β → Prop} {S : Registry → γ → δ → Prop} {one : Export α}
  {other : Export β} {next : α → Export γ} {otherNext : β → Export δ}

theorem of_runFrom_eq {one other : Export α}
    (h : one.runFrom environment progress = other.runFrom environment progress) :
    Mirrors (fun _ x y => x = y) one other environment progress := by
  unfold Mirrors
  rw [h]
  rcases other.runFrom environment progress with ⟨cause | x, after⟩
  · exact .error cause after
  · exact .ok rfl

theorem refl (convert : Export α) :
    Mirrors (fun _ x y => x = y) convert convert environment progress :=
  of_runFrom_eq rfl

theorem pure {x : α} {y : β} (h : R progress.registry x y) :
    Mirrors R (Pure.pure x) (Pure.pure y) environment progress := .ok h

theorem bind (h : Mirrors R one other environment progress)
    (hnext : ∀ x y after, other.runFrom environment progress = (.ok y, after) →
      R after.registry x y → Mirrors S (next x) (otherNext y) environment after) :
    Mirrors S (one >>= next) (other >>= otherNext) environment progress := by
  unfold Mirrors at h ⊢
  generalize hone : one.runFrom environment progress = run,
    hother : other.runFrom environment progress = otherRun at h
  cases h with
  | ok related =>
      rw [runFrom_bind_ok hone, runFrom_bind_ok hother]
      exact hnext _ _ _ hother related
  | error cause after =>
      rw [runFrom_bind_error hone, runFrom_bind_error hother]
      exact .error cause after

/-- A read that is in range is passed over. -/
theorem of_read {ε : Type} {fault : ∀ α : Type, Export α}
    {read : Environment → Progress → Option ε} {x : ε} {next : ε → Export α}
    (hread : read environment progress = some x)
    (h : Mirrors R (next x) other environment progress) :
    Mirrors R (checked fault read >>= next) other environment progress := by
  unfold Mirrors
  rwa [runFrom_bind_ok (runFrom_checked hread)]

theorem runFrom_eq {one other : Export α}
    (h : Mirrors (fun _ x y => x = y) one other environment progress) :
    one.runFrom environment progress = other.runFrom environment progress := by
  unfold Mirrors at h
  generalize one.runFrom environment progress = run,
    other.runFrom environment progress = otherRun at h ⊢
  cases h with
  | ok related => rw [related]
  | error cause after => rfl

end Mirrors

end Export

/-! ## Rows -/

namespace Checked

open Export (checked Mirrors)

section Inlines

variable (fault : ∀ α : Type, Export α)

/-- The entry of a mark. -/
def entryOf (mark : Nat) : Export Entry :=
  checked fault fun _ progress => progress.registry.entry? mark

/-- As `Export.opaqueLeaf?`, with the entry of every mark that is registered looked up. -/
def opaqueLeaf? (text : String) : List Mark → Export (Option Inline)
  | [] => return none
  | mark :: rest => do
    let _ ← entryOf fault (← Export.indexOf mark)
    match (Container.ofMark (.ofName mark.type) mark).leaf? text with
    | some leaf => return some leaf
    | none => opaqueLeaf? text rest

/-- What a child brings to the row. Only a text has its marks looked at for a leaf. -/
def contribute (index : Nat) (child : Prepared) : Export Contribution := do
  match child.node.kind? with
  | some .text =>
    let text := child.node.text.getD ""
    match ← opaqueLeaf? fault text child.node.marks with
    | some leaf => return .run [.leaf leaf] []
    | none =>
      return .run ((Inline.ofText text).map .leaf) (← Export.markIndexes child.node.marks)
  | _ => Export.contribute index child

def collect (children : List Prepared) : Export (List Chunk × List MarkRange) := do
  let contributions ← Export.eachChild (contribute fault) children
  return (contributions.flatMap Contribution.chunks, collectRanges contributions)

def untangled (ranges : List MarkRange) : Export (List MarkRange) := do
  match ← checked fault fun environment progress =>
      untangle? progress.registry environment.priority ranges with
  | .ok ranges => return ranges
  | .error cause => throw (.diverged cause)

/-- The note number of a container: that of its origin, or a new one for a citation. -/
def numberOf (numbered : List (Nat × Nat)) (range : MarkRange) :
    Export (Nat × List (Nat × Nat)) :=
  match numbered.lookup range.origin with
  | some number => return (number, numbered)
  | none => do
    let entry ← entryOf fault range.mark
    if entry.container.isCitation then
      let number ← Export.nextCitation
      return (number, (range.origin, number) :: numbered)
    else return (0, numbered)

/-- The walk over the chunks, with a stack. -/
structure StackAssembly where
  stack : List StackFrame := [.root []]
  pending : List MarkRange
  numbered : List (Nat × Nat) := []

def openAt (position : Nat) (stack : List StackFrame) (numbered : List (Nat × Nat)) :
    List MarkRange → Export StackAssembly
  | [] => return ⟨stack, [], numbered⟩
  | range :: rest => do
    if range.start = position then
      let (number, numbered) ← numberOf fault numbered range
      openAt position (.container range.mark range.stop number [] :: stack) numbered rest
    else return ⟨stack, range :: rest, numbered⟩

def assembleFrom (position : Nat) (assembly : StackAssembly) : List Chunk → Export StackAssembly
  | [] => return assembly
  | chunk :: rest => do
    let stack ← checked fault fun _ progress =>
      StackFrame.closeFrames? progress.registry (· ≤ position) assembly.stack
    let assembly ← openAt fault position stack assembly.numbered assembly.pending
    let inline ← Export.emit chunk
    let stack ← checked fault fun _ _ => StackFrame.pushInline? inline assembly.stack
    assembleFrom (position + 1) { assembly with stack := stack } rest

def assemble (chunks : List Chunk) (ranges : List MarkRange) : Export (List Inline) := do
  let assembly ← assembleFrom fault 0 { pending := ranges } chunks
  checked fault fun _ progress => do
    StackFrame.rootContent?
      (← StackFrame.closeFrames? progress.registry (fun _ => true) assembly.stack)

/-- The children as inlines, with every access checked. -/
def inlines (children : List Prepared) : Export (List Inline) := do
  let (chunks, ranges) ← collect fault children
  assemble fault chunks (← untangled fault ranges)

/-! ## Rows in range -/

variable {environment : Environment} {progress after : Progress}

theorem opaqueLeaf?_eq (text : String) (marks : List Mark) :
    opaqueLeaf? fault text marks = Export.opaqueLeaf? text marks := by
  induction marks with
  | nil => rfl
  | cons mark rest ih =>
      refine Export.ext_runFrom fun environment progress => ?_
      obtain ⟨entry, hentry, -⟩ :=
        Registry.exists_stands (Registry.index?_indexOf_self progress.registry mark)
      have hindex : (Export.indexOf mark).runFrom environment progress =
          (.ok _, { progress with registry := (progress.registry.indexOf mark).2 }) := rfl
      unfold opaqueLeaf? Export.opaqueLeaf? entryOf
      refine (Export.runFrom_bind_ok hindex).trans ?_
      refine (Export.runFrom_bind_ok (Export.runFrom_checked hentry)).trans ?_
      refine Eq.trans ?_ (Export.runFrom_bind_ok hindex).symm
      cases (Container.ofMark (.ofName mark.type) mark).leaf? text with
      | some leaf => rfl
      | none => exact congrArg (Export.runFrom · environment _) ih

theorem contribute_eq : contribute fault = Export.contribute := by
  funext index child
  unfold contribute
  split
  · next hkind =>
    dsimp only
    rw [opaqueLeaf?_eq, Export.contribute, Export.kindOf, hkind]
    rfl
  · rfl

theorem collect_eq (children : List Prepared) :
    collect fault children = Export.collect children := by
  rw [collect, contribute_eq]
  rfl

/-- Collecting leaves ranges that are not empty, and whose marks are registered. -/
theorem of_mem_collected {nodes : List Node} {chunks : List Chunk} {ranges : List MarkRange}
    (h : (Export.collect (Prepared.ofNodes nodes)).runFrom environment progress =
      (.ok (chunks, ranges), after)) :
    ∀ range ∈ ranges, range.start < range.stop ∧ after.registry.Has range.mark := by
  obtain ⟨contributions, hcontributes, -, rfl⟩ := Export.exists_contributes_of_collect h
  have hnodup := hcontributes.nodup
  intro range hr
  obtain ⟨mark, hindex⟩ := Export.exists_index?_of_mem_collectRanges hcontributes hnodup hr
  obtain ⟨entry, hentry, -⟩ := Registry.exists_stands hindex
  exact ⟨nonempty_of_mem_collectRanges hnodup range hr, entry, hentry⟩

theorem runFrom_untangled {ranges : List MarkRange}
    (h : ∀ range ∈ ranges, range.start < range.stop ∧ progress.registry.Has range.mark) :
    (untangled fault ranges).runFrom environment progress =
      (Export.untangled ranges).runFrom environment progress := by
  have hread := untangle?_eq_some environment.priority (fun range hr => (h range hr).1)
    fun range hr => (h range hr).2
  have horder : Export.markOrder.runFrom environment progress =
      (.ok (progress.registry.compare environment.priority), progress) := rfl
  refine (Export.runFrom_bind_ok (Export.runFrom_checked hread)).trans ?_
  refine Eq.trans ?_ (Export.runFrom_bind_ok horder).symm
  cases untangle (progress.registry.compare environment.priority) ranges <;> rfl

/-! ## Assembling in range -/

/-- The walks are at the same place: the stack stands for the nest, and the marks of the ranges
that wait are registered. -/
structure WalksAlong (registry : Registry) (one : StackAssembly) (other : Assembly) : Prop where
  stands : Stands registry one.stack other.nest
  pending : one.pending = other.pending
  numbered : one.numbered = other.numbered
  registered : ∀ range ∈ other.pending, registry.Has range.mark

/-- A range that is opened becomes a frame on the stack. -/
theorem mirrors_openFrame {range : MarkRange} {stack : List StackFrame} {nest : Nest}
    (numbered : List (Nat × Nat)) (hstands : Stands progress.registry stack nest)
    (hmark : progress.registry.Has range.mark) :
    Mirrors (fun registry x y =>
        Stands registry (.container range.mark range.stop x.1 [] :: stack) y.1 ∧ x.2 = y.2)
      (numberOf fault numbered range) (Export.openFrame nest numbered range)
      environment progress := by
  obtain ⟨entry, hentry⟩ := hmark
  have hframe {number : Nat} : Stands progress.registry
      (.container range.mark range.stop number [] :: stack)
      { nest with frames := ⟨entry.container, range.stop, number, []⟩ :: nest.frames } :=
    .container hentry hstands
  unfold Mirrors Export.openFrame numberOf
  rw [Export.runFrom_bind_ok (Export.runFrom_containerOf range.mark),
    Registry.containerAt_eq_of_registered hentry]
  cases numbered.lookup range.origin with
  | some number =>
      refine .ok ?_
      exact ⟨hframe, rfl⟩
  | none =>
      dsimp only
      rw [entryOf, Export.runFrom_bind_ok (Export.runFrom_checked hentry)]
      cases entry.container.isCitation
      · refine .ok ?_
        exact ⟨hframe, rfl⟩
      · refine .ok ?_
        exact ⟨hframe, rfl⟩

theorem mirrors_openAt (position : Nat) {stack : List StackFrame} {nest : Nest}
    (numbered : List (Nat × Nat)) {pending : List MarkRange}
    (hstands : Stands progress.registry stack nest)
    (hmarks : ∀ range ∈ pending, progress.registry.Has range.mark) :
    Mirrors WalksAlong (openAt fault position stack numbered pending)
      (Export.openAt position nest numbered pending) environment progress := by
  induction pending generalizing stack nest numbered progress with
  | nil => exact .pure ⟨hstands, rfl, rfl, hmarks⟩
  | cons range rest ih =>
      obtain ⟨hmark, hrest⟩ := List.forall_mem_cons.mp hmarks
      unfold openAt Export.openAt
      split
      · refine (mirrors_openFrame fault numbered hstands hmark).bind ?_
        rintro ⟨number, numbered⟩ ⟨nest, _⟩ after hrun ⟨hopened, rfl⟩
        have hleads := (Export.steady_openFrame _ _ _).leads hrun
        exact ih numbered hopened fun range hr => hleads.has (hrest range hr)
      · exact .pure ⟨hstands, rfl, rfl, hmarks⟩

/-- The walk over the chunks makes no read out of range, and the walks stay together. -/
theorem mirrors_assembleFrom (position : Nat) {chunks : List Chunk} {one : StackAssembly}
    {other : Assembly} (hchunks : ∀ chunk ∈ chunks, chunk.Steady)
    (h : WalksAlong progress.registry one other) :
    Mirrors WalksAlong (assembleFrom fault position one chunks)
      (Export.assembleFrom position other chunks) environment progress := by
  induction chunks generalizing position one other progress with
  | nil => exact .pure h
  | cons chunk rest ih =>
      obtain ⟨hchunk, hrest⟩ := List.forall_mem_cons.mp hchunks
      unfold assembleFrom Export.assembleFrom
      obtain ⟨closed, hclose, hclosed⟩ := h.stands.exists_closeFrames? (· ≤ position)
      refine .of_read hclose ?_
      rw [h.pending, h.numbered]
      refine (mirrors_openAt fault position other.numbered hclosed h.registered).bind ?_
      intro opened plain between hrun hopened
      refine (Mirrors.refl (Export.emit chunk)).bind ?_
      rintro inline _ after hemit rfl
      have hleads := (Export.steady_emit hchunk).leads hemit
      obtain ⟨stack, hpush, hstack⟩ := (hopened.stands.leads hleads).exists_pushInline? inline
      refine .of_read hpush ?_
      exact ih (position + 1) hrest ⟨hstack, hopened.pending, hopened.numbered,
        fun range hr => hleads.has (hopened.registered range hr)⟩

theorem runFrom_assemble {chunks : List Chunk} {ranges : List MarkRange}
    (hchunks : ∀ chunk ∈ chunks, chunk.Steady)
    (hmarks : ∀ range ∈ ranges, progress.registry.Has range.mark) :
    (assemble fault chunks ranges).runFrom environment progress =
      (Export.assemble chunks ranges).runFrom environment progress := by
  refine Mirrors.runFrom_eq ?_
  unfold assemble Export.assemble
  refine (mirrors_assembleFrom fault 0 hchunks
    ⟨.root [], rfl, rfl, hmarks⟩).bind fun one other after _ h => ?_
  obtain ⟨stack, hclose, hcontent⟩ := h.stands.exists_close
  unfold Mirrors
  rw [Export.runFrom_checked (x := other.nest.close) (by
    rw [hclose]
    exact hcontent)]
  exact .ok rfl

/-- Inlines are converted without an access out of range. -/
theorem inlines_eq (nodes : List Node) :
    inlines fault (Prepared.ofNodes nodes) = Export.inlines (Prepared.ofNodes nodes) := by
  refine Export.ext_runFrom fun environment progress => Mirrors.runFrom_eq ?_
  rw [inlines, Export.inlines, collect_eq]
  refine (Mirrors.refl _).bind ?_
  rintro ⟨chunks, ranges⟩ _ collected hcollect rfl
  have hranges := of_mem_collected hcollect
  have hchunks : ∀ chunk ∈ chunks, chunk.Steady :=
    Export.yields_collect (Prepared.steady_ofNodes nodes) _ _ _ _ hcollect
  refine (Mirrors.of_runFrom_eq (runFrom_untangled fault hranges)).bind ?_
  rintro pieces _ between huntangle rfl
  obtain ⟨hpieces, rfl⟩ := Export.untangle_of_untangled huntangle
  refine .of_runFrom_eq (runFrom_assemble fault hchunks fun piece hp => ?_)
  obtain ⟨range, hr, hcut⟩ :=
    cutFrom_untangle (fun range hr => (hranges range hr).1) hpieces piece hp
  rw [hcut.mark]
  exact (hranges range hr).2

end Inlines

end Checked

end RichDoc
