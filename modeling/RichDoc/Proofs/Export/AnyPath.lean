import RichDoc.Proofs.Export.Composed

/-!
# Results under any path

The path is kept for the sake of errors. A conversion that gives a result
never reports where it is, so it is replayed step for step under any other
path, with the same result and the same progress but for the path
(`Export.IgnoresPath`). All converters have this property
(`Export.closed_ignoresPath`).

Nodes in front of a child decide about its index. When some of them are
put in or taken out, the child is converted under another path, and so is a
footnote, later, when its chunk is assembled. Neither makes a difference
to results (`Export.agrees_descend`), so a whole walk over chunks can be
replayed with chunks that give the same inlines (`Export.agrees_assemble`).
-/

namespace RichDoc

namespace Export

variable {α β : Type} {convert other third : Export α}

/-! ## Conversions with the same results -/

/-- Where the one conversion gives a result, so does the other, and they leave the same behind. -/
def Agrees (convert other : Export α) : Prop :=
  ∀ environment progress x after, convert.runFrom environment progress = (.ok x, after) ↔
    other.runFrom environment progress = (.ok x, after)

theorem Agrees.refl (convert : Export α) : convert.Agrees convert := fun _ _ _ _ => .rfl

theorem Agrees.trans (h : convert.Agrees other) (h' : other.Agrees third) :
    convert.Agrees third :=
  fun _ _ _ _ => (h _ _ _ _).trans (h' _ _ _ _)

/-- The second parts need only agree after results that the first one can have. -/
theorem Agrees.bind_of_yields {next next' : α → Export β} {P : α → Prop} (h : convert.Agrees other)
    (hP : convert.Yields P) (hn : ∀ x, P x → (next x).Agrees (next' x)) :
    (convert >>= next).Agrees (other >>= next') := by
  intro environment progress y after
  constructor
  · intro hrun
    obtain ⟨x, between, hfirst, hnext⟩ := runFrom_bind_eq_ok hrun
    rw [runFrom_bind_ok ((h _ _ _ _).mp hfirst)]
    exact (hn x (hP _ _ _ _ hfirst) _ _ _ _).mp hnext
  · intro hrun
    obtain ⟨x, between, hother, hnext⟩ := runFrom_bind_eq_ok hrun
    have hfirst := (h _ _ _ _).mpr hother
    rw [runFrom_bind_ok hfirst]
    exact (hn x (hP _ _ _ _ hfirst) _ _ _ _).mpr hnext

theorem Agrees.bind {next next' : α → Export β} (h : convert.Agrees other)
    (hn : ∀ x, (next x).Agrees (next' x)) : (convert >>= next).Agrees (other >>= next') :=
  h.bind_of_yields (yields_true convert) fun x _ => hn x

theorem Agrees.map (f : α → β) (h : convert.Agrees other) : (f <$> convert).Agrees (f <$> other) := by
  rw [map_eq_pure_bind, map_eq_pure_bind]
  exact h.bind fun x => .refl _

/-! ## Conversions under another path -/

/-- A result does not depend on the path, which is the same behind the conversion as before. -/
def IgnoresPath (convert : Export α) : Prop :=
  ∀ environment progress path x after, convert.runFrom environment progress = (.ok x, after) →
    convert.runFrom environment { progress with path } = (.ok x, { after with path })

namespace IgnoresPath

variable {environment : Environment} {progress after : Progress} {x : α}

theorem bind_of_yields {next : α → Export β} {P : α → Prop} (h : convert.IgnoresPath)
    (hP : convert.Yields P) (hn : ∀ x, P x → (next x).IgnoresPath) :
    (convert >>= next).IgnoresPath := by
  intro environment progress path y after hrun
  obtain ⟨x, between, hfirst, hnext⟩ := runFrom_bind_eq_ok hrun
  rw [runFrom_bind_ok (h _ _ path _ _ hfirst)]
  exact hn x (hP _ _ _ _ hfirst) _ _ path _ _ hnext

/-- With the path as it was the result is the same, so the conversion left it as it was. -/
theorem path_eq (h : convert.IgnoresPath)
    (hrun : convert.runFrom environment progress = (.ok x, after)) : after.path = progress.path :=
  congrArg (Progress.path ∘ Prod.snd) (hrun.symm.trans (h _ _ progress.path _ _ hrun))

theorem descend (h : convert.IgnoresPath) (index : Nat) (type : String) :
    (Export.descend index type convert).IgnoresPath := by
  intro environment progress path x after hrun
  obtain ⟨inner, hinner, rfl⟩ := runFrom_descend_eq_ok hrun
  have hother : convert.runFrom environment (enter index type { progress with path }) =
      (.ok x, { inner with path := (enter index type { progress with path }).path }) :=
    h _ (enter index type progress) _ _ _ hinner
  exact runFrom_descend_ok hother

/-- A child gives the same under another index. -/
theorem runFrom_descend (h : convert.IgnoresPath) {index : Nat} {type : String}
    (hrun : (Export.descend index type convert).runFrom environment progress = (.ok x, after))
    (other : Nat) :
    (Export.descend other type convert).runFrom environment progress = (.ok x, after) := by
  obtain ⟨inner, hinner, rfl⟩ := runFrom_descend_eq_ok hrun
  have hother : convert.runFrom environment (enter other type progress) =
      (.ok x, { inner with path := (enter other type progress).path }) :=
    h _ (enter index type progress) _ _ _ hinner
  have hback : leave inner = leave { inner with path := (enter other type progress).path } := by
    rw [leave, leave, h.path_eq hinner]
    rfl
  rw [hback]
  exact runFrom_descend_ok hother

end IgnoresPath

theorem agrees_descend (h : convert.IgnoresPath) (index other : Nat) (type : String) :
    (descend index type convert).Agrees (descend other type convert) :=
  fun _ _ _ _ => ⟨fun hrun => h.runFrom_descend hrun other,
    fun hrun => h.runFrom_descend hrun index⟩

theorem closed_ignoresPath : Closed fun _ => IgnoresPath where
  pure _ := by
    rintro _ _ _ _ _ ⟨⟩
    rfl
  throw _ := nofun
  progress {_ next} blind h := fun environment progress path x after hrun => by
    have hother := h progress environment progress path x after hrun
    rwa [← blind progress path] at hother
  throwAt _ := nofun
  ask _ _ := by
    rintro _ _ _ _ _ ⟨⟩
    rfl
  indexOf _ := by
    rintro _ _ _ _ _ ⟨⟩
    rfl
  nextCitation := by
    rintro _ _ _ _ _ ⟨⟩
    rfl
  bind_of_yields := .bind_of_yields
  descend := .descend

/-! ## Walks over other chunks -/

section

variable {chunks chunks' : List Chunk}

/-- The chunks give the same inline. -/
def EmitsAs (chunk chunk' : Chunk) : Prop := (emit chunk).Agrees (emit chunk')

theorem agrees_assembleFrom (h : List.Forall₂ EmitsAs chunks chunks') (position : Nat)
    (assembly : Assembly) :
    (assembleFrom position assembly chunks).Agrees (assembleFrom position assembly chunks') := by
  induction h generalizing position assembly with
  | nil => exact .refl _
  | cons hchunk _ ih =>
      exact (Agrees.refl _).bind fun _ => hchunk.bind fun _ => ih (position + 1) _

/-- Chunks that give the same inlines are assembled to the same. -/
theorem agrees_assemble (h : List.Forall₂ EmitsAs chunks chunks') (ranges : List MarkRange) :
    (assemble chunks ranges).Agrees (assemble chunks' ranges) :=
  (agrees_assembleFrom h 0 _).bind fun _ => .refl _

end

end Export

end RichDoc
