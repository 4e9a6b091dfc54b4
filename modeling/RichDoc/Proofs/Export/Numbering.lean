import RichDoc.Proofs.Export.Converted

/-!
# Note numbers in a row

A citation takes the next note number when it is opened first, and its
other pieces take the same one. So the note number of a range is its place
in the list of all ranges that have been opened, each listed when it came
up first (`grow`).
-/

namespace RichDoc

open Pandoc (Inline Block Citation inlinesCites inlinesCites_append inlinesCites_singleton
  blocksCites)

/-! ## Places in a growing list -/

section Grow

variable {α : Type} [DecidableEq α] {a : α} {seen keys more : List α}

/-- What has been seen, once more has come up: each new one goes to the end. -/
def grow (seen : List α) : List α → List α
  | [] => seen
  | a :: rest => grow (if a ∈ seen then seen else seen ++ [a]) rest

theorem grow_append (seen keys more : List α) :
    grow seen (keys ++ more) = grow (grow seen keys) more := by
  induction keys generalizing seen with
  | nil => rfl
  | cons a rest ih => exact ih _

theorem grow_of_mem (h : a ∈ seen) : grow seen [a] = seen := by
  rw [grow, if_pos h, grow]

theorem grow_of_not_mem (h : a ∉ seen) : grow seen [a] = seen ++ [a] := by
  rw [grow, if_neg h, grow]

theorem mem_grow : a ∈ grow seen keys ↔ a ∈ seen ∨ a ∈ keys := by
  induction keys generalizing seen with
  | nil => simp [grow]
  | cons b rest ih =>
      rw [grow, ih, List.mem_cons]
      split
      · next hb =>
        constructor
        · rintro (h | h)
          · exact .inl h
          · exact .inr (.inr h)
        · rintro (h | rfl | h)
          · exact .inl h
          · exact .inl hb
          · exact .inr h
      · rw [List.mem_append, List.mem_singleton, or_assoc]

theorem prefix_grow (seen keys : List α) : seen <+: grow seen keys := by
  induction keys generalizing seen with
  | nil => exact List.prefix_refl seen
  | cons a rest ih =>
      rw [grow]
      split
      · exact ih seen
      · exact (List.prefix_append seen [a]).trans (ih _)

theorem nodup_grow (h : seen.Nodup) : (grow seen keys).Nodup := by
  induction keys generalizing seen with
  | nil => exact h
  | cons a rest ih =>
      rw [grow]
      split
      · exact ih h
      · next ha => exact ih (List.nodup_append.mpr ⟨h, List.nodup_singleton a, by
          rintro b hb c hc rfl
          exact ha (List.mem_singleton.mp hc ▸ hb)⟩)

/-- The place of what has been seen does not change any more. -/
theorem idxOf_of_begins (h : seen <+: more) (ha : a ∈ seen) : more.idxOf a = seen.idxOf a := by
  obtain ⟨rest, rfl⟩ := h
  exact List.idxOf_append_of_mem ha

theorem grow_nil_eq_eraseDups (keys : List α) : grow [] keys = keys.eraseDups := by
  induction keys using List.reverseRecOn with
  | nil => rfl
  | append_singleton keys a ih =>
      rw [grow_append, ih, List.eraseDups_append]
      by_cases ha : a ∈ keys
      · rw [grow_of_mem (List.mem_eraseDups.mpr ha)]
        simp [List.removeAll, ha]
      · rw [grow_of_not_mem (mt List.mem_eraseDups.mp ha)]
        simp [List.removeAll, ha, List.eraseDups_cons]

/-- The same thing many times is seen once. -/
theorem grow_of_forall_eq (hne : keys ≠ []) (h : ∀ b ∈ keys, b = a) :
    grow seen keys = grow seen [a] := by
  cases keys with
  | nil => exact absurd rfl hne
  | cons b rest =>
      obtain ⟨rfl, hrest⟩ := List.forall_mem_cons.mp h
      have hall : ∀ {more : List α}, b ∈ more → grow more rest = more := by
        clear h hne
        intro more hb
        induction rest with
        | nil => rfl
        | cons c rest ih =>
            obtain ⟨rfl, hrest⟩ := List.forall_mem_cons.mp hrest
            rw [grow, if_pos hb]
            exact ih hrest
      rw [← List.singleton_append, grow_append]
      exact hall (mem_grow.mpr (.inr (List.mem_singleton_self b)))

theorem grow_map {β : Type} [DecidableEq β] {f : α → β}
    (h : ∀ a ∈ keys, ∀ b, b ∈ seen ∨ b ∈ keys → f a = f b → a = b) :
    grow (seen.map f) (keys.map f) = (grow seen keys).map f := by
  induction keys generalizing seen with
  | nil => rfl
  | cons a rest ih =>
      obtain ⟨ha, hrest⟩ := List.forall_mem_cons.mp h
      have hmem : f a ∈ seen.map f ↔ a ∈ seen := by
        constructor
        · intro hfa
          obtain ⟨b, hb, heq⟩ := List.mem_map.mp hfa
          exact ha b (.inl hb) heq.symm ▸ hb
        · exact List.mem_map_of_mem
      have hseen : (if f a ∈ seen.map f then seen.map f else seen.map f ++ [f a]) =
          (if a ∈ seen then seen else seen ++ [a]).map f := by
        rw [if_congr hmem rfl rfl, ← List.map_singleton, ← List.map_append]
        split <;> rfl
      rw [List.map_cons, grow, hseen, grow]
      refine ih fun c hc b hb => hrest c hc b ?_
      rcases hb with hb | hb
      · split at hb
        · exact .inl hb
        · rcases List.mem_append.mp hb with hb | hb
          · exact .inl hb
          · exact .inr (List.mem_singleton.mp hb ▸ List.mem_cons_self ..)
      · exact .inr (List.mem_cons_of_mem _ hb)

end Grow

/-- All that is cited in one place has the number of the range, its place among what was seen. -/
structure Labelled (seen : List RangeKey) (citations : List Citation) (key : RangeKey) : Prop where
  nonempty : citations ≠ []
  mem : key ∈ seen
  number : ∀ citation ∈ citations, citation.noteNumber = seen.idxOf key + 1

theorem Labelled.mono {seen more : List RangeKey} {citations : List Citation} {key : RangeKey}
    (h : Labelled seen citations key) (hbegins : seen <+: more) :
    Labelled more citations key := by
  refine ⟨h.nonempty, hbegins.subset h.mem, ?_⟩
  rw [idxOf_of_begins hbegins h.mem]
  exact h.number

/-- The citations are labelled by the ranges, one after the other. -/
abbrev AllLabelled (seen : List RangeKey) : List (List Citation) → List RangeKey → Prop :=
  List.Forall₂ (Labelled seen)

theorem AllLabelled.mono {seen more : List RangeKey} {cites : List (List Citation)}
    {keys : List RangeKey} (h : AllLabelled seen cites keys) (hbegins : seen <+: more) :
    AllLabelled more cites keys :=
  h.imp fun _ _ hl => hl.mono hbegins

/-! ## What is cited in a nest -/

/-- A container cites what it cites itself, and then what its content does. -/
theorem Container.cites_wrap {container : Container} (h : container.holdsText = false)
    (content : List Inline) (noteNumber : Int) :
    (container.wrap content noteNumber).cites =
      container.cites noteNumber ++ inlinesCites content := by
  cases container with
  | code attr => cases h
  | math type => cases h
  | _ => rfl

/-- What is cited in open containers and in what is done. -/
def framesCites (done : List Inline) : List Frame → List (List Citation)
  | [] => inlinesCites done.reverse
  | frame :: outer =>
    framesCites done outer ++ frame.container.cites frame.noteNumber
      ++ inlinesCites frame.content.reverse

namespace Nest

/-- What is cited in a nest so far, from front to back. -/
def cites (nest : Nest) : List (List Citation) := framesCites nest.done nest.frames

/-- The open containers keep what is put into them. -/
def Keeps (nest : Nest) : Prop := ∀ frame ∈ nest.frames, frame.container.holdsText = false

theorem cites_put (inline : Inline) (nest : Nest) :
    (nest.put inline).cites = nest.cites ++ inline.cites := by
  rcases nest with ⟨_ | ⟨frame, outer⟩, done⟩
  · simp [cites, put, framesCites, inlinesCites_append, inlinesCites_singleton]
  · simp [cites, put, Frame.put, framesCites, inlinesCites_append, inlinesCites_singleton]

theorem Keeps.put {nest : Nest} (h : nest.Keeps) (inline : Inline) : (nest.put inline).Keeps := by
  rcases nest with ⟨_ | ⟨frame, outer⟩, done⟩
  · exact h
  · exact List.forall_mem_cons.mpr (List.forall_mem_cons.mp h)

theorem cites_inline {frame : Frame} (h : frame.container.holdsText = false) :
    frame.inline.cites =
      frame.container.cites frame.noteNumber ++ inlinesCites frame.content.reverse :=
  Container.cites_wrap h _ _

/-- Closing containers changes nothing about what is cited. -/
theorem cites_closeFrames (ended : Frame → Bool) {nest : Nest} (h : nest.Keeps) :
    (closeFrames ended nest.done none nest.frames).cites = nest.cites ∧
      (closeFrames ended nest.done none nest.frames).Keeps := by
  -- closing the innermost container changes the next one, so this is no induction on the list
  induction hn : nest.frames.length generalizing nest with
  | zero =>
      obtain ⟨frames, done⟩ := nest
      obtain rfl : frames = [] := List.length_eq_zero_iff.mp hn
      exact ⟨rfl, h⟩
  | succ n ih =>
      obtain ⟨_ | ⟨frame, outer⟩, done⟩ := nest
      · cases hn
      obtain ⟨hframe, houter⟩ := List.forall_mem_cons.mp h
      have hclose : closeFrames ended done none (frame :: outer) =
          if ended frame then closeFrames ended done (some frame.inline) outer
          else ⟨frame :: outer, done⟩ := rfl
      dsimp only
      rw [hclose]
      by_cases hended : ended frame = true
      · rw [if_pos hended, Growth.closeFrames_some]
        have hlength : (Nest.put frame.inline ⟨outer, done⟩).frames.length = n := by
          rw [← Nat.succ.inj hn]
          cases outer <;> rfl
        have houter : Nest.Keeps ⟨outer, done⟩ := houter
        obtain ⟨hcites, hkeeps⟩ := ih (houter.put frame.inline) hlength
        refine ⟨?_, hkeeps⟩
        rw [hcites, cites_put, cites_inline hframe, ← List.append_assoc]
        rfl
      · rw [if_neg hended]
        exact ⟨rfl, h⟩

theorem cites_closeAt (position : Nat) {nest : Nest} (h : nest.Keeps) :
    (nest.closeAt position).cites = nest.cites ∧ (nest.closeAt position).Keeps :=
  cites_closeFrames _ h

theorem cites_close {nest : Nest} (h : nest.Keeps) : inlinesCites nest.close = nest.cites := by
  have hclosed : ∀ (frames : List Frame) (closed : Option Inline) (done : List Inline),
      (closeFrames (fun _ => true) done closed frames).frames = [] := by
    intro frames
    induction frames with
    | nil => exact fun _ _ => rfl
    | cons frame outer ih => exact fun closed done => ih _ _
  have hcites := (cites_closeFrames (fun _ => true) h).1
  rw [cites, hclosed] at hcites
  exact hcites

end Nest

/-! ## Opening containers -/

theorem Container.cites_of_not_isCitation {container : Container}
    (h : container.isCitation = false) (noteNumber : Int) : container.cites noteNumber = [] := by
  cases container with
  | cite references => cases h
  | _ => rfl

theorem allLabelled_of_isCitation {container : Container} {seen : List RangeKey} {key : RangeKey}
    {noteNumber : Nat} (hne : container ≠ .cite []) (hcitation : container.isCitation = true)
    (hmem : key ∈ seen) (hnumber : noteNumber = seen.idxOf key + 1) :
    AllLabelled seen (container.cites noteNumber) [key] := by
  cases container with
  | cite references =>
      refine .cons ⟨?_, hmem, ?_⟩ .nil
      · rintro hnil
        exact hne (congrArg Container.cite (List.map_eq_nil_iff.mp hnil))
      · intro citation hc
        obtain ⟨reference, -, rfl⟩ := List.mem_map.mp hc
        rw [Reference.toCitation, hnumber]
        rfl
  | _ => cases hcitation

/-- Note numbers that were given in a row, and how many in all, are places among what was seen. -/
structure Tracks (way : List Nat) (seen : List RangeKey) (progress : Progress)
    (numbered : List (Nat × Nat)) : Prop where
  counted : seen.length = progress.citations
  lookup : ∀ origin, numbered.lookup origin =
    if ⟨way, origin⟩ ∈ seen then some (seen.idxOf ⟨way, origin⟩ + 1) else none

section Opening

variable {way : List Nat} {seen : List RangeKey} {progress : Progress}
  {numbered : List (Nat × Nat)}

/-- A citation that comes up for the first time takes the next number. -/
theorem Tracks.next (h : Tracks way seen progress numbered) {origin : Nat}
    (hnew : ⟨way, origin⟩ ∉ seen) :
    Tracks way (seen ++ [⟨way, origin⟩])
      { progress with citations := progress.citations + 1 }
      ((origin, progress.citations + 1) :: numbered) := by
  constructor
  · rw [List.length_append, List.length_singleton, h.counted]
  · intro other
    rw [List.lookup_cons]
    by_cases hother : other = origin
    · subst hother
      rw [if_pos (List.mem_append_right _ (List.mem_singleton_self _)),
        List.idxOf_append_of_notMem hnew, beq_self_eq_true, ← h.counted]
      simp
    · have hne : (⟨way, other⟩ : RangeKey) ≠ ⟨way, origin⟩ := fun heq =>
        hother (RangeKey.mk.inj heq).2
      have hmem : (⟨way, other⟩ : RangeKey) ∈ seen ++ [⟨way, origin⟩] ↔ ⟨way, other⟩ ∈ seen := by
        simp [hother]
      rw [beq_false_of_ne hother, h.lookup]
      by_cases hseen : (⟨way, other⟩ : RangeKey) ∈ seen
      · rw [if_pos hseen, if_pos (hmem.mpr hseen), List.idxOf_append_of_mem hseen]
      · rw [if_neg hseen, if_neg (mt hmem.mp hseen)]

theorem citationKeys_singleton (registry : Registry) (way : List Nat) (range : MarkRange) :
    citationKeys registry way [range] =
      if registry.cites range.mark then [⟨way, range.origin⟩] else [] := by
  unfold citationKeys
  rw [List.filter_singleton]
  cases registry.cites range.mark <;> rfl

theorem Export.runFrom_openFrame_tracks (environment : Environment) (nest : Nest)
    (range : MarkRange) (h : Tracks way seen progress numbered)
    (hciting : progress.registry.Citing) :
    ∃ noteNumber numbered' after,
      (openFrame nest numbered range).runFrom environment progress =
        (.ok ({ nest with
          frames := ⟨progress.registry.containerAt range.mark, range.stop, noteNumber, []⟩
            :: nest.frames }, numbered'), after) ∧
      after.registry = progress.registry ∧
      Tracks way (grow seen (citationKeys progress.registry way [range])) after numbered' ∧
      AllLabelled (grow seen (citationKeys progress.registry way [range]))
        ((progress.registry.containerAt range.mark).cites noteNumber)
        (citationKeys progress.registry way [range]) := by
  have hlookup := h.lookup range.origin
  unfold openFrame
  rw [runFrom_bind_ok (runFrom_containerOf range.mark), citationKeys_singleton]
  by_cases hmem : (⟨way, range.origin⟩ : RangeKey) ∈ seen
  · rw [if_pos hmem] at hlookup
    rw [hlookup]
    refine ⟨_, numbered, progress, rfl, rfl, ?_⟩
    cases hcites : progress.registry.cites range.mark with
    | true =>
        rw [if_pos rfl, grow_of_mem hmem]
        exact ⟨h, allLabelled_of_isCitation (hciting.cites _) hcites hmem rfl⟩
    | false =>
        rw [if_neg nofun, Container.cites_of_not_isCitation hcites]
        exact ⟨h, .nil⟩
  · rw [if_neg hmem] at hlookup
    rw [hlookup]
    dsimp only
    have hcitation : (progress.registry.containerAt range.mark).isCitation =
      progress.registry.cites range.mark := rfl
    rw [hcitation]
    cases hcites : progress.registry.cites range.mark with
    | true =>
        rw [if_pos rfl, if_pos rfl, grow_of_not_mem hmem]
        refine ⟨_, _, _, rfl, rfl, h.next hmem, allLabelled_of_isCitation (hciting.cites _) hcites
          (List.mem_append_right _ (List.mem_singleton_self _)) ?_⟩
        rw [List.idxOf_append_of_notMem hmem, h.counted]
        simp
    | false =>
        rw [if_neg nofun, if_neg nofun]
        refine ⟨0, numbered, progress, rfl, rfl, h, ?_⟩
        rw [Container.cites_of_not_isCitation hcites]
        exact .nil

theorem Nest.cites_open (nest : Nest) (container : Container) (stop noteNumber : Nat) :
    Nest.cites { nest with frames := ⟨container, stop, noteNumber, []⟩ :: nest.frames } =
      nest.cites ++ container.cites noteNumber :=
  List.append_nil _

theorem citationKeys_cons (registry : Registry) (way : List Nat) (range : MarkRange)
    (rest : List MarkRange) : citationKeys registry way (range :: rest) =
      citationKeys registry way [range] ++ citationKeys registry way rest :=
  citationKeys_append registry way [range] rest

/-- The ranges that start at the position are opened and numbered, and those behind it wait. -/
theorem Export.runFrom_openAt_tracks (environment : Environment) (position : Nat) (nest : Nest)
    {pending : List MarkRange} (h : Tracks way seen progress numbered)
    (hciting : progress.registry.Citing) (hkeeps : nest.Keeps)
    (hmarks : ∀ range ∈ pending, (progress.registry.containerAt range.mark).holdsText = false)
    (hsorted : pending.Pairwise fun a b => a.start ≤ b.start)
    (hwaiting : ∀ range ∈ pending, position ≤ range.start) {keys : List RangeKey}
    (hkeys : keys = citationKeys progress.registry way
      (pending.filter fun range => range.start = position)) :
    ∃ assembly after new,
      (openAt position nest numbered pending).runFrom environment progress =
        (.ok assembly, after) ∧
      after.registry = progress.registry ∧
      assembly.pending = (pending.filter fun range => position < range.start) ∧
      assembly.nest.Keeps ∧ assembly.nest.cites = nest.cites ++ new ∧
      Tracks way (grow seen keys) after assembly.numbered ∧
      AllLabelled (grow seen keys) new keys := by
  subst hkeys
  induction pending generalizing nest numbered progress seen with
  | nil =>
      exact ⟨_, progress, [], rfl, rfl, rfl, hkeeps, (List.append_nil _).symm, h, .nil⟩
  | cons range rest ih =>
      obtain ⟨hfirst, hrest⟩ := List.pairwise_cons.mp hsorted
      obtain ⟨hmark, hmarks⟩ := List.forall_mem_cons.mp hmarks
      obtain ⟨hrange, hwaiting⟩ := List.forall_mem_cons.mp hwaiting
      unfold openAt
      by_cases hstart : range.start = position
      · obtain ⟨noteNumber, numbered', between, hopen, hbetween, htracks, hlabelled⟩ :=
          runFrom_openFrame_tracks environment nest range h hciting
        rw [← hbetween] at hciting hmarks
        obtain ⟨assembly, after, new, hrun, hregistry, hpending, hkeeps', hcites, htracks',
          hlabelled'⟩ := ih { nest with frames := ⟨progress.registry.containerAt range.mark,
            range.stop, noteNumber, []⟩ :: nest.frames } htracks hciting
            (List.forall_mem_cons.mpr ⟨hmark, hkeeps⟩) hmarks hrest hwaiting
        rw [hbetween] at hregistry htracks' hlabelled'
        have hopened : ((range :: rest).filter fun range => range.start = position) =
            range :: rest.filter fun range => range.start = position :=
          List.filter_cons_of_pos (by simpa using hstart)
        have hlater : ((range :: rest).filter fun range => position < range.start) =
            rest.filter fun range => position < range.start :=
          List.filter_cons_of_neg (by simp [hstart])
        rw [if_pos hstart, runFrom_bind_ok hopen, hopened, hlater, citationKeys_cons, grow_append]
        refine ⟨assembly, after, _, hrun, hregistry, hpending, hkeeps', ?_, htracks',
          List.rel_append (hlabelled.mono (prefix_grow _ _)) hlabelled'⟩
        rw [hcites, Nest.cites_open, List.append_assoc]
      · have hlater : ∀ later ∈ range :: rest, position < later.start := by
          intro later hl
          rcases List.mem_cons.mp hl with rfl | hl
          · exact Nat.lt_of_le_of_ne hrange (Ne.symm hstart)
          · exact Nat.lt_of_lt_of_le (Nat.lt_of_le_of_ne hrange (Ne.symm hstart)) (hfirst later hl)
        have hnone : ((range :: rest).filter fun range => range.start = position) = [] := by
          refine List.filter_eq_nil_iff.mpr fun later hl => ?_
          have := hlater later hl
          simp only [decide_eq_true_eq]
          omega
        have hall : ((range :: rest).filter fun range => position < range.start) = range :: rest :=
          List.filter_eq_self.mpr fun later hl => decide_eq_true (hlater later hl)
        rw [if_neg hstart, hnone, hall]
        exact ⟨_, progress, [], rfl, rfl, rfl, hkeeps, (List.append_nil _).symm, h, .nil⟩

end Opening

/-! ## Conversions that number -/

/-- Nothing of what was seen was collected at the end of the way or behind it. -/
def Fresh (way : List Nat) (seen : List RangeKey) : Prop := ∀ key ∈ seen, ¬ way <+: key.way

/-- What has been seen before goes on with the pieces of ranges; these label the citations, as many
as were numbered, and are those of all the ranges. -/
structure Numbered (seen : List RangeKey) (after : Progress) (cites : List (List Citation))
    (pieces ranges : List RangeKey) : Prop where
  citing : after.registry.Citing
  counted : (grow seen pieces).length = after.citations
  labelled : AllLabelled (grow seen pieces) cites pieces
  complete : ∀ key, key ∈ pieces ↔ key ∈ ranges

/-- A conversion whose result brings citations, which are numbered by the pieces of ranges. Pieces
and ranges are read off the registry in the end. -/
structure Export.Numbers {α : Type} (environment : Environment) (convert : Export α)
    (fresh : List RangeKey → Prop) (brings : α → List (List Citation) → Prop)
    (pieces ranges : Registry → List RangeKey) : Prop where
  steady : convert.Steady
  numbered : ∀ {before x after}, convert.runFrom environment before = (.ok x, after) →
    before.registry.Citing → ∀ more seen, fresh seen → seen.length = before.citations →
      ∃ cites, brings x cites ∧ Numbered seen after cites
        (pieces (after.registry.register more)) (ranges (after.registry.register more))

/-- What the walk needs of a chunk: a leaf that cites nothing, or a footnote that numbers. -/
def Chunk.Numbers (environment : Environment) (way : List Nat)
    (notes ranges : Registry → Nat → List RangeKey) : Chunk → Prop
  | .leaf inline => inline.cites = []
  | .note index content => content.Numbers environment (Fresh (way ++ [index]))
      (blocksCites · = ·) (notes · index) (ranges · index)

theorem Chunk.Numbers.steady {environment : Environment} {way : List Nat}
    {notes ranges : Registry → Nat → List RangeKey} {chunk : Chunk}
    (h : chunk.Numbers environment way notes ranges) : chunk.Steady := by
  cases chunk with
  | leaf inline => trivial
  | note index content => exact Export.Numbers.steady h

/-- The footnotes of the chunks are those of different children. -/
def NotesDiffer (a b : Chunk) : Prop :=
  ∀ i content j content', a = .note i content → b = .note j content' → i ≠ j

section Walk

variable {environment : Environment} {way : List Nat}
  {notes ranges : Registry → Nat → List RangeKey} {seen keys : List RangeKey}
  {progress after : Progress} {numbered : List (Nat × Nat)}

/-- What comes up in footnotes has no part in the numbers of the row itself. -/
theorem Tracks.grow_below (h : Tracks way seen progress numbered)
    (hbelow : ∀ key ∈ keys, key.way ≠ way) (hcounted : (grow seen keys).length = after.citations) :
    Tracks way (grow seen keys) after numbered := by
  refine ⟨hcounted, fun origin => ?_⟩
  have hmem : (⟨way, origin⟩ : RangeKey) ∈ grow seen keys ↔ ⟨way, origin⟩ ∈ seen := by
    rw [mem_grow]
    exact or_iff_left fun hkey => hbelow _ hkey rfl
  rw [h.lookup]
  by_cases hseen : (⟨way, origin⟩ : RangeKey) ∈ seen
  · rw [if_pos hseen, if_pos (hmem.mpr hseen), idxOf_of_begins (prefix_grow seen keys) hseen]
  · rw [if_neg hseen, if_neg (mt hmem.mp hseen)]

theorem fresh_grow {other : List Nat} (h : Fresh other seen)
    (hkeys : ∀ key ∈ keys, ¬ other <+: key.way) : Fresh other (grow seen keys) := by
  intro key hkey
  rcases mem_grow.mp hkey with hkey | hkey
  · exact h key hkey
  · exact hkeys key hkey

theorem Export.tracks_of_emit {chunk : Chunk} {leaf : Inline}
    (hchunk : chunk.Numbers environment way notes ranges)
    (hrun : (emit chunk).runFrom environment progress = (.ok leaf, after))
    (hciting : progress.registry.Citing) (htracks : Tracks way seen progress numbered)
    (hfresh : ∀ index content, chunk = .note index content → Fresh (way ++ [index]) seen)
    {registry : Registry} {more : List Mark} (hregistry : registry = after.registry.register more)
    (hscope : ∀ index, ∀ key ∈ notes registry index, way ++ [index] <+: key.way)
    (hkeys : keys = chunk.noted (notes registry)) :
    after.registry.Citing ∧ Tracks way (grow seen keys) after numbered ∧
      AllLabelled (grow seen keys) leaf.cites keys ∧
      ∀ index content, chunk = .note index content →
        ∀ key, key ∈ notes registry index ↔ key ∈ ranges registry index := by
  subst hkeys hregistry
  cases chunk with
  | leaf inline =>
      cases hrun
      refine ⟨hciting, htracks, ?_, nofun⟩
      rw [show leaf.cites = [] from hchunk]
      exact .nil
  | note index content =>
      rw [emit] at hrun
      obtain ⟨inner, hinner, rfl⟩ := runFrom_descend_eq_ok hrun
      rw [map_eq_pure_bind] at hinner
      obtain ⟨blocks, between, hcontent, hpure⟩ := runFrom_bind_eq_ok hinner
      cases hpure
      obtain ⟨_, rfl, hcited, hcounted, hlabelled, hcomplete⟩ := Export.Numbers.numbered hchunk
        hcontent hciting more seen (hfresh index content rfl) htracks.counted
      have hbelow : ∀ key ∈ notes (inner.registry.register more) index, key.way ≠ way := by
        intro key hkey heq
        exact not_begins_self way index (heq ▸ hscope index key hkey)
      refine ⟨hcited, htracks.grow_below hbelow hcounted, hlabelled, ?_⟩
      rintro _ _ ⟨⟩
      exact hcomplete

/-- Footnotes that have not been reached are still fresh after a chunk has been. -/
theorem fresh_grow_chunk {registry : Registry} {index : Nat} {own : List MarkRange} {chunk : Chunk}
    {content : Export (List Block)} (h : Fresh (way ++ [index]) seen)
    (hdiffer : NotesDiffer chunk (.note index content))
    (hscope : ∀ index, ∀ key ∈ notes registry index, way ++ [index] <+: key.way) :
    Fresh (way ++ [index])
      (grow (grow seen (citationKeys registry way own)) (chunk.noted (notes registry))) := by
  refine fresh_grow (fresh_grow h ?_) ?_
  · intro key hkey
    obtain ⟨_, -, -, rfl⟩ := mem_citationKeys.mp hkey
    exact not_begins_self way index
  · intro key hkey hbegins
    cases chunk with
    | leaf inline => cases hkey
    | note other noted =>
        exact hdiffer other noted index content rfl rfl
          (eq_of_prefixes (hscope other key hkey) hbegins)

theorem citationKeys_congr {registry registry' : Registry} {l : List MarkRange}
    (h : ∀ range ∈ l, registry.containerAt range.mark = registry'.containerAt range.mark) :
    citationKeys registry way l = citationKeys registry' way l := by
  unfold citationKeys
  congr 1
  refine List.filter_congr fun range hr => ?_
  rw [Registry.cites, Registry.cites, h range hr]

/-- What does not change during the walk over a row: its pieces come in order, their containers hold
inlines and have been registered before, and the pieces in a footnote are below its own way. -/
structure Laid (start : Progress) (registry : Registry) (way : List Nat)
    (notes : Nat → List RangeKey) (pieces : List MarkRange) : Prop where
  sorted : pieces.Pairwise fun a b => a.start ≤ b.start
  plain : ∀ piece ∈ pieces, (registry.containerAt piece.mark).holdsText = false
  same : ∀ progress, start.Leads progress → ∀ piece ∈ pieces,
    progress.registry.containerAt piece.mark = registry.containerAt piece.mark
  scope : ∀ index, ∀ key ∈ notes index, way ++ [index] <+: key.way

/-- The walk has come to a position and has numbered what was opened before it. -/
structure Arrived (way : List Nat) (pieces : List MarkRange) (seen : List RangeKey)
    (position : Nat) (progress : Progress) (assembly : Assembly) : Prop where
  pending : assembly.pending = pieces.filter fun piece => position ≤ piece.start
  keeps : assembly.nest.Keeps
  citing : progress.registry.Citing
  tracks : Tracks way seen progress assembly.numbered

/-- One chunk: the pieces that start at it are numbered, and then those in the footnote that it
may be. -/
theorem Arrived.next {start between emitted : Progress} {registry : Registry}
    {pieces : List MarkRange} {position : Nat} {assembly opened : Assembly} {chunk : Chunk}
    {leaf : Inline} (hlaid : Laid start registry way (notes registry) pieces)
    (hchunk : chunk.Numbers environment way notes ranges)
    (h : Arrived way pieces seen position progress assembly) (hleads : start.Leads progress)
    (hopen : (Export.openAt position (assembly.nest.closeAt position) assembly.numbered
      assembly.pending).runFrom environment progress = (.ok opened, between))
    (hemit : (Export.emit chunk).runFrom environment between = (.ok leaf, emitted))
    {more : List Mark} (hregistry : registry = emitted.registry.register more)
    (hfresh : ∀ index content, chunk = .note index content → Fresh (way ++ [index]) seen)
    (hkeys : keys = citationKeys registry way (pieces.filter fun piece => piece.start = position)
      ++ chunk.noted (notes registry)) :
    Arrived way pieces (grow seen keys) (position + 1) emitted
        { opened with nest := opened.nest.put leaf } ∧
      (∃ new, (opened.nest.put leaf).cites = assembly.nest.cites ++ new ∧
        AllLabelled (grow seen keys) new keys) ∧
      ∀ index content, chunk = .note index content →
        ∀ key, key ∈ notes registry index ↔ key ∈ ranges registry index := by
  subst hkeys
  obtain ⟨hclosed, hkeeps⟩ := Nest.cites_closeAt position h.keeps
  have hwaiting : ∀ range ∈ assembly.pending, range ∈ pieces ∧ position ≤ range.start := by
    intro range hr
    rw [h.pending] at hr
    exact ⟨(List.mem_filter.mp hr).1, of_decide_eq_true (List.mem_filter.mp hr).2⟩
  have hown : citationKeys registry way (pieces.filter fun piece => piece.start = position) =
      citationKeys progress.registry way
        (assembly.pending.filter fun range => range.start = position) := by
    rw [h.pending, List.filter_filter]
    refine (congrArg _ (List.filter_congr fun piece _ => ?_)).trans
      (citationKeys_congr fun piece hp =>
        (hlaid.same progress hleads piece (List.mem_filter.mp hp).1).symm)
    rw [← Bool.decide_and, decide_eq_decide]
    omega
  have hplain : ∀ range ∈ assembly.pending,
      (progress.registry.containerAt range.mark).holdsText = false := by
    intro range hr
    rw [hlaid.same progress hleads range (hwaiting range hr).1]
    exact hlaid.plain range (hwaiting range hr).1
  have hsorted : assembly.pending.Pairwise fun a b => a.start ≤ b.start := by
    rw [h.pending]
    exact hlaid.sorted.filter _
  obtain ⟨_, _, new, hopen', hbetween, hlater, hkeeps, hcites, htracks, hlabelled⟩ :=
    Export.runFrom_openAt_tracks environment position (assembly.nest.closeAt position) h.tracks
      h.citing hkeeps hplain hsorted (fun range hr => (hwaiting range hr).2) hown
  cases hopen.symm.trans hopen'
  -- the pieces that start here are of the row itself, not of a footnote
  have hbelow : ∀ index content, chunk = .note index content → Fresh (way ++ [index])
      (grow seen (citationKeys registry way (pieces.filter fun piece =>
        piece.start = position))) := by
    intro index content heq
    refine fresh_grow (hfresh index content heq) fun key hkey => ?_
    obtain ⟨_, -, -, rfl⟩ := mem_citationKeys.mp hkey
    exact not_begins_self way index
  obtain ⟨hciting, htracks, hemitted, hcomplete⟩ := Export.tracks_of_emit hchunk hemit
    (by rw [hbetween]; exact h.citing) htracks hbelow hregistry hlaid.scope rfl
  have hpending : opened.pending = pieces.filter fun piece => position + 1 ≤ piece.start := by
    rw [hlater, h.pending, List.filter_filter]
    refine List.filter_congr fun piece _ => ?_
    rw [← Bool.decide_and, decide_eq_decide]
    omega
  rw [grow_append]
  refine ⟨⟨hpending, hkeeps.put leaf, hciting, htracks⟩, ⟨new ++ leaf.cites, ?_, ?_⟩, hcomplete⟩
  · rw [Nest.cites_put, hcites, hclosed, List.append_assoc]
  · exact List.rel_append (hlabelled.mono (prefix_grow _ _)) hemitted

/-- The walk numbers the citations of the row and of its footnotes as they come up. -/
theorem Arrived.walk {start : Progress} {registry : Registry} {pieces : List MarkRange}
    (hlaid : Laid start registry way (notes registry) pieces) {chunks : List Chunk}
    (hchunks : ∀ chunk ∈ chunks, chunk.Numbers environment way notes ranges)
    (hdiffer : chunks.Pairwise NotesDiffer) {position : Nat} {assembly final : Assembly}
    (h : Arrived way pieces seen position progress assembly) (hleads : start.Leads progress)
    (hrun : (Export.assembleFrom position assembly chunks).runFrom environment progress =
      (.ok final, after))
    {more : List Mark} (hregistry : registry = after.registry.register more)
    (hfresh : ∀ index content, .note index content ∈ chunks → Fresh (way ++ [index]) seen)
    (hkeys : keys = openedFrom registry way pieces (notes registry) position chunks) :
    Arrived way pieces (grow seen keys) (position + chunks.length) after final ∧
      (∃ new, final.nest.cites = assembly.nest.cites ++ new ∧
        AllLabelled (grow seen keys) new keys) ∧
      ∀ index content, .note index content ∈ chunks →
        ∀ key, key ∈ notes registry index ↔ key ∈ ranges registry index := by
  induction chunks generalizing position assembly progress seen keys with
  | nil =>
      subst hkeys
      cases hrun
      exact ⟨h, ⟨[], (List.append_nil _).symm, .nil⟩, nofun⟩
  | cons chunk rest ih =>
      obtain ⟨hchunk, hrest⟩ := List.forall_mem_cons.mp hchunks
      obtain ⟨hother, hdiffer⟩ := List.pairwise_cons.mp hdiffer
      rw [Export.assembleFrom] at hrun
      obtain ⟨opened, between, hopen, hrun⟩ := Export.runFrom_bind_eq_ok hrun
      obtain ⟨leaf, emitted, hemit, hwalk⟩ := Export.runFrom_bind_eq_ok hrun
      have hemitted := (hleads.trans ((Export.steady_openAt _ _ _ _).leads hopen)).trans
        ((Export.steady_emit hchunk.steady).leads hemit)
      -- the registry in the end also grows from the one behind this chunk
      obtain ⟨late, hlate⟩ :=
        ((Export.steady_assembleFrom (fun chunk hc => (hrest chunk hc).steady) _ _).leads
          hwalk).registered
      have hgrown : registry = emitted.registry.register (late ++ more) := by
        rw [hregistry, hlate, Registry.register_append]
      obtain ⟨harrived, ⟨new, hnew, hlabelled⟩, hfirst⟩ := h.next hlaid hchunk hleads hopen hemit
        hgrown (fun index content heq => hfresh index content (heq ▸ List.mem_cons_self ..)) rfl
      have hfresh' : ∀ index content, .note index content ∈ rest → Fresh (way ++ [index])
          (grow seen (citationKeys registry way (pieces.filter fun piece => piece.start = position)
            ++ chunk.noted (notes registry))) := by
        intro index content hmem
        rw [grow_append]
        exact fresh_grow_chunk (hfresh index content (List.mem_cons_of_mem _ hmem))
          (hother _ hmem) hlaid.scope
      obtain ⟨hfinal, ⟨others, hothers, hlabelled'⟩, hnotes⟩ :=
        ih hrest hdiffer harrived hemitted hwalk hfresh' rfl
      rw [hkeys, openedFrom, grow_append, List.length_cons, Nat.add_comm rest.length,
        ← Nat.add_assoc]
      refine ⟨hfinal, ⟨new ++ others, ?_, ?_⟩, ?_⟩
      · rw [hothers, hnew, List.append_assoc]
      · exact List.rel_append (hlabelled.mono (prefix_grow _ _)) hlabelled'
      · intro index content hmem
        rcases List.mem_cons.mp hmem with heq | hmem
        · exact hfirst index content heq.symm
        · exact hnotes index content hmem

end Walk

/-! ## Whole rows -/

/-- The footnotes of a row come in the order of the children. -/
theorem Export.notesDiffer_of_contributes {settings : Settings} {registry : Registry}
    {nodes : List Node} {index : Nat} {contributions : List Contribution}
    (h : Contributes settings registry (nodes.zipIdx index) contributions) :
    (contributions.flatMap Contribution.chunks).Pairwise NotesDiffer ∧
      ∀ i content, .note i content ∈ contributions.flatMap Contribution.chunks → index ≤ i := by
  induction nodes generalizing index contributions with
  | nil =>
      cases h
      exact ⟨.nil, nofun⟩
  | cons node rest ih =>
      rw [List.zipIdx_cons] at h
      obtain ⟨contribution, others, hnode, hrest, rfl⟩ := List.forall₂_cons_left_iff.mp h
      obtain ⟨hpairwise, hlater⟩ := ih hrest
      rw [List.flatMap_cons]
      refine ⟨List.pairwise_append.mpr ⟨?_, hpairwise, ?_⟩, ?_⟩
      · rcases Node.chunks_of_contribution? hnode with ⟨-, hchunks⟩ | ⟨leaves, hchunks, -⟩
        · rw [hchunks]
          exact List.pairwise_singleton _ _
        · rw [hchunks, List.pairwise_map]
          exact List.pairwise_of_forall nofun
      · rintro a ha b hb i content j content' rfl rfl
        have := (Node.note_of_contribution? hnode ha).2.1
        have := hlater j content' hb
        omega
      · intro i content hmem
        rcases List.mem_append.mp hmem with hmem | hmem
        · exact Nat.le_of_eq (Node.note_of_contribution? hnode hmem).2.1.symm
        · exact Nat.le_of_succ_le (hlater i content hmem)

section Rows

variable {environment : Environment} {nodes : List Node} {way : List Nat}

/-- The pieces in the footnotes of a row, each under the index of its child. -/
def notesOf (environment : Environment) (way : List Nat) (nodes : List Node) (registry : Registry)
    (index : Nat) : List RangeKey :=
  (piecesFrom environment registry way 0 nodes)[index]?.getD []

/-- The ranges in the footnotes of a row, each under the index of its child. -/
def noteRangesOf (environment : Environment) (way : List Nat) (nodes : List Node)
    (registry : Registry) (index : Nat) : List RangeKey :=
  (nodes[index]?.map fun child =>
    rangesOf environment registry (child.rows (way ++ [index]))).getD []

theorem Fresh.below {seen : List RangeKey} (h : Fresh way seen) (index : Nat) :
    Fresh (way ++ [index]) seen :=
  fun key hkey hbegins => h key hkey ((List.prefix_append way [index]).trans hbegins)

theorem tracks_nil {seen : List RangeKey} {progress : Progress} (h : Fresh way seen)
    (hcounted : seen.length = progress.citations) : Tracks way seen progress [] := by
  refine ⟨hcounted, fun origin => ?_⟩
  rw [if_neg fun hmem => h _ hmem (List.prefix_refl way)]
  rfl

/-- What the nodes bring are leaves that cite nothing and footnotes that are numbered. -/
theorem Converted.numbers {registry : Registry} {chunks : List Chunk} {pieces : List MarkRange}
    (h : Converted environment registry nodes chunks pieces)
    (hnotes : ∀ index child, nodes[index]? = some child → child.kind? = some .note →
      (Export.blocksOf child.content).Numbers environment (Fresh (way ++ [index]))
        (blocksCites · = ·)
        (fun registry => child.piecesAt environment registry (way ++ [index]))
        (fun registry => rangesOf environment registry (child.rows (way ++ [index])))) :
    ∀ chunk ∈ chunks, chunk.Numbers environment way (notesOf environment way nodes)
      (noteRangesOf environment way nodes) := by
  intro chunk hmem
  rw [← h.chunks_eq] at hmem
  cases chunk with
  | leaf inline =>
      obtain ⟨contribution, hc, hin⟩ := List.mem_flatMap.mp hmem
      obtain ⟨node, -, hnode⟩ := h.contributes.exists_node hc
      rcases Node.chunks_of_contribution? hnode with ⟨-, hchunks⟩ | ⟨leaves, hchunks, hcites⟩
      · rw [hchunks, List.mem_singleton] at hin
        cases hin
      · rw [hchunks] at hin
        obtain ⟨leaf, hleaf, heq⟩ := List.mem_map.mp hin
        cases heq
        exact hcites _ hleaf
  | note index content =>
      obtain ⟨child, hchild, hnote, rfl⟩ := (Export.note_mem_chunks h.contributes).mp hmem
      have hpieces : (notesOf environment way nodes · index) =
          fun registry => child.piecesAt environment registry (way ++ [index]) := by
        funext registry
        rw [notesOf, getElem?_piecesFrom, hchild, Nat.zero_add]
        rfl
      have hranges : (noteRangesOf environment way nodes · index) =
          fun registry => rangesOf environment registry (child.rows (way ++ [index])) := by
        funext registry
        rw [noteRangesOf, hchild]
        rfl
      rw [Chunk.Numbers, hpieces, hranges]
      exact hnotes index child hchild hnote

/-- The pieces in a row and its footnotes are those of all ranges there. -/
theorem Converted.complete {registry : Registry} {chunks : List Chunk} {pieces : List MarkRange}
    (h : Converted environment registry nodes chunks pieces)
    (hnotes : ∀ index content, .note index content ∈ chunks → ∀ key,
      key ∈ notesOf environment way nodes registry index ↔
        key ∈ noteRangesOf environment way nodes registry index) (key : RangeKey) :
    key ∈ openedFrom registry way pieces (notesOf environment way nodes registry) 0 chunks ↔
      key ∈ rangesOf environment registry ((way, nodes) :: rowsFrom way 0 nodes) := by
  have hnote := @Export.note_mem_chunks _ _ _ _ h.contributes
  rw [h.chunks_eq] at hnote
  have hown : (∃ piece ∈ pieces, 0 ≤ piece.start ∧ piece.start < 0 + chunks.length ∧
      registry.cites piece.mark = true ∧ ⟨way, piece.origin⟩ = key) ↔
        key ∈ citationKeys registry way (rangesIn environment registry nodes) := by
    rw [← h.mem_citationKeys_iff, mem_citationKeys]
    constructor
    · rintro ⟨piece, hp, -, -, hrest⟩
      exact ⟨piece, hp, hrest⟩
    · rintro ⟨piece, hp, hrest⟩
      exact ⟨piece, hp, Nat.zero_le _, by rw [Nat.zero_add]; exact h.start_lt hp, hrest⟩
  have hsplit : key ∈ rangesOf environment registry ((way, nodes) :: rowsFrom way 0 nodes) ↔
      key ∈ citationKeys registry way (rangesIn environment registry nodes) ∨
        key ∈ rangesOf environment registry (rowsFrom way 0 nodes) := by
    rw [rangesOf, List.flatMap_cons, List.mem_append]
    rfl
  rw [mem_openedFrom, hown, hsplit, mem_rangesOf_rowsFrom]
  refine or_congr_right ⟨?_, ?_⟩
  · rintro ⟨index, content, hmem, hkey⟩
    obtain ⟨child, hchild, -, -⟩ := hnote.mp hmem
    rw [hnotes index content hmem, noteRangesOf, hchild] at hkey
    exact ⟨index, child, hchild, by rwa [Nat.zero_add]⟩
  · rintro ⟨index, child, hchild, hkey⟩
    rw [Nat.zero_add] at hkey
    by_cases hkind : child.kind? = some .note
    · have hmem := hnote.mpr ⟨child, hchild, hkind, rfl⟩
      refine ⟨index, _, hmem, (hnotes index _ hmem key).mpr ?_⟩
      rw [noteRangesOf, hchild]
      exact hkey
    · -- any other child that brings something holds no rows
      obtain ⟨contribution, -, hbrings⟩ := h.contributes.exists_contribution
        (@List.mem_zipIdx_iff_getElem? _ (child, index) _ |>.mpr hchild)
      rw [Node.rows_of_contribution? hbrings hkind] at hkey
      cases hkey

/-- The containers of the pieces have been registered by now, hold inlines and stay the same. -/
theorem Converted.containerAt {collected : Progress} {chunks : List Chunk} {pieces : List MarkRange}
    (h : Converted environment collected.registry nodes chunks pieces)
    (hclear : ∀ child ∈ nodes, child.kind? = some .image ∨ child.kind? = some .rawInline →
      ∀ mark ∈ child.marks, mark.isOpaque = false) (hciting : collected.registry.Citing)
    {piece : MarkRange} (hp : piece ∈ pieces) :
    (collected.registry.containerAt piece.mark).holdsText = false ∧
      ∀ progress, collected.Leads progress →
        progress.registry.containerAt piece.mark = collected.registry.containerAt piece.mark := by
  obtain ⟨mark, hindex, hopaque⟩ :=
    Export.exists_mark_of_mem_pieces h.contributes hclear h.nodup h.untangled piece hp
  constructor
  · obtain ⟨made, htype, -, hmade⟩ := hciting.sound.containerAt hindex
    rw [hmade, Container.holdsText_ofMark, htype]
    exact hopaque
  · obtain ⟨entry, hentry, -⟩ := Registry.exists_stands hindex
    exact fun progress hleads => hleads.containerAt hentry

/-- The row with all its footnotes is numbered. -/
theorem Export.numbers_inlinesOf
    (hcites : ∀ child ∈ nodes, ∀ mark ∈ child.marks, mark.CitesIfCitation)
    (hclear : ∀ child ∈ nodes, child.kind? = some .image ∨ child.kind? = some .rawInline →
      ∀ mark ∈ child.marks, mark.isOpaque = false)
    (hnotes : ∀ index child, nodes[index]? = some child → child.kind? = some .note →
      (blocksOf child.content).Numbers environment (Fresh (way ++ [index])) (blocksCites · = ·)
        (fun registry => child.piecesAt environment registry (way ++ [index]))
        (fun registry => rangesOf environment registry (child.rows (way ++ [index])))) :
    (inlinesOf nodes).Numbers environment (Fresh way) (inlinesCites · = ·)
      (fun registry => openedFrom registry way (piecesIn environment registry nodes)
        (notesOf environment way nodes registry) 0
        ((contributionsIn environment registry nodes).flatMap Contribution.chunks))
      (fun registry => rangesOf environment registry ((way, nodes) :: rowsFrom way 0 nodes)) := by
  refine ⟨steady_inlines (Prepared.steady_ofNodes nodes), ?_⟩
  intro before written after hrun hciting more seen hfresh hcounted
  obtain ⟨chunks, ranges, pieces, collected, hcollect, hassemble, hconverted⟩ :=
    converted_of_inlinesOf hrun
  have hregisters := registers_collectOf hcites environment before
  rw [hcollect] at hregisters
  obtain ⟨⟨marks, hmarks, hregistry⟩, hcitations⟩ := hregisters
  have hciting : collected.registry.Citing := by
    rw [hregistry]
    exact hciting.register hmarks
  obtain ⟨final, walked, hwalk, hclose⟩ := runFrom_bind_eq_ok hassemble
  cases hclose
  have hnow : Converted environment collected.registry nodes chunks pieces := hconverted []
  have hchunks := hnow.numbers hnotes
  obtain ⟨late, hlate⟩ :=
    ((steady_assembleFrom (fun chunk hc => (hchunks chunk hc).steady) _ _).leads hwalk).registered
  have hgrown : after.registry.register more = collected.registry.register (late ++ more) := by
    rw [hlate, Registry.register_append]
  have hthen := hconverted (late ++ more)
  rw [← hgrown] at hthen
  have hsame : ∀ piece ∈ pieces, (after.registry.register more).containerAt piece.mark =
      collected.registry.containerAt piece.mark := by
    intro piece hp
    rw [hgrown]
    exact (hnow.containerAt hclear hciting hp).2
      { collected with registry := collected.registry.register (late ++ more) }
      ⟨⟨late ++ more, rfl⟩, Nat.le_refl _, rfl⟩
  have hlaid : Laid collected (after.registry.register more) way
      (notesOf environment way nodes (after.registry.register more)) pieces := by
    refine ⟨(pairwise_untangle hnow.untangled).imp OpensBefore.start_le, fun piece hp => ?_,
      fun progress hleads piece hp => ?_, fun index key hkey => ?_⟩
    · rw [hsame piece hp]
      exact (hnow.containerAt hclear hciting hp).1
    · rw [hsame piece hp]
      exact (hnow.containerAt hclear hciting hp).2 progress hleads
    · rw [← Nat.zero_add index]
      exact prefix_of_mem_piecesFrom way 0 nodes index key hkey
  have hstart : Arrived way pieces seen 0 collected { pending := pieces } :=
    ⟨(List.filter_eq_self.mpr fun _ _ => by simp).symm, nofun, hciting,
      tracks_nil hfresh (hcounted.trans hcitations.symm)⟩
  have hdiffer : chunks.Pairwise NotesDiffer := by
    rw [← hnow.chunks_eq]
    exact (notesDiffer_of_contributes hnow.contributes).1
  obtain ⟨hend, ⟨new, hnew, hlabelled⟩, hcomplete⟩ := hstart.walk hlaid hchunks hdiffer
    (.refl collected) hwalk rfl (fun index _ _ => hfresh.below index) rfl
  rw [hthen.piecesIn_eq, hthen.chunks_eq]
  refine ⟨_, rfl, hend.citing, hend.tracks.counted, ?_, hthen.complete hcomplete⟩
  rw [Nest.cites_close hend.keeps, hnew]
  exact hlabelled

end Rows

end RichDoc
