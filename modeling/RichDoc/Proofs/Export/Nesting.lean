import RichDoc.Export.Assemble

/-!
# Containers as a tree

The frames of a nest remember a container and where it ends, and an inline
does not even tell a container from a leaf. To say which ranges a leaf
stands under, the tree is written down with that in it (`Nesting`), and so
are the frames (`Growth`): every container comes with the range it was
opened for. A growth lists its leaves with the containers around them, and
its containers in the order in which they were opened. Putting a leaf or
opening a container adds one entry to a list, and closing containers
changes neither of them.
-/

namespace RichDoc

open Pandoc (Inline)

/-- The inlines directly in an inline. -/
def Pandoc.Inline.content : Inline → List Inline
  | .emph content | .underline content | .strong content | .strikeout content
  | .superscript content | .subscript content | .smallCaps content | .quoted _ content
  | .cite _ content | .link _ content _ | .span _ content => content
  | _ => []

/-- Only the text of what is put into the container is kept. -/
def Container.holdsText : Container → Bool
  | .code _ | .math _ => true
  | _ => false

theorem Container.content_wrap {container : Container} (h : container.holdsText = false)
    (content : List Inline) (noteNumber : Int) :
    (container.wrap content noteNumber).content = content := by
  cases container with
  | code attr => cases h
  | math type => cases h
  | _ => rfl

/-- A container that was opened for a range. -/
structure Opening where
  range : MarkRange
  container : Container
  noteNumber : Nat

/-- A leaf, or a container with what is in it. -/
inductive Nesting where
  | leaf (inline : Inline)
  | container (opening : Opening) (content : List Nesting)

mutual

/-- The inline that is left of a nesting. -/
def Nesting.inline : Nesting → Inline
  | .leaf inline => inline
  | .container opening content => opening.container.wrap (inlinesIn content) opening.noteNumber

def inlinesIn : List Nesting → List Inline
  | [] => []
  | nesting :: rest => nesting.inline :: inlinesIn rest

end

mutual

/-- The leaves from left to right, each with the containers around it, outermost first. -/
def Nesting.leaves (outer : List Opening) : Nesting → List (Inline × List Opening)
  | .leaf inline => [(inline, outer)]
  | .container opening content => leavesIn (outer ++ [opening]) content

def leavesIn (outer : List Opening) : List Nesting → List (Inline × List Opening)
  | [] => []
  | nesting :: rest => nesting.leaves outer ++ leavesIn outer rest

end

mutual

/-- The containers, each before those in it. -/
def Nesting.openings : Nesting → List Opening
  | .leaf _ => []
  | .container opening content => opening :: openingsIn content

def openingsIn : List Nesting → List Opening
  | [] => []
  | nesting :: rest => nesting.openings ++ openingsIn rest

end

mutual

/-- There is something in every container. -/
def Nesting.Full : Nesting → Prop
  | .leaf _ => True
  | .container _ content => content ≠ [] ∧ FullIn content

def FullIn : List Nesting → Prop
  | [] => True
  | nesting :: rest => nesting.Full ∧ FullIn rest

end

theorem fullIn_iff {forest : List Nesting} : FullIn forest ↔ ∀ nesting ∈ forest, nesting.Full := by
  induction forest with
  | nil => exact iff_of_true trivial nofun
  | cons nesting rest ih => rw [FullIn, ih, List.forall_mem_cons]

theorem inlinesIn_eq_map (forest : List Nesting) :
    inlinesIn forest = forest.map Nesting.inline := by
  induction forest with
  | nil => rw [inlinesIn, List.map_nil]
  | cons nesting rest ih => rw [inlinesIn, ih, List.map_cons]

theorem leavesIn_append (outer : List Opening) (forest more : List Nesting) :
    leavesIn outer (forest ++ more) = leavesIn outer forest ++ leavesIn outer more := by
  induction forest with
  | nil => rfl
  | cons nesting rest ih => rw [List.cons_append, leavesIn, leavesIn, ih, List.append_assoc]

theorem openingsIn_append (forest more : List Nesting) :
    openingsIn (forest ++ more) = openingsIn forest ++ openingsIn more := by
  induction forest with
  | nil => rfl
  | cons nesting rest ih => rw [List.cons_append, openingsIn, openingsIn, ih, List.append_assoc]

@[simp] theorem leavesIn_singleton (outer : List Opening) (nesting : Nesting) :
    leavesIn outer [nesting] = nesting.leaves outer := by
  rw [leavesIn, leavesIn, List.append_nil]

@[simp] theorem openingsIn_singleton (nesting : Nesting) :
    openingsIn [nesting] = nesting.openings := by
  rw [openingsIn, openingsIn, List.append_nil]

/-! ## Frames with their ranges -/

/-- An open container with what has been put into it, the last first. -/
structure Branch where
  opening : Opening
  content : List Nesting := []

namespace Branch

def frame (branch : Branch) : Frame where
  container := branch.opening.container
  stop := branch.opening.range.stop
  noteNumber := branch.opening.noteNumber
  content := branch.content.map Nesting.inline

/-- What the branch is when its container is closed. -/
def nesting (branch : Branch) : Nesting := .container branch.opening branch.content.reverse

theorem inline_nesting (branch : Branch) : branch.nesting.inline = branch.frame.inline := by
  rw [nesting, Nesting.inline, inlinesIn_eq_map, List.map_reverse]
  rfl

end Branch

/-- The frame of a container that was just opened. -/
def Opening.frame (opening : Opening) : Frame := Branch.frame ⟨opening, []⟩

/-- A nest with the ranges of its containers. -/
structure Growth where
  branches : List Branch := []
  done : List Nesting := []

namespace Growth

def nest (growth : Growth) : Nest :=
  ⟨growth.branches.map Branch.frame, growth.done.map Nesting.inline⟩

/-- The open containers, innermost first. -/
def stack (growth : Growth) : List Opening := growth.branches.map Branch.opening

def put (nesting : Nesting) : Growth → Growth
  | ⟨[], done⟩ => ⟨[], nesting :: done⟩
  | ⟨branch :: outer, done⟩ => ⟨⟨branch.opening, nesting :: branch.content⟩ :: outer, done⟩

/-- Opens containers, the innermost last. -/
def start (openings : List Opening) (growth : Growth) : Growth :=
  { growth with branches := (openings.map fun opening => ⟨opening, []⟩).reverse ++ growth.branches }

/-- There is something in every container that was closed. -/
structure Full (growth : Growth) : Prop where
  done : ∀ nesting ∈ growth.done, nesting.Full
  content : ∀ branch ∈ growth.branches, ∀ nesting ∈ branch.content, nesting.Full

/-- There is something in the innermost container. -/
def Filled (growth : Growth) : Prop := ∀ branch ∈ growth.branches.head?, branch.content ≠ []

def leavesFrom (done : List Nesting) : List Branch → List (Inline × List Opening)
  | [] => leavesIn [] done.reverse
  | branch :: outer =>
    leavesFrom done outer ++
      leavesIn ((branch :: outer).map Branch.opening).reverse branch.content.reverse

/-- All leaves so far, each with the containers around it, outermost first. -/
def leaves (growth : Growth) : List (Inline × List Opening) :=
  leavesFrom growth.done growth.branches

def openingsFrom (done : List Nesting) : List Branch → List Opening
  | [] => openingsIn done.reverse
  | branch :: outer =>
    openingsFrom done outer ++ branch.opening :: openingsIn branch.content.reverse

/-- All containers so far, in the order in which they were opened. -/
def openings (growth : Growth) : List Opening := openingsFrom growth.done growth.branches

variable {growth : Growth}

/-! ### Putting a leaf -/

theorem nest_put (nesting : Nesting) (growth : Growth) :
    (growth.put nesting).nest = growth.nest.put nesting.inline := by
  rcases growth with ⟨_ | ⟨branch, outer⟩, done⟩ <;> rfl

theorem stack_put (nesting : Nesting) (growth : Growth) :
    (growth.put nesting).stack = growth.stack := by
  rcases growth with ⟨_ | ⟨branch, outer⟩, done⟩ <;> rfl

theorem leaves_put (nesting : Nesting) (growth : Growth) :
    (growth.put nesting).leaves = growth.leaves ++ nesting.leaves growth.stack.reverse := by
  rcases growth with ⟨_ | ⟨branch, outer⟩, done⟩
  · simp [put, leaves, leavesFrom, leavesIn_append, stack]
  · simp [put, leaves, leavesFrom, leavesIn_append, stack]

theorem openings_put (nesting : Nesting) (growth : Growth) :
    (growth.put nesting).openings = growth.openings ++ nesting.openings := by
  rcases growth with ⟨_ | ⟨branch, outer⟩, done⟩
  · simp [put, openings, openingsFrom, openingsIn_append]
  · simp [put, openings, openingsFrom, openingsIn_append]

theorem Full.put {nesting : Nesting} (h : growth.Full) (hnesting : nesting.Full) :
    (growth.put nesting).Full := by
  obtain ⟨_ | ⟨branch, outer⟩, done⟩ := growth
  · exact ⟨List.forall_mem_cons.mpr ⟨hnesting, h.done⟩, h.content⟩
  · obtain ⟨hbranch, houter⟩ := List.forall_mem_cons.mp h.content
    exact ⟨h.done, List.forall_mem_cons.mpr ⟨List.forall_mem_cons.mpr ⟨hnesting, hbranch⟩, houter⟩⟩

theorem filled_put (nesting : Nesting) (growth : Growth) : (growth.put nesting).Filled := by
  rcases growth with ⟨_ | ⟨branch, outer⟩, done⟩
  · exact nofun
  · rintro _ ⟨⟩
    exact List.cons_ne_nil _ _

/-! ### Opening containers -/

theorem nest_start (openings : List Opening) (growth : Growth) :
    (growth.start openings).nest =
      { growth.nest with
        frames := (openings.map Opening.frame).reverse ++ growth.nest.frames } := by
  simp [start, nest, Opening.frame, Function.comp_def]

theorem stack_start (openings : List Opening) (growth : Growth) :
    (growth.start openings).stack = openings.reverse ++ growth.stack := by
  simp [start, stack, Function.comp_def]

theorem start_cons (opening : Opening) (rest : List Opening) (growth : Growth) :
    growth.start (opening :: rest) = (growth.start [opening]).start rest := by
  simp [start]

theorem leaves_start (openings : List Opening) (growth : Growth) :
    (growth.start openings).leaves = growth.leaves := by
  induction openings generalizing growth with
  | nil => rfl
  | cons opening rest ih =>
      rw [start_cons, ih]
      exact List.append_nil _

theorem openings_start (openings : List Opening) (growth : Growth) :
    (growth.start openings).openings = growth.openings ++ openings := by
  induction openings generalizing growth with
  | nil => exact (List.append_nil _).symm
  | cons opening rest ih =>
      rw [start_cons, ih]
      exact List.append_assoc growth.openings [opening] rest

theorem Full.start (h : growth.Full) (openings : List Opening) : (growth.start openings).Full := by
  refine ⟨h.done, List.forall_mem_append.mpr ⟨fun branch hbranch => ?_, h.content⟩⟩
  obtain ⟨opening, -, rfl⟩ := List.mem_map.mp (List.mem_reverse.mp hbranch)
  exact nofun

/-! ### Closing containers -/

/-- A container that has been closed is put into the next one before that is looked at. -/
theorem closeFrames_some (ended : Frame → Bool) (inline : Inline) (frames : List Frame)
    (done : List Inline) :
    Nest.closeFrames ended done (some inline) frames =
      Nest.closeFrames ended (Nest.put inline ⟨frames, done⟩).done none
        (Nest.put inline ⟨frames, done⟩).frames := by
  cases frames <;> rfl

/-- Containers were closed from the innermost one outwards, as long as they had ended. -/
structure ClosedBy (ended : Nat → Bool) (growth closed : Growth) : Prop where
  nest : closed.nest = Nest.closeFrames (fun frame => ended frame.stop) growth.nest.done none
    growth.nest.frames
  leaves : closed.leaves = growth.leaves
  openings : closed.openings = growth.openings
  stack : closed.stack = growth.stack.dropWhile fun opening => ended opening.range.stop
  full : growth.Full → growth.Filled → closed.Full ∧ closed.Filled

theorem full_nesting {branch : Branch} {outer : List Branch} {done : List Nesting}
    (h : Full ⟨branch :: outer, done⟩) (hfilled : Filled ⟨branch :: outer, done⟩) :
    branch.nesting.Full := by
  refine ⟨?_, fullIn_iff.mpr fun nesting hmem => ?_⟩
  · exact List.reverse_ne_nil_iff.mpr (hfilled branch rfl)
  · exact h.content branch List.mem_cons_self nesting (List.mem_reverse.mp hmem)

/-- Closing containers moves no leaf and no container, and no empty one is closed. -/
theorem exists_closedBy (ended : Nat → Bool) (growth : Growth) :
    ∃ closed, growth.ClosedBy ended closed := by
  -- closing the innermost container changes the next one, so this is no induction on the list
  induction hn : growth.branches.length generalizing growth with
  | zero =>
      obtain ⟨branches, done⟩ := growth
      obtain rfl : branches = [] := List.length_eq_zero_iff.mp hn
      exact ⟨⟨[], done⟩, rfl, rfl, rfl, rfl, And.intro⟩
  | succ n ih =>
      obtain ⟨_ | ⟨branch, outer⟩, done⟩ := growth
      · cases hn
      have hclose : Nest.closeFrames (fun frame => ended frame.stop) (done.map Nesting.inline) none
          ((branch :: outer).map Branch.frame) =
          if ended branch.opening.range.stop then
            Nest.closeFrames (fun frame => ended frame.stop) (done.map Nesting.inline)
              (some branch.nesting.inline) (outer.map Branch.frame)
          else nest ⟨branch :: outer, done⟩ := by
        rw [branch.inline_nesting]
        rfl
      by_cases hended : ended branch.opening.range.stop = true
      · have hlength : (put branch.nesting ⟨outer, done⟩).branches.length = n := by
          have hstack := congrArg List.length (stack_put branch.nesting ⟨outer, done⟩)
          simp only [stack, List.length_map] at hstack
          rw [hstack]
          exact Nat.succ.inj hn
        obtain ⟨closed, hnest, hleaves, hopenings, hstack, hfull⟩ := ih _ hlength
        refine ⟨closed, ?_, ?_, ?_, ?_, fun hg hfilled => ?_⟩
        · show _ = Nest.closeFrames _ (done.map Nesting.inline) none
            ((branch :: outer).map Branch.frame)
          rw [hclose, if_pos hended, closeFrames_some, hnest, nest_put]
          rfl
        · rw [hleaves, leaves_put]
          simp [leaves, leavesFrom, stack, Branch.nesting, Nesting.leaves]
        · rw [hopenings, openings_put]
          simp [openings, openingsFrom, Branch.nesting, Nesting.openings]
        · rw [hstack, stack_put]
          simp [stack, hended]
        · have houter : Full ⟨outer, done⟩ := ⟨hg.done, (List.forall_mem_cons.mp hg.content).2⟩
          exact hfull (houter.put (full_nesting hg hfilled)) (filled_put _ _)
      · refine ⟨⟨branch :: outer, done⟩, ?_, rfl, rfl, ?_, And.intro⟩
        · show _ = Nest.closeFrames _ (done.map Nesting.inline) none
            ((branch :: outer).map Branch.frame)
          rw [hclose, if_neg hended]
        · simp [stack, hended]

end Growth

end RichDoc
