import Mathlib
import RichDoc.Proofs.Export.AnyPath
import RichDoc.Proofs.Export.Collection
import RichDoc.Proofs.Pandoc.Words

/-!
# Texts that are split

Editors split texts all the time, at the cursor or where a mark was put and
taken away again. Two texts next to each other with the same marks are
converted as the one text that they were, if no word and no run of breaks
is torn (`Node.SplitsInto`).

The second text finds its marks registered by the first one, the ranges that
the first one opened or carried on are carried on once more, and an empty
half leaves no chunk. What is left is that the children behind the text
have moved on by one. Only footnotes remember the place of their child
(`Chunk.moved`), and only in order to put it on the path.
-/

namespace RichDoc

open Pandoc (Inline MeetsBreak)

/-! ## Ranges over split runs -/

section Runs

variable {left right : List Chunk} {mark : Nat} {marks : List Nat} {start middle stop : Nat}
  {runs : List Run}

theorem runsFrom_append (front rest : List Contribution) :
    runsFrom start runs (front ++ rest) =
      runsFrom (start + (front.flatMap Contribution.chunks).length)
        (runsFrom start runs front) rest := by
  induction front generalizing start runs with
  | nil => rfl
  | cons contribution front ih =>
      rw [List.flatMap_cons, List.length_append, ← Nat.add_assoc, List.cons_append]
      cases contribution with
      | breakpoint chunk => exact ih
      | run chunks marks => exact ih

theorem follow_twice (run : Run) :
    (run.follow marks middle).follow marks stop = run.follow marks stop := by
  rcases run with ⟨range, closed | opened⟩
  · rfl
  · by_cases hin : range.mark ∈ marks
    · simp [Run.follow, hin]
    · simp [Run.follow, hin]

/-- After chunks with certain marks there is an open run for each of them. -/
theorem exists_open_follow (h : mark ∈ marks) :
    ∃ run ∈ follow marks start stop runs, run.isOpen = true ∧ run.range.mark = mark := by
  by_cases hfresh : mark ∈ freshMarks marks runs
  · rw [← List.zipIdx_map_fst runs.length (freshMarks marks runs)] at hfresh
    obtain ⟨⟨_, origin⟩, hmem, rfl⟩ := List.mem_map.mp hfresh
    exact ⟨_, List.mem_append_right _ (List.mem_map_of_mem hmem), rfl, rfl⟩
  · have hany : (runs.any fun run => run.isOpen && run.range.mark == mark) = true := by
      simpa [freshMarks, h] using hfresh
    obtain ⟨run, hrun, hopen⟩ := List.any_eq_true.mp hany
    simp only [Bool.and_eq_true, beq_iff_eq] at hopen
    obtain ⟨hopen, rfl⟩ := hopen
    refine ⟨_, List.mem_append_left _ (List.mem_map_of_mem hrun), ?_, mark_follow run⟩
    rw [isOpen_follow, hopen, decide_eq_true h]
    rfl

theorem freshMarks_follow : freshMarks marks (follow marks start stop runs) = [] := by
  refine List.filter_eq_nil_iff.mpr fun mark hmark hfresh => ?_
  obtain ⟨run, hrun, hopen, rfl⟩ := @exists_open_follow mark marks start stop runs hmark
  have hclosed := isOpen_of_mem_freshMarks (List.mem_filter.mpr ⟨hmark, hfresh⟩) hrun rfl
  rw [hopen] at hclosed
  cases hclosed

/-- Chunks that follow in two parts leave the runs as they do in one. -/
theorem follow_follow :
    follow marks middle stop (follow marks start middle runs) = follow marks start stop runs := by
  have hfresh : (marks.filter fun mark => !(follow marks start middle runs).any fun run =>
      run.isOpen && run.range.mark == mark) = [] := freshMarks_follow
  rw [follow, hfresh, follow, follow, List.zipIdx_nil, List.map_nil, List.append_nil,
    List.map_append, List.map_map, List.map_map]
  have hold : (Run.follow marks stop ∘ Run.follow marks middle) = Run.follow marks stop :=
    funext follow_twice
  rw [hold]
  congr 1
  refine List.map_congr_left fun entry hmem => ?_
  have hin : entry.1 ∈ marks := (List.mem_filter.mp (List.fst_mem_of_mem_zipIdx hmem)).1
  simp [Run.follow, hin]

/-- A run of chunks may be collected in two parts. -/
theorem runsFrom_split (rest : List Contribution) :
    runsFrom start runs (.run left marks :: .run right marks :: rest) =
      runsFrom start runs (.run (left ++ right) marks :: rest) := by
  rw [runsFrom, runsFrom, runsFrom, List.length_append, ← Nat.add_assoc]
  cases left with
  | nil => rfl
  | cons chunk left =>
      cases right with
      | nil => rw [List.append_nil]; rfl
      | cons chunk' right => exact congrArg (runsFrom _ · rest) follow_follow

end Runs

/-! ## What a text brings -/

/-- The progress after some marks were looked up. -/
def Progress.register (progress : Progress) (marks : List Mark) : Progress :=
  { progress with registry := progress.registry.register marks }

theorem Progress.register_register (progress : Progress) (marks : List Mark) :
    (progress.register marks).register marks = progress.register marks :=
  congrArg ({ progress with registry := · }) (Registry.register_register _ marks)

namespace Export

variable {environment : Environment} {progress : Progress} {node : Node} {marks : List Mark}

theorem runFrom_indexOf (mark : Mark) :
    (indexOf mark).runFrom environment progress =
      (.ok (progress.registry.indexOf mark).1, progress.register [mark]) := rfl

theorem runFrom_mapM_indexOf (marks : List Mark) :
    (marks.mapM indexOf).runFrom environment progress =
      (.ok (marks.filterMap (progress.register marks).registry.index?),
        progress.register marks) := by
  induction marks generalizing progress with
  | nil => rfl
  | cons mark rest ih =>
      have hself : (progress.register (mark :: rest)).registry.index? mark =
          some (progress.registry.indexOf mark).1 :=
        Registry.index?_register (Registry.index?_indexOf_self _ mark) rest
      rw [List.mapM_cons, runFrom_bind_ok (runFrom_indexOf mark), runFrom_bind_ok ih,
        List.filterMap_cons_some hself]
      rfl

theorem runFrom_markIndexes (node : Node) :
    (markIndexes node.marks).runFrom environment progress =
      (.ok (node.markIndexes (progress.register node.marks).registry),
        progress.register node.marks) := by
  rw [markIndexes, runFrom_bind_ok (runFrom_mapM_indexOf node.marks)]
  rfl

/-- Where no mark is code or math, all of them are registered in the search for one. -/
theorem runFrom_opaqueLeaf? {text : String} (h : ∀ mark ∈ marks,
      (Container.ofMark (.ofName mark.type) mark).leaf? text = none) :
    (opaqueLeaf? text marks).runFrom environment progress =
      (.ok none, progress.register marks) := by
  induction marks generalizing progress with
  | nil => rfl
  | cons mark rest ih =>
      obtain ⟨hmark, hrest⟩ := List.forall_mem_cons.mp h
      rw [opaqueLeaf?, runFrom_bind_ok (runFrom_indexOf mark), hmark]
      exact ih hrest

/-- A text without code and math marks brings its words under its marks. -/
theorem runFrom_contribute_text (known : node.kind? = some .text)
    (hclear : ∀ mark ∈ node.marks, mark.isOpaque = false) (index : Nat) :
    (contribute index (Prepared.ofNode node)).runFrom environment progress =
      (.ok (.run ((Inline.ofText (node.text.getD "")).map .leaf)
          (node.markIndexes (progress.register node.marks).registry)),
        progress.register node.marks) := by
  have hleaf := List.findSome?_eq_none_iff.mp (Node.opaqueLeaf?_eq_none_iff.mpr hclear)
  rw [contribute, Prepared.node_ofNode, runFrom_bind_ok (runFrom_kindOf known)]
  dsimp only
  rw [runFrom_bind_ok (runFrom_opaqueLeaf? hleaf)]
  dsimp only
  rw [runFrom_bind_ok (runFrom_markIndexes node), Progress.register_register]
  rfl

end Export

/-! ## Children that have moved on -/

/-- The chunk when its child stands one place further on. -/
def Chunk.moved : Chunk → Chunk
  | .leaf inline => .leaf inline
  | .note index content => .note (index + 1) content

namespace Contribution

/-- What the child brings when it stands one place further on. -/
def moved : Contribution → Contribution
  | .breakpoint chunk => .breakpoint chunk.moved
  | .run chunks marks => .run (chunks.map Chunk.moved) marks

theorem chunks_moved (contribution : Contribution) :
    contribution.moved.chunks = contribution.chunks.map Chunk.moved := by
  cases contribution with
  | breakpoint chunk => rfl
  | run chunks marks => rfl

theorem flatMap_chunks_moved (contributions : List Contribution) :
    (contributions.map moved).flatMap chunks = (contributions.flatMap chunks).map Chunk.moved := by
  rw [List.flatMap_map, List.map_flatMap]
  exact List.flatMap_congr fun contribution _ => contribution.chunks_moved

end Contribution

section

variable {start : Nat} {runs : List Run}

theorem runsFrom_moved (contributions : List Contribution) :
    runsFrom start runs (contributions.map Contribution.moved) =
      runsFrom start runs contributions := by
  induction contributions generalizing start runs with
  | nil => rfl
  | cons contribution rest ih =>
      rw [List.map_cons]
      cases contribution with
      | breakpoint chunk => exact ih
      | run chunks marks =>
          rw [Contribution.moved, runsFrom, runsFrom, List.length_map, List.isEmpty_map]
          exact ih

end

/-- The ranges are the same when a run comes in two parts and the children behind it move on. -/
theorem collectRanges_split (front back : List Contribution) (left right : List Chunk)
    (marks : List Nat) :
    collectRanges (front ++ .run left marks :: .run right marks :: back.map Contribution.moved) =
      collectRanges (front ++ .run (left ++ right) marks :: back) := by
  rw [collectRanges, collectRanges, runsFrom_append, runsFrom_append, runsFrom_split, runsFrom,
    runsFrom, runsFrom_moved]

namespace Export

variable {chunk : Chunk}

theorem markedLeaf_moved (leaf : Inline) (marks : List Mark) :
    Contribution.moved <$> markedLeaf leaf marks = markedLeaf leaf marks := by
  rw [markedLeaf, map_bind]
  rfl

/-- A child brings the same one place further on, but for the place of a footnote. -/
theorem contribute_moved (index : Nat) (child : Prepared) :
    contribute (index + 1) child = Contribution.moved <$> contribute index child := by
  unfold contribute
  rw [map_bind]
  refine bind_congr fun kind => ?_
  cases kind
  case text =>
    have hleaves (inlines : List Inline) :
        (inlines.map Chunk.leaf).map Chunk.moved = inlines.map Chunk.leaf := List.map_map
    dsimp only
    rw [map_bind]
    refine bind_congr fun leaf => ?_
    cases leaf with
    | some leaf => rfl
    | none => simp only [map_bind, map_pure, Contribution.moved, hleaves]
  case image => exact (markedLeaf_moved _ _).symm
  case rawInline => exact (markedLeaf_moved _ _).symm
  all_goals rfl

/-- Children bring the same one place further on, but for the places of footnotes. -/
theorem agrees_moved (index : Nat) (children : List Prepared) :
    (List.map Contribution.moved <$> eachChildFrom contribute index children).Agrees
      (eachChildFrom contribute (index + 1) children) := by
  induction children generalizing index with
  | nil => exact .refl _
  | cons child rest ih =>
      -- first the same conversion under the new path, then the one for the new index
      have hfirst := (agrees_descend (closed_ignoresPath.contribute index child) index (index + 1)
        child.node.type).map Contribution.moved
      rw [map_descend _ (index + 1), ← contribute_moved] at hfirst
      have hboth := hfirst.bind fun contribution =>
        (ih (index + 1)).bind fun others => Agrees.refl (pure (contribution :: others))
      simp only [bind_map_left] at hboth
      simp only [eachChildFrom, map_bind, map_pure, List.map_cons]
      exact hboth

theorem emitsAs_moved (h : chunk.Each fun _ => IgnoresPath) : EmitsAs chunk chunk.moved := by
  cases chunk with
  | leaf inline => exact .refl _
  | note index content => exact agrees_descend (closed_ignoresPath.map _ h) _ _ _

/-- Some chunks stay as they are, and those behind them move. -/
theorem forall₂_emitsAs_moved (front : List Chunk) {chunks : List Chunk}
    (h : ∀ chunk ∈ chunks, chunk.Each fun _ => IgnoresPath) :
    List.Forall₂ EmitsAs (front ++ chunks) (front ++ chunks.map Chunk.moved) := by
  have hfront : List.Forall₂ EmitsAs front front := List.forall₂_same.mpr fun _ _ => .refl _
  refine List.rel_append hfront (List.forall₂_map_right_iff.mpr (List.forall₂_same.mpr ?_))
  exact fun chunk hc => emitsAs_moved (h chunk hc)

end Export

/-! ## Nodes with a text that is split -/

/-- The text is split in two, at one of its ends or where a word and breaks meet. -/
structure Node.SplitsInto (node first second : Node) : Prop where
  kind : node.kind? = some .text
  first_kind : first.kind? = some .text
  second_kind : second.kind? = some .text
  first_marks : first.marks = node.marks
  second_marks : second.marks = node.marks
  text : first.text.getD "" ++ second.text.getD "" = node.text.getD ""
  meets : MeetsBreak (first.text.getD "") (second.text.getD "")

namespace Export

variable {α : Type} {environment : Environment} {node first second : Node}

/-- What a text with the marks of a node brings when it is converted as a child. -/
theorem runFrom_descend_text {text : Node} (known : text.kind? = some .text)
    (hmarks : text.marks = node.marks) (hclear : ∀ mark ∈ node.marks, mark.isOpaque = false)
    (progress : Progress) (index : Nat) :
    (descend index (Prepared.ofNode text).node.type
        (contribute index (Prepared.ofNode text))).runFrom environment progress =
      (.ok (.run ((Inline.ofText (text.text.getD "")).map .leaf)
          (node.markIndexes (progress.register node.marks).registry)),
        progress.register node.marks) := by
  rw [← hmarks] at hclear
  rw [runFrom_descend_ok (runFrom_contribute_text known hclear index), Node.markIndexes,
    Node.markIndexes, hmarks]
  rfl

/-- A text is converted to the contributions of its halves, and whatever comes behind goes on from
the same progress. -/
theorem agrees_split {next : Contribution → Export α}
    {next' : Contribution → Contribution → Export α}
    (hsplit : node.SplitsInto first second) (hclear : ∀ mark ∈ node.marks, mark.isOpaque = false)
    (index : Nat)
    (h : ∀ marks, (next (.run ((Inline.ofText (node.text.getD "")).map .leaf) marks)).Agrees
      (next' (.run ((Inline.ofText (first.text.getD "")).map .leaf) marks)
        (.run ((Inline.ofText (second.text.getD "")).map .leaf) marks))) :
    (do next (← descend index (Prepared.ofNode node).node.type
          (contribute index (Prepared.ofNode node)))).Agrees
      (do
        let left ← descend index (Prepared.ofNode first).node.type
          (contribute index (Prepared.ofNode first))
        let right ← descend (index + 1) (Prepared.ofNode second).node.type
          (contribute (index + 1) (Prepared.ofNode second))
        next' left right) := by
  intro environment progress x after
  -- the second half finds its marks registered by the first one and leaves the progress alone
  rw [runFrom_bind_ok (runFrom_descend_text hsplit.kind rfl hclear _ _),
    runFrom_bind_ok (runFrom_descend_text hsplit.first_kind hsplit.first_marks hclear _ _),
    runFrom_bind_ok (runFrom_descend_text hsplit.second_kind hsplit.second_marks hclear _ _),
    Progress.register_register]
  exact h _ _ _ _ _

/-- Children are converted one place further on, and whatever comes behind goes on from there. -/
theorem agrees_behind {next next' : List Contribution → Export α} (index : Nat)
    (behind : List Node)
    (h : ∀ back : List Contribution,
      (∀ contribution ∈ back, ∀ chunk ∈ contribution.chunks, chunk.Each fun _ => IgnoresPath) →
        (next back).Agrees (next' (back.map Contribution.moved))) :
    (eachChildFrom contribute index (Prepared.ofNodes behind) >>= next).Agrees
      (eachChildFrom contribute (index + 1) (Prepared.ofNodes behind) >>= next') := by
  have hyields := yields_eachChildFrom (fun index child hc => closed_ignoresPath.yields_contribute
    (closed_ignoresPath.each_ofNodes behind child hc) index) index
  have hsame := (Agrees.refl _).bind_of_yields hyields h
  have hmoved := (agrees_moved index (Prepared.ofNodes behind)).bind fun back => .refl (next' back)
  rw [bind_map_left] at hmoved
  exact hsame.trans hmoved

/-- The inlines of a row: its ranges are cut until they nest, and its chunks are put into the
containers. -/
def assembleRow (contributions : List Contribution) : Export (List Inline) := do
  assemble (contributions.flatMap Contribution.chunks)
    (← untangled (collectRanges contributions))

theorem inlinesOf_eq (nodes : List Node) :
    inlinesOf nodes = eachChild contribute (Prepared.ofNodes nodes) >>= assembleRow := by
  simp only [inlinesOf, inlines, collect, bind_assoc, pure_bind]
  rfl

theorem agrees_assembleRow (front : List Contribution) {back : List Contribution}
    (h : ∀ contribution ∈ back, ∀ chunk ∈ contribution.chunks, chunk.Each fun _ => IgnoresPath)
    (left right : List Chunk) (marks : List Nat) :
    (assembleRow (front ++ .run (left ++ right) marks :: back)).Agrees
      (assembleRow (front ++ .run left marks :: .run right marks ::
        back.map Contribution.moved)) := by
  rw [assembleRow, assembleRow, collectRanges_split]
  refine (Agrees.refl _).bind fun pieces => agrees_assemble ?_ pieces
  simp only [List.flatMap_append, List.flatMap_cons, Contribution.chunks,
    Contribution.flatMap_chunks_moved, ← List.append_assoc]
  refine forall₂_emitsAs_moved _ fun chunk hchunk => ?_
  obtain ⟨contribution, hc, hin⟩ := List.mem_flatMap.mp hchunk
  exact h contribution hc chunk hin

/-- **Splitting a text is invisible.** A text that no code and no math mark applies to may be split
at its ends and wherever a word and breaks meet. From any progress on, and among any other children,
the halves with the same marks give a result just when the text does. It is the same, and so is the
progress: the same marks are registered, and as many citations numbered. -/
theorem inlinesOf_split (environment : Environment) (start after : Progress)
    (before behind : List Node) (hsplit : node.SplitsInto first second)
    (hclear : ∀ mark ∈ node.marks, mark.isOpaque = false) (written : List Inline) :
    (inlinesOf (before ++ node :: behind)).runFrom environment start = (.ok written, after) ↔
      (inlinesOf (before ++ first :: second :: behind)).runFrom environment start =
        (.ok written, after) := by
  have hwords : (Inline.ofText (node.text.getD "")).map Chunk.leaf =
      (Inline.ofText (first.text.getD "")).map .leaf ++
        (Inline.ofText (second.text.getD "")).map .leaf := by
    rw [← hsplit.text, Pandoc.ofText_append hsplit.meets, List.map_append]
  have hagrees : (inlinesOf (before ++ node :: behind)).Agrees
      (inlinesOf (before ++ first :: second :: behind)) := by
    simp only [inlinesOf_eq, Prepared.ofNodes_append, Prepared.ofNodes, eachChild,
      eachChildFrom_append, eachChildFrom, bind_assoc, pure_bind]
    refine (Agrees.refl _).bind fun front => agrees_split hsplit hclear _ fun marks => ?_
    refine agrees_behind _ behind fun back hback => ?_
    rw [hwords]
    exact agrees_assembleRow front hback _ _ marks
  exact hagrees environment start written after

/-- A cited text between a strong one and a footnote that cites as well, split behind its first
word, when two citations have been numbered. -/
theorem inlinesOf_split_four :
    let strong : Mark := ⟨"strong", []⟩
    let cite : Mark := ⟨"citation", [("references", .arr [.obj [("id", .str "x")]])]⟩
    let cited (number : Int) : List Pandoc.Citation := [⟨"x", [], [], .normalCitation, number, 0⟩]
    let text (marks : List Mark) (text : String) : Node := { type := "text", text, marks }
    let note : Node :=
      { type := "note", content := [{ type := "paragraph", content := [text [cite] "d"] }] }
    let start : Progress := ⟨.ofMarks [strong], 2, ["paragraph"]⟩
    let after : Progress := ⟨.ofMarks [strong, cite], 4, ["paragraph"]⟩
    let written : List Inline :=
      [.strong [.str "a"],
        .cite (cited 3) [.strong [.str "b", .space, .str "c"],
          .note [.para [.cite (cited 4) [.str "d"]]], .str "e"]]
    (text [cite, strong] "b c").SplitsInto (text [cite, strong] "b") (text [cite, strong] " c") ∧
      (∀ mark ∈ [cite, strong], mark.isOpaque = false) ∧
      (inlinesOf [text [strong] "a", text [cite, strong] "b c", note, text [cite] "e"]).runFrom {}
        start = (.ok written, after) ∧
      (inlinesOf [text [strong] "a", text [cite, strong] "b", text [cite, strong] " c", note,
        text [cite] "e"]).runFrom {} start = (.ok written, after) := by
  intro strong cite cited text note start after written
  have hsplit : (text [cite, strong] "b c").SplitsInto (text [cite, strong] "b")
      (text [cite, strong] " c") :=
    ⟨rfl, rfl, rfl, rfl, rfl, rfl, .inr (.inr ⟨'b', ' ', by decide, by decide, by decide⟩)⟩
  have hclear : ∀ mark ∈ [cite, strong], mark.isOpaque = false := by decide
  have hwhole : (inlinesOf [text [strong] "a", text [cite, strong] "b c", note,
      text [cite] "e"]).runFrom {} start = (.ok written, after) := by
    simp only [written, after]
    cbv
  refine ⟨hsplit, hclear, hwhole, ?_⟩
  exact (inlinesOf_split {} start after [text [strong] "a"] [note, text [cite] "e"] hsplit hclear
    written).mp hwhole

end Export

end RichDoc
