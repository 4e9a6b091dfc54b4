import RichDoc.Proofs.Export.ErrorPath

/-!
# Sessions

A context is asked for one conversion after the other, and some of them
fail. Whatever a conversion does, it gives the path back as it found it,
only adds marks behind those that are registered, and does not count
citations back (`Progress.Continues`). So no request sees what another one
failed at: the path of an error is the path that the session began with,
and behind it a way in the nodes of the request at hand.
-/

namespace RichDoc

/-- What a context can be asked for. -/
inductive Request where
  | document (root : Node)
  | blocks (nodes : List Node)
  | block (node : Node)
  | inlines (nodes : List Node)
  /-- The chunks of nodes and the ranges over them, without what is made of both. -/
  | row (nodes : List Node)

inductive Reply where
  | document (document : Pandoc.Document)
  | blocks (blocks : List Pandoc.Block)
  | block (block : Pandoc.Block)
  | inlines (inlines : List Pandoc.Inline)
  | row (chunks : List Chunk) (ranges : List MarkRange)

namespace Request

def convert : Request → Export Reply
  | .document root => .document <$> Export.documentOf root
  | .blocks nodes => .blocks <$> Export.blocksOf nodes
  | .block node => .block <$> node.toBlock
  | .inlines nodes => .inlines <$> Export.inlinesOf nodes
  | .row nodes => (fun (chunks, ranges) => .row chunks ranges) <$> Export.collectOf nodes

/-- The node that is converted. Nodes without one around them are taken as the children of a
root. -/
def subject : Request → Node
  | .document root => root
  | .block node => node
  | .blocks nodes | .inlines nodes | .row nodes => { type := NodeKind.doc.name, content := nodes }

end Request

/-- The outcomes of requests, one after the other, each with the progress behind it. -/
def session (environment : Environment) (start : Progress) :
    List Request → List (Except ExportError Reply × Progress)
  | [] => []
  | request :: rest =>
    let outcome := request.convert.runFrom environment start
    outcome :: session environment outcome.2 rest

/-- The path that an error reports, if it reports one. -/
def ExportError.path? : ExportError → Option String
  | .unknownNodeType _ path | .structural path _ => some path
  | .diverged _ => none

/-- The path is the same, what is registered stays where it is, and no citation is taken back. -/
structure Progress.Continues (before after : Progress) : Prop where
  path : after.path = before.path
  added : before.registry.entries.toList <+: after.registry.entries.toList
  kept : ∀ index entry, before.registry.entry? index = some entry →
    after.registry.entry? index = some entry
  counted : before.citations ≤ after.citations

namespace Progress

variable {a b : Progress}

theorem Leads.continues (h : a.Leads b) : a.Continues b := by
  obtain ⟨⟨marks, hregistry⟩, hcounted, hpath⟩ := h
  refine ⟨hpath, ?_, ?_, hcounted⟩
  · rw [hregistry]
    exact a.registry.prefix_entries_register marks
  · intro index entry hentry
    rw [hregistry]
    exact Registry.entry?_register hentry marks

end Progress

theorem ExportError.About.exists_way {priority : Priority} {path : List String} {node : Node}
    {error : ExportError} (h : error.About priority path node) {text : String}
    (hpath : error.path? = some text) :
    ∃ way below, node.Reaches way below ∧ text = pathAlong path way := by
  cases error with
  | unknownNodeType type reported =>
      cases hpath
      obtain ⟨way, below, reaches, htext, -⟩ := h.exists_unknown
      exact ⟨way, below, reaches, htext⟩
  | structural reported message =>
      cases hpath
      obtain ⟨-, way, below, reaches, htext, -⟩ := h.exists_structural
      exact ⟨way, below, reaches, htext⟩
  | diverged cause => cases hpath

/-! ## One request -/

namespace Request

variable {environment : Environment} {before after : Progress} {error : ExportError}

/-- Each request decides something about its nodes, so it is steady and its errors are about
them. -/
theorem exists_decides_convert (request : Request) :
    ∃ P, request.convert.Decides request.subject P := by
  have known : NodeKind.ofName? NodeKind.doc.name = some .doc := NodeKind.ofName?_name .doc
  cases request with
  | document root => exact ⟨_, (Export.decides_documentOf root).map _⟩
  | blocks nodes =>
      exact ⟨_, (@Export.decides_blocks ⟨_, _, nodes, _, _⟩ _ known fun child _ =>
        child.judged).map _⟩
  | block node => exact ⟨_, node.judged.block.map _⟩
  | inlines nodes =>
      exact ⟨_, (@Export.decides_inlines ⟨_, _, nodes, _, _⟩ _ known fun child _ =>
        child.judged).map _⟩
  | row nodes => exact ⟨_, (@Export.decides_collect ⟨_, _, nodes, _, _⟩ _ known).map _⟩

theorem leads_convert (request : Request) (environment : Environment) (before : Progress) :
    before.Leads (request.convert.runFrom environment before).2 := by
  obtain ⟨P, hdecides⟩ := request.exists_decides_convert
  exact hdecides.steady environment before

theorem about_of_convert (request : Request)
    (h : request.convert.runFrom environment before = (.error error, after)) :
    error.About environment.priority before.path request.subject := by
  obtain ⟨P, hdecides⟩ := request.exists_decides_convert
  exact hdecides.about h

end Request

/-! ## The whole session -/

namespace Export

theorem leads_of_mem_session {environment : Environment} {start : Progress}
    {requests : List Request} {outcome : Except ExportError Reply × Progress}
    (h : outcome ∈ session environment start requests) : start.Leads outcome.2 := by
  induction requests generalizing start with
  | nil => cases h
  | cons request rest ih =>
      have hfirst := request.leads_convert environment start
      rcases List.mem_cons.mp h with rfl | h
      · exact hfirst
      · exact hfirst.trans (ih h)

theorem pairwise_leads_session (environment : Environment) (start : Progress)
    (requests : List Request) :
    (start :: (session environment start requests).map Prod.snd).Pairwise Progress.Leads := by
  induction requests generalizing start with
  | nil => exact List.pairwise_singleton _ _
  | cons request rest ih =>
      rw [List.pairwise_cons]
      exact ⟨List.forall_mem_map.mpr fun outcome => leads_of_mem_session, ih _⟩

/-- The error of a request is about its own nodes, with the path that the session began with. -/
theorem about_of_mem_session {environment : Environment} {start after : Progress}
    {requests : List Request} {request : Request} {error : ExportError}
    (h : (request, (.error error, after)) ∈
      requests.zip (session environment start requests)) :
    error.About environment.priority start.path request.subject := by
  induction requests generalizing start with
  | nil => cases h
  | cons first rest ih =>
      rcases List.mem_cons.mp h with heq | h
      · obtain ⟨rfl, houtcome⟩ := Prod.mk.inj heq
        exact request.about_of_convert houtcome.symm
      · have habout := ih h
        rwa [(first.leads_convert environment start).path] at habout

/-- **A context stays usable.** Whatever it is asked for, and whether it answers or fails, what was
registered stays where it is, the path is as it was before, and no citation is taken back, between
any two moments of a session. So the path of an error is the one that the session began with, and
behind it a way in the nodes of that very request. -/
theorem pairwise_continues_session (environment : Environment) (start : Progress)
    (requests : List Request) :
    (start :: (session environment start requests).map Prod.snd).Pairwise Progress.Continues ∧
    ∀ request error after,
      (request, (.error error, after)) ∈ requests.zip (session environment start requests) →
      ∀ path, error.path? = some path →
        ∃ way below, request.subject.Reaches way below ∧
          path = ExportError.pathAlong start.path way := by
  refine ⟨(pairwise_leads_session environment start requests).imp Progress.Leads.continues, ?_⟩
  intro request error after hmem path hpath
  exact (about_of_mem_session hmem).exists_way hpath

/-- The second request fails deep in a footnote, and the third one at its own first block. -/
theorem pairwise_continues_session_three :
    let blink : Node := { type := "blink" }
    let note : Node := { type := "note", content := [{ type := "paragraph", content := [blink] }] }
    let text : Node := { type := "text", text := some "a", marks := [⟨"strong", []⟩] }
    let failing : Request := .blocks [blink]
    let requests : List Request :=
      [.inlines [text], .block { type := "paragraph", content := [text, note] }, failing]
    ∃ after, (failing, (.error (.unknownNodeType "blink" "doc/0:blink"), after)) ∈
        requests.zip (session {} {} requests) ∧
      (∃ way below, failing.subject.Reaches way below ∧
        "doc/0:blink" = ExportError.pathAlong ["doc"] way) ∧
      Progress.Continues {} after := by
  intro blink note text failing requests
  have hthird : ∃ after, (requests.zip (session {} {} requests))[2]? =
      some (failing, (.error (.unknownNodeType "blink" "doc/0:blink"), after)) := ⟨_, by cbv⟩
  obtain ⟨after, hthird⟩ := hthird
  have hmem := List.mem_of_getElem? hthird
  obtain ⟨hcontinues, hways⟩ := pairwise_continues_session {} {} requests
  refine ⟨after, hmem, hways _ _ _ hmem _ rfl, ?_⟩
  refine List.rel_of_pairwise_cons hcontinues ?_
  exact List.mem_map_of_mem (List.of_mem_zip hmem).2

end Export

end RichDoc
