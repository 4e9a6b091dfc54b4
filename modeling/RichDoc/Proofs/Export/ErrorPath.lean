import Mathlib
import RichDoc.Proofs.Export.Acceptance

/-!
# Where errors point

An error tells the path of the node it is about. That is text, so to say
what it means the way from the root to the node is written down with it
(`Node.Reaches`): the children that are taken one after the other, each
with its type. The path is the text of such a way.
-/

namespace RichDoc

/-- The text of a way from the root. -/
def wayText (way : List (Nat × String)) : String :=
  "/".intercalate (NodeKind.doc.name :: way.map fun step => pathStep step.1 step.2)

/-- The type has the name of one of the vocabulary. -/
def IsKindName (type : String) : Prop := ∃ kind : NodeKind, kind.name = type

theorem isKindName_of_kind? {node : Node} {kind : NodeKind} (h : node.kind? = some kind) :
    IsKindName node.type := ⟨kind, NodeKind.name_of_ofName? h⟩

theorem not_isKindName_of_kind? {node : Node} (h : node.kind? = none) : ¬ IsKindName node.type := by
  rintro ⟨kind, hname⟩
  rw [Node.kind?, ← hname, NodeKind.ofName?_name] at h
  cases h

namespace ExportError

variable {priority : Priority} {path : List String} {node : Node}

/-- The path of an error: that of the node at hand, and behind it the way to the offending node. -/
def pathAlong (path : List String) (way : List (Nat × String)) : String :=
  pathText ((way.map fun step => pathStep step.1 step.2).reverse ++ path)

theorem pathAlong_cons (path : List String) (index : Nat) (type : String)
    (way : List (Nat × String)) :
    pathAlong path ((index, type) :: way) = pathAlong (pathStep index type :: path) way := by
  simp [pathAlong]

theorem pathAlong_root (way : List (Nat × String)) :
    pathAlong [NodeKind.doc.name] way = wayText way := by
  simp [pathAlong, pathText, wayText]

/-- An unknown type is that of the last node of the way, and all types before it are known. -/
theorem About.exists_unknown {type text : String}
    (h : About priority path node (.unknownNodeType type text)) :
    ∃ way below, node.Reaches way below ∧ text = pathAlong path way ∧ below.type = type ∧
      ¬ IsKindName type ∧ (∀ step ∈ way.dropLast, IsKindName step.2) ∧
      (way ≠ [] → IsKindName node.type) := by
  generalize herror : ExportError.unknownNodeType type text = error at h
  induction h with
  | @unknown path node unknown =>
      cases herror
      exact ⟨[], node, .here node, rfl, rfl, not_isKindName_of_kind? unknown, nofun, nofun⟩
  | structural => cases herror
  | diverged => cases herror
  | @inside path node kind index child error known child_mem about ih =>
      obtain ⟨way, below, reaches, htext, htype, hunknown, hknown, hchild⟩ := ih herror
      refine ⟨(index, child.type) :: way, below, .child child_mem reaches, ?_, htype, hunknown, ?_,
        fun _ => isKindName_of_kind? known⟩
      · rw [htext, pathAlong_cons]
      · cases way with
        | nil => nofun
        | cons step rest =>
            rw [List.dropLast_cons_cons]
            exact List.forall_mem_cons.mpr ⟨hchild nofun, hknown⟩

/-- A structural error is about a node of a known type, and so are all nodes on the way. -/
theorem About.exists_structural {text message : String}
    (h : About priority path node (.structural text message)) :
    IsKindName node.type ∧ ∃ way below, node.Reaches way below ∧ text = pathAlong path way ∧
      ∀ step ∈ way, IsKindName step.2 := by
  generalize herror : ExportError.structural text message = error at h
  induction h with
  | unknown => cases herror
  | @structural path node kind message known =>
      cases herror
      exact ⟨isKindName_of_kind? known, [], node, .here node, rfl, nofun⟩
  | diverged => cases herror
  | @inside path node kind index child error known child_mem about ih =>
      obtain ⟨hchild, way, below, reaches, htext, hknown⟩ := ih herror
      refine ⟨isKindName_of_kind? known, (index, child.type) :: way, below,
        .child child_mem reaches, ?_, List.forall_mem_cons.mpr ⟨hchild, hknown⟩⟩
      rw [htext, pathAlong_cons]

end ExportError

namespace Node

theorem about_of_toDocument {environment : Environment} {root : Node} {error : ExportError}
    (h : root.toDocument environment = .error error) :
    error.About environment.priority [NodeKind.doc.name] root :=
  (Export.decides_documentOf root).about (Prod.ext h rfl)

/-- **Errors point at the offending node.** The path of an error is the text of a way from the root
to a node that is there. If its type is unknown, the types of the nodes before it are known; an
error of structure is about a node of a known type, below nodes of known types. -/
theorem exists_way_of_error (environment : Environment) (root : Node) (error : ExportError)
    (h : root.toDocument environment = .error error) :
    (∀ type path, error = .unknownNodeType type path →
      ∃ way below, root.Reaches way below ∧ path = wayText way ∧ below.type = type ∧
        (∀ kind : NodeKind, kind.name ≠ type) ∧ ∀ step ∈ way.dropLast, IsKindName step.2) ∧
    ∀ path message, error = .structural path message →
      ∃ way below, root.Reaches way below ∧ path = wayText way ∧
        ∀ step ∈ way, IsKindName step.2 := by
  have habout := about_of_toDocument h
  constructor
  · rintro type path rfl
    obtain ⟨way, below, reaches, rfl, htype, hunknown, hknown, -⟩ := habout.exists_unknown
    exact ⟨way, below, reaches, ExportError.pathAlong_root way, htype, not_exists.mp hunknown,
      hknown⟩
  · rintro path message rfl
    obtain ⟨-, way, below, reaches, rfl, hknown⟩ := habout.exists_structural
    exact ⟨way, below, reaches, ExportError.pathAlong_root way, hknown⟩

/-- A type that is not one of the vocabulary, in a footnote of the second paragraph. -/
theorem exists_way_of_error_footnote :
    let blink : Node := { type := "blink" }
    let note : Node := { type := "note", content := [{ type := "paragraph", content := [blink] }] }
    let text : Node := { type := "text", text := some "a" }
    let root : Node :=
      { type := "doc"
        content := [{ type := "paragraph", content := [text] },
          { type := "paragraph", content := [text, note] }] }
    root.toDocument {} =
        .error (.unknownNodeType "blink" "doc/1:paragraph/1:note/0:paragraph/0:blink") ∧
      ∃ way below, root.Reaches way below ∧
        "doc/1:paragraph/1:note/0:paragraph/0:blink" = wayText way ∧ below.type = "blink" := by
  intro blink note text root
  have hfails : root.toDocument {} =
      .error (.unknownNodeType "blink" "doc/1:paragraph/1:note/0:paragraph/0:blink") := by cbv
  obtain ⟨way, below, reaches, hpath, htype, -, -⟩ :=
    (exists_way_of_error {} root _ hfails).1 _ _ rfl
  exact ⟨hfails, way, below, reaches, hpath, htype⟩

end Node

end RichDoc
