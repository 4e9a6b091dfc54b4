import RichDoc.Proofs.Export.Composed
import RichDoc.Proofs.Json.Indented

/-!
# The layout of the output

How the output is indented is one of the settings, and every converter
can read the settings. None of them looks at the indentation, so
documents with compact and with indented output are converted alike, with
the same errors (`Node.toDocument_withIndent`). What is left is one
document written in two ways, and those differ in blanks between tokens
only.
-/

namespace RichDoc

namespace Export

variable {α β : Type}

/-- The conversion runs the same with any layout of the output. -/
def IgnoresIndent (convert : Export α) : Prop :=
  ∀ environment indent progress,
    convert.runFrom (environment.withIndent indent) progress = convert.runFrom environment progress

theorem IgnoresIndent.bind_of_yields {convert : Export α} {next : α → Export β} {P : α → Prop}
    (h : convert.IgnoresIndent) (hP : convert.Yields P) (hn : ∀ x, P x → (next x).IgnoresIndent) :
    (convert >>= next).IgnoresIndent := by
  intro environment indent progress
  have hfirst := h environment indent progress
  rcases hc : convert.runFrom environment progress with ⟨error | x, between⟩
  · rw [hc] at hfirst
    rw [runFrom_bind_error hfirst, runFrom_bind_error hc]
  · rw [hc] at hfirst
    rw [runFrom_bind_ok hfirst, runFrom_bind_ok hc]
    exact hn x (hP _ _ _ _ hc) environment indent between

theorem IgnoresIndent.descend {convert : Export α} (h : convert.IgnoresIndent) (index : Nat)
    (type : String) : (Export.descend index type convert).IgnoresIndent := by
  intro environment indent progress
  rw [runFrom_descend, runFrom_descend, h]

theorem closed_ignoresIndent : Closed fun _ => IgnoresIndent where
  pure _ := fun _ _ _ => rfl
  throw _ := fun _ _ _ => rfl
  progress _ h := fun environment indent progress => h progress environment indent progress
  throwAt _ := fun _ _ _ => rfl
  ask _ blind := fun environment indent progress =>
    congrArg (fun x => (Except.ok x, progress)) (blind environment indent)
  indexOf _ := fun _ _ _ => rfl
  nextCitation := fun _ _ _ => rfl
  bind_of_yields := .bind_of_yields
  descend := .descend

end Export

namespace Node

/-- The document below a root, or the error, is the same with any layout of the output. -/
theorem toDocument_withIndent (environment : Environment) (indent : Option Nat) (root : Node) :
    root.toDocument (environment.withIndent indent) = root.toDocument environment :=
  congrArg Prod.fst (Export.closed_ignoresIndent.documentOf root environment indent {})

/-- Without its blanks between tokens an indented export is the compact one, whatever the width;
where the one fails, so does the other, with the same error. -/
theorem exportText_compact (environment : Environment) (width : Nat) (root : Node) :
    root.exportText (environment.withIndent none) =
      (root.exportText (environment.withIndent (some width))).map Json.withoutBlanks := by
  have hwrite (document : Pandoc.Document) :
      document.write none = Json.withoutBlanks (document.write (some width)) :=
    (Json.withoutBlanks_indented width document.toJson).symm
  unfold exportText
  rw [toDocument_withIndent, toDocument_withIndent]
  cases root.toDocument environment with
  | error error => rfl
  | ok document => exact congrArg Except.ok (hwrite document)

end Node

end RichDoc
