import RichDoc.Document.Attributes
import RichDoc.Pandoc.Words

/-!
# Cited works

A citation mark lists the works it cites. Each names the work by its
identifier, may have running text before and after it, and may choose its
own mode over that of the whole citation. Note numbers come later, when
the citation's place in the document is known.
-/

namespace RichDoc

open Pandoc (Inline Citation CitationMode)

/-- One cited work, without a note number. -/
structure Reference where
  id : String
  before : List Inline
  after : List Inline
  mode : CitationMode

namespace Reference

def modeOfName? : String → Option CitationMode
  | "authorInText" => some .authorInText
  | "suppressAuthor" => some .suppressAuthor
  | "normal" => some .normalCitation
  | _ => none

/-- The mode that the attribute `mode` names. -/
def mode? (attrs : Attributes) : Option CitationMode :=
  (attrs.string? "mode").bind modeOfName?

/-- A reference from its attributes; without an identifier there is none. -/
def ofAttributes? (mode : CitationMode) (attrs : Attributes) : Option Reference :=
  (attrs.string? "id").map fun id =>
    { id
      before := Inline.ofText (attrs.string "prefix")
      after := Inline.ofText (attrs.string "suffix")
      mode := (mode? attrs).getD mode }

/-- The works that the attributes of a citation mark list. -/
def ofCitation (attrs : Attributes) : List Reference :=
  let mode := (mode? attrs).getD .normalCitation
  match attrs.get? "references" with
  | some (.arr items) => items.filterMap fun
    | .obj members => ofAttributes? mode members
    | _ => none
  | _ => []

/-- The citation under a note number. -/
def toCitation (reference : Reference) (noteNumber : Int) : Citation where
  id := reference.id
  before := reference.before
  after := reference.after
  mode := reference.mode
  noteNumber := noteNumber
  hash := 0

end Reference

end RichDoc
