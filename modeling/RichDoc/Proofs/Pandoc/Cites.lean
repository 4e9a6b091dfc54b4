import RichDoc.Mark.Container

/-!
# The citations of a document

Citations stand among inlines, which stand in blocks, and a footnote among
inlines holds blocks again. Reading a document from front to back meets a
citation before what is in it, and the citations of a footnote where the
footnote stands.
-/

namespace RichDoc

namespace Pandoc

mutual

/-- What every citation cites, each before those in it. -/
def Inline.cites : Inline → List (List Citation)
  | .cite citations content => citations :: inlinesCites content
  | .emph content | .underline content | .strong content | .strikeout content
  | .superscript content | .subscript content | .smallCaps content | .quoted _ content
  | .link _ content _ | .span _ content | .image _ content _ => inlinesCites content
  | .note content => blocksCites content
  | .str _ | .code _ _ | .space | .softBreak | .lineBreak | .math _ _ | .rawInline _ _ => []

def inlinesCites : List Inline → List (List Citation)
  | [] => []
  | inline :: rest => inline.cites ++ inlinesCites rest

def linesCites : List (List Inline) → List (List Citation)
  | [] => []
  | line :: rest => inlinesCites line ++ linesCites rest

def Block.cites : Block → List (List Citation)
  | .plain content | .para content | .header _ _ content => inlinesCites content
  | .lineBlock lines => linesCites lines
  | .codeBlock _ _ | .rawBlock _ _ | .horizontalRule => []
  | .blockQuote content | .div _ content => blocksCites content
  | .orderedList _ items | .bulletList items => itemsCites items
  | .definitionList items => definitionsCites items
  | .table table => table.cites
  | .figure _ caption content => caption.cites ++ blocksCites content

def blocksCites : List Block → List (List Citation)
  | [] => []
  | block :: rest => block.cites ++ blocksCites rest

def itemsCites : List (List Block) → List (List Citation)
  | [] => []
  | item :: rest => blocksCites item ++ itemsCites rest

def Definition.cites : Definition → List (List Citation)
  | ⟨term, definitions⟩ => inlinesCites term ++ itemsCites definitions

def definitionsCites : List Definition → List (List Citation)
  | [] => []
  | definition :: rest => definition.cites ++ definitionsCites rest

def Caption.cites : Caption → List (List Citation)
  | ⟨none, body⟩ => blocksCites body
  | ⟨some short, body⟩ => inlinesCites short ++ blocksCites body

def Table.cites : Table → List (List Citation)
  | ⟨_, caption, _, head, bodies, foot⟩ =>
    caption.cites ++ head.cites ++ bodiesCites bodies ++ foot.cites

def TableSection.cites : TableSection → List (List Citation)
  | ⟨_, rows⟩ => rowsCites rows

def TableBody.cites : TableBody → List (List Citation)
  | ⟨_, _, headRows, rows⟩ => rowsCites headRows ++ rowsCites rows

def bodiesCites : List TableBody → List (List Citation)
  | [] => []
  | body :: rest => body.cites ++ bodiesCites rest

def Row.cites : Row → List (List Citation)
  | ⟨_, cells⟩ => cellsCites cells

def rowsCites : List Row → List (List Citation)
  | [] => []
  | row :: rest => row.cites ++ rowsCites rest

def Cell.cites : Cell → List (List Citation)
  | ⟨_, _, _, _, content⟩ => blocksCites content

def cellsCites : List Cell → List (List Citation)
  | [] => []
  | cell :: rest => cell.cites ++ cellsCites rest

end

theorem inlinesCites_eq_flatMap (inlines : List Inline) :
    inlinesCites inlines = inlines.flatMap Inline.cites := by
  induction inlines with
  | nil => rfl
  | cons inline rest ih => rw [inlinesCites, ih, List.flatMap_cons]

theorem inlinesCites_append (l l' : List Inline) :
    inlinesCites (l ++ l') = inlinesCites l ++ inlinesCites l' := by
  simp only [inlinesCites_eq_flatMap, List.flatMap_append]

theorem inlinesCites_singleton (inline : Inline) : inlinesCites [inline] = inline.cites := by
  rw [inlinesCites, inlinesCites, List.append_nil]

theorem blocksCites_eq_flatMap (blocks : List Block) :
    blocksCites blocks = blocks.flatMap Block.cites := by
  induction blocks with
  | nil => rfl
  | cons block rest ih => rw [blocksCites, ih, List.flatMap_cons]

theorem itemsCites_eq_flatMap (items : List (List Block)) :
    itemsCites items = items.flatMap blocksCites := by
  induction items with
  | nil => rfl
  | cons item rest ih => rw [itemsCites, ih, List.flatMap_cons]

theorem definitionsCites_eq_flatMap (items : List Definition) :
    definitionsCites items = items.flatMap Definition.cites := by
  induction items with
  | nil => rfl
  | cons item rest ih => rw [definitionsCites, ih, List.flatMap_cons]

/-- Running text cites nothing. -/
theorem inlinesCites_ofText (text : String) : inlinesCites (Inline.ofText text) = [] := by
  rw [inlinesCites_eq_flatMap, List.flatMap_eq_nil_iff]
  intro inline hmem
  obtain ⟨run, -, rfl⟩ := List.mem_map.mp hmem
  unfold Inline.ofRun
  split
  · split <;> rfl
  · rfl

end Pandoc

open Pandoc (Inline Citation)

/-- What the container itself cites under a note number. -/
def Container.cites (noteNumber : Int) : Container → List (List Citation)
  | .cite references => [references.map (·.toCitation noteNumber)]
  | _ => []

end RichDoc
