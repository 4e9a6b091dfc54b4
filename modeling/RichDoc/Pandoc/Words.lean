import RichDoc.Pandoc.Ast

/-!
# Running text as inlines

Running text is cut into maximal runs of breaking characters and of all
others. A run of breaks becomes a `softBreak` if it holds a line feed and
a `space` if not; any other run is a word and stays as it is. Only the
space, the tab, the carriage return and the line feed break words, so a
non-breaking space is part of a word.
-/

namespace RichDoc.Pandoc

def isBreak (c : Char) : Bool := c = ' ' || c = '\t' || c = '\r' || c = '\n'

/-- The text in maximal runs of one kind. -/
def runs (cs : List Char) : List (List Char) :=
  cs.splitBy fun a b => isBreak a == isBreak b

/-- The inline of one run. -/
def Inline.ofRun (run : List Char) : Inline :=
  if run.any isBreak then
    if run.contains '\n' then .softBreak else .space
  else .str (String.ofList run)

def Inline.ofText (text : String) : List Inline := (runs text.toList).map Inline.ofRun

end RichDoc.Pandoc
