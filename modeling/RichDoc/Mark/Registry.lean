import RichDoc.Mark.Container

/-!
# The mark registry

Every distinct mark of a document gets an index, in order of first
appearance, and keeps it. Marks are distinct when their types or the
texts of their attributes differ; attributes are sorted by key, so equal
attributes have equal texts. Runs of text with the same formatting thus
share an index, and that is how they come together in one container.
-/

namespace RichDoc

/-- A registered mark with what it turns into. -/
structure Entry where
  index : Nat
  mark : Mark
  /-- The text of the mark's attributes. -/
  canonical : String
  kind : MarkKind
  container : Container

namespace Mark

/-- The text by which attributes are compared. -/
def canonical (mark : Mark) : String := Json.compact (.obj mark.attrs)

end Mark

namespace Entry

def ofMark (index : Nat) (mark : Mark) : Entry where
  index := index
  mark := mark
  canonical := mark.canonical
  kind := .ofName mark.type
  container := .ofMark (.ofName mark.type) mark

/-- The entry stands for a mark of this type and attribute text. -/
def stands (type canonical : String) (entry : Entry) : Bool :=
  entry.mark.type == type && entry.canonical == canonical

def hasId (entry : Entry) : Bool := entry.mark.attrs.hasId

end Entry

structure Registry where
  entries : Array Entry := #[]

namespace Registry

def empty : Registry := {}

def size (registry : Registry) : Nat := registry.entries.size

def isEmpty (registry : Registry) : Bool := registry.entries.isEmpty

def entry? (registry : Registry) (index : Nat) : Option Entry := registry.entries[index]?

/-- The index of a mark, and the registry with the mark in it. -/
def indexOf (registry : Registry) (mark : Mark) : Nat × Registry :=
  match registry.entries.findIdx? (Entry.stands mark.type mark.canonical) with
  | some index => (index, registry)
  | none => (registry.size, ⟨registry.entries.push (.ofMark registry.size mark)⟩)

/-- The registry of the marks of a list. -/
def ofMarks (marks : List Mark) : Registry :=
  marks.foldl (fun registry mark => (registry.indexOf mark).2) empty

end Registry

end RichDoc
