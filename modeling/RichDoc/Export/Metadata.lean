import RichDoc.Export.Assemble
import RichDoc.Keyed

/-!
# Metadata

Metadata is a map: a list of entries, each with a key and one value.
Values are maps again, lists, texts, truth values, inlines or blocks.
-/

namespace RichDoc.Export

open Pandoc (MetaValue)

/-- The key and the value of one entry. -/
def metaEntry (_index : Nat) (entry : Prepared) : Export (String × MetaValue) := do
  if (← kindOf entry.node) ≠ .metaEntry then
    structural "metadata may only contain 'metaEntry' nodes"
  match entry.node.attrs.string? "key", entry.children with
  | none, _ => structural "metadata entry has no key"
  | some key, [value] => return (key, ← descend 0 value.node.type value.metaValue)
  | some key, _ => structural ("metadata entry '" ++ key ++ "' must have exactly one value")

/-- The entries, sorted by key; of two entries with one key the later one counts. -/
def metadata (children : List Prepared) : Export (List (String × MetaValue)) := do
  return Keyed.ofList (← eachChild metaEntry children)

/-- A text value: the attribute `value`, or the text of the node itself. -/
def metaText (node : Node) : String := (node.attrs.string? "value").getD node.textContent

def metaValueOf (node : Node) (children : List Prepared) : Export MetaValue := do
  match ← kindOf node with
  | .metaMap => .map <$> metadata children
  | .metaList => .list <$> eachChild (fun _ item => item.metaValue) children
  | .metaString => return .string (metaText node)
  | .metaBool => return .bool ((node.attrs.boolean? "value").getD false)
  | .metaInlines => .inlines <$> inlines children
  | .metaBlocks => .blocks <$> blocks children
  | other => misplaced other

end RichDoc.Export
