import Mathlib.Data.List.Basic
import RichDoc.Proofs.Pandoc.Widths

/-!
# The text of a document determines the document

No two values of the document model have one JSON. An element is told
from others by its tag, and once the alternative is known its parts are
too, each in a place of its own: so the alternatives of two elements with
one JSON are compared first (`Inline.ctorIdx_eq`) and their parts, by
recursion, after that. Compact texts determine their JSON, and with it
the value that was written.
-/

namespace RichDoc.Pandoc

/-! ## Tags and lists of parts -/

theorem tag_inj {name name' : String} (h : tag name = tag name') : name = name' :=
  Json.str.inj (Prod.mk.inj (List.cons.inj (Json.obj.inj h)).1).2

theorem tagged_inj {name name' : String} {content content' : Json}
    (h : tagged name content = tagged name' content') : content = content' :=
  (Prod.mk.inj (List.cons.inj (List.cons.inj (Json.obj.inj h)).2).1).2

theorem list_inj {xs ys : List Json} {name : String}
    (h : tagged name (.arr xs) = tagged name (.arr ys)) : xs = ys :=
  Json.arr.inj (tagged_inj h)

theorem pair_inj {x x' y y' : Json} (h : Json.arr [x, y] = .arr [x', y']) : x = x' ∧ y = y' := by
  simpa only [Json.arr.injEq, List.cons.injEq, and_true] using h

theorem triple_inj {x x' y y' z z' : Json} (h : Json.arr [x, y, z] = .arr [x', y', z']) :
    x = x' ∧ y = y' ∧ z = z' := by
  simpa only [Json.arr.injEq, List.cons.injEq, and_true] using h

/-- The name on the tag of an element. -/
def nameOf : Json → String
  | .obj (("t", .str name) :: _) => name
  | _ => ""

/-! ## Records without inlines or blocks -/

theorem Attr.toJson_injective : Function.Injective Attr.toJson := by
  rintro ⟨id, classes, pairs⟩ ⟨id', classes', pairs'⟩ h
  obtain ⟨hid, hclasses, hpairs⟩ := triple_inj h
  have htext : Function.Injective Json.str := fun _ _ => Json.str.inj
  have hpair : Function.Injective fun pair : String × String =>
      Json.arr [.str pair.1, .str pair.2] := fun _ _ h =>
    Prod.ext (Json.str.inj (pair_inj h).1) (Json.str.inj (pair_inj h).2)
  obtain rfl : id = id' := Json.str.inj hid
  obtain rfl : classes = classes' := List.map_injective_iff.mpr htext (Json.arr.inj hclasses)
  obtain rfl : pairs = pairs' := List.map_injective_iff.mpr hpair (Json.arr.inj hpairs)
  rfl

theorem Target.toJson_injective : Function.Injective Target.toJson := by
  rintro ⟨url, title⟩ ⟨url', title'⟩ h
  obtain ⟨hurl, htitle⟩ := pair_inj h
  obtain rfl : url = url' := Json.str.inj hurl
  obtain rfl : title = title' := Json.str.inj htitle
  rfl

theorem QuoteType.toJson_injective : Function.Injective QuoteType.toJson := by
  intro a b h
  cases a <;> cases b <;> first | exact rfl | exact absurd (tag_inj h) (by decide)

theorem MathType.toJson_injective : Function.Injective MathType.toJson := by
  intro a b h
  cases a <;> cases b <;> first | exact rfl | exact absurd (tag_inj h) (by decide)

theorem CitationMode.toJson_injective : Function.Injective CitationMode.toJson := by
  intro a b h
  cases a <;> cases b <;> first | exact rfl | exact absurd (tag_inj h) (by decide)

theorem ListNumberStyle.toJson_injective : Function.Injective ListNumberStyle.toJson := by
  intro a b h
  cases a <;> cases b <;> first | exact rfl | exact absurd (tag_inj h) (by decide)

theorem ListNumberDelim.toJson_injective : Function.Injective ListNumberDelim.toJson := by
  intro a b h
  cases a <;> cases b <;> first | exact rfl | exact absurd (tag_inj h) (by decide)

theorem ListAttributes.toJson_injective : Function.Injective ListAttributes.toJson := by
  rintro ⟨start, style, delim⟩ ⟨start', style', delim'⟩ h
  obtain ⟨hstart, hstyle, hdelim⟩ := triple_inj h
  obtain rfl : start = start' := Json.int.inj hstart
  obtain rfl : style = style' := ListNumberStyle.toJson_injective hstyle
  obtain rfl : delim = delim' := ListNumberDelim.toJson_injective hdelim
  rfl

theorem Alignment.toJson_injective : Function.Injective Alignment.toJson := by
  intro a b h
  cases a <;> cases b <;> first | exact rfl | exact absurd (tag_inj h) (by decide)

theorem ColWidth.toJson_injective : Function.Injective ColWidth.toJson
  | .fraction _, .fraction _, h => congrArg ColWidth.fraction (Json.float.inj (tagged_inj h))
  | .unset, .unset, _ => rfl
  | .fraction _, .unset, h | .unset, .fraction _, h =>
    nomatch (List.cons.inj (Json.obj.inj h)).2

theorem ColSpec.toJson_injective : Function.Injective ColSpec.toJson := by
  rintro ⟨alignment, width⟩ ⟨alignment', width'⟩ h
  obtain ⟨halignment, hwidth⟩ := pair_inj h
  obtain rfl : alignment = alignment' := Alignment.toJson_injective halignment
  obtain rfl : width = width' := ColWidth.toJson_injective hwidth
  rfl

theorem ApiVersion.toJson_injective : Function.Injective ApiVersion.toJson := by
  rintro ⟨major, minor, patch⟩ ⟨major', minor', patch'⟩ h
  obtain ⟨hmajor, hminor, hpatch⟩ := triple_inj h
  obtain rfl : major = major' := Int.ofNat.inj (Json.int.inj hmajor)
  obtain rfl : minor = minor' := Int.ofNat.inj (Json.int.inj hminor)
  obtain rfl : patch = patch' := Int.ofNat.inj (Json.int.inj hpatch)
  rfl

/-! ## Alternatives -/

/-- The names of inlines, one for each alternative and in the same order. -/
def Inline.names : List String :=
  ["Str", "Emph", "Underline", "Strong", "Strikeout", "Superscript", "Subscript", "SmallCaps",
    "Quoted", "Cite", "Code", "Space", "SoftBreak", "LineBreak", "Math", "RawInline", "Link",
    "Image", "Note", "Span"]

def Block.names : List String :=
  ["Plain", "Para", "LineBlock", "CodeBlock", "RawBlock", "BlockQuote", "OrderedList", "BulletList",
    "DefinitionList", "Header", "HorizontalRule", "Table", "Figure", "Div"]

def MetaValue.names : List String :=
  ["MetaMap", "MetaList", "MetaBool", "MetaString", "MetaInlines", "MetaBlocks"]

/-- Inlines with one JSON are of one alternative. -/
theorem Inline.ctorIdx_eq {a b : Inline} (h : a.toJson = b.toJson) : a.ctorIdx = b.ctorIdx := by
  have hplace (a : Inline) : names.idxOf (nameOf a.toJson) = a.ctorIdx := by cases a <;> rfl
  rw [← hplace a, h, hplace b]

theorem Block.ctorIdx_eq {a b : Block} (h : a.toJson = b.toJson) : a.ctorIdx = b.ctorIdx := by
  have hplace (a : Block) : names.idxOf (nameOf a.toJson) = a.ctorIdx := by cases a <;> rfl
  rw [← hplace a, h, hplace b]

theorem MetaValue.ctorIdx_eq {a b : MetaValue} (h : a.toJson = b.toJson) :
    a.ctorIdx = b.ctorIdx := by
  have hplace (a : MetaValue) : names.idxOf (nameOf a.toJson) = a.ctorIdx := by cases a <;> rfl
  rw [← hplace a, h, hplace b]

/-! ## Inlines and blocks -/

mutual

theorem Inline.eq_of_ctorIdx : ∀ a b : Inline, a.ctorIdx = b.ctorIdx → a.toJson = b.toJson → a = b
  | .str _, .str _, _ => fun h => congrArg Inline.str (Json.str.inj (tagged_inj h))
  | .emph x, .emph y, _ => fun h => congrArg Inline.emph (eq_of_inlines x y (list_inj h))
  | .underline x, .underline y, _ => fun h =>
    congrArg Inline.underline (eq_of_inlines x y (list_inj h))
  | .strong x, .strong y, _ => fun h => congrArg Inline.strong (eq_of_inlines x y (list_inj h))
  | .strikeout x, .strikeout y, _ => fun h =>
    congrArg Inline.strikeout (eq_of_inlines x y (list_inj h))
  | .superscript x, .superscript y, _ => fun h =>
    congrArg Inline.superscript (eq_of_inlines x y (list_inj h))
  | .subscript x, .subscript y, _ => fun h =>
    congrArg Inline.subscript (eq_of_inlines x y (list_inj h))
  | .smallCaps x, .smallCaps y, _ => fun h =>
    congrArg Inline.smallCaps (eq_of_inlines x y (list_inj h))
  | .quoted _ x, .quoted _ y, _ => fun h => by
      obtain ⟨hquote, hcontent⟩ := pair_inj (tagged_inj h)
      rw [QuoteType.toJson_injective hquote, eq_of_inlines x y (Json.arr.inj hcontent)]
  | .cite citations x, .cite citations' y, _ => fun h => by
      obtain ⟨hcitations, hcontent⟩ := pair_inj (tagged_inj h)
      rw [eq_of_citations citations citations' (Json.arr.inj hcitations),
        eq_of_inlines x y (Json.arr.inj hcontent)]
  | .code _ _, .code _ _, _ => fun h => by
      obtain ⟨hattr, htext⟩ := pair_inj (tagged_inj h)
      rw [Attr.toJson_injective hattr, Json.str.inj htext]
  | .space, .space, _ | .softBreak, .softBreak, _ | .lineBreak, .lineBreak, _ => fun _ => rfl
  | .math _ _, .math _ _, _ => fun h => by
      obtain ⟨htype, htext⟩ := pair_inj (tagged_inj h)
      rw [MathType.toJson_injective htype, Json.str.inj htext]
  | .rawInline _ _, .rawInline _ _, _ => fun h => by
      obtain ⟨hformat, htext⟩ := pair_inj (tagged_inj h)
      rw [Json.str.inj hformat, Json.str.inj htext]
  | .link _ x _, .link _ y _, _ => fun h => by
      obtain ⟨hattr, hcontent, htarget⟩ := triple_inj (tagged_inj h)
      rw [Attr.toJson_injective hattr, eq_of_inlines x y (Json.arr.inj hcontent),
        Target.toJson_injective htarget]
  | .image _ x _, .image _ y _, _ => fun h => by
      obtain ⟨hattr, halt, htarget⟩ := triple_inj (tagged_inj h)
      rw [Attr.toJson_injective hattr, eq_of_inlines x y (Json.arr.inj halt),
        Target.toJson_injective htarget]
  | .note x, .note y, _ => fun h => congrArg Inline.note (eq_of_blocks x y (list_inj h))
  | .span _ x, .span _ y, _ => fun h => by
      obtain ⟨hattr, hcontent⟩ := pair_inj (tagged_inj h)
      rw [Attr.toJson_injective hattr, eq_of_inlines x y (Json.arr.inj hcontent)]
termination_by structural a => a

theorem eq_of_inlines : ∀ xs ys : List Inline, inlinesToJson xs = inlinesToJson ys → xs = ys
  | [], [], _ => rfl
  | x :: xs, y :: ys, h => by
      obtain ⟨hx, hxs⟩ := List.cons.inj h
      rw [x.eq_of_ctorIdx y (Inline.ctorIdx_eq hx) hx, eq_of_inlines xs ys hxs]
termination_by structural a => a

theorem Citation.eq_of_toJson : ∀ a b : Citation, a.toJson = b.toJson → a = b
  | ⟨id, before, after, mode, number, hash⟩, ⟨id', before', after', mode', number', hash'⟩ => by
      intro h
      simp only [Citation.toJson, Json.obj.injEq, List.cons.injEq, Prod.mk.injEq, Json.str.injEq,
        Json.arr.injEq, Json.int.injEq, true_and, and_true] at h
      obtain ⟨rfl, hbefore, hafter, hmode, rfl, rfl⟩ := h
      rw [eq_of_inlines before before' hbefore, eq_of_inlines after after' hafter,
        CitationMode.toJson_injective hmode]
termination_by structural a => a

theorem eq_of_citations :
    ∀ xs ys : List Citation, citationsToJson xs = citationsToJson ys → xs = ys
  | [], [], _ => rfl
  | x :: xs, y :: ys, h => by
      obtain ⟨hx, hxs⟩ := List.cons.inj h
      rw [x.eq_of_toJson y hx, eq_of_citations xs ys hxs]
termination_by structural a => a

theorem eq_of_lines : ∀ xs ys : List (List Inline), linesToJson xs = linesToJson ys → xs = ys
  | [], [], _ => rfl
  | x :: xs, y :: ys, h => by
      obtain ⟨hx, hxs⟩ := List.cons.inj h
      rw [eq_of_inlines x y (Json.arr.inj hx), eq_of_lines xs ys hxs]
termination_by structural a => a

theorem Block.eq_of_ctorIdx : ∀ a b : Block, a.ctorIdx = b.ctorIdx → a.toJson = b.toJson → a = b
  | .plain x, .plain y, _ => fun h => congrArg Block.plain (eq_of_inlines x y (list_inj h))
  | .para x, .para y, _ => fun h => congrArg Block.para (eq_of_inlines x y (list_inj h))
  | .lineBlock x, .lineBlock y, _ => fun h =>
    congrArg Block.lineBlock (eq_of_lines x y (list_inj h))
  | .codeBlock _ _, .codeBlock _ _, _ => fun h => by
      obtain ⟨hattr, htext⟩ := pair_inj (tagged_inj h)
      rw [Attr.toJson_injective hattr, Json.str.inj htext]
  | .rawBlock _ _, .rawBlock _ _, _ => fun h => by
      obtain ⟨hformat, htext⟩ := pair_inj (tagged_inj h)
      rw [Json.str.inj hformat, Json.str.inj htext]
  | .blockQuote x, .blockQuote y, _ => fun h =>
    congrArg Block.blockQuote (eq_of_blocks x y (list_inj h))
  | .orderedList _ x, .orderedList _ y, _ => fun h => by
      obtain ⟨hattributes, hitems⟩ := pair_inj (tagged_inj h)
      rw [ListAttributes.toJson_injective hattributes, eq_of_items x y (Json.arr.inj hitems)]
  | .bulletList x, .bulletList y, _ => fun h =>
    congrArg Block.bulletList (eq_of_items x y (list_inj h))
  | .definitionList x, .definitionList y, _ => fun h =>
    congrArg Block.definitionList (eq_of_definitions x y (list_inj h))
  | .header _ _ x, .header _ _ y, _ => fun h => by
      obtain ⟨hlevel, hattr, hcontent⟩ := triple_inj (tagged_inj h)
      rw [Json.int.inj hlevel, Attr.toJson_injective hattr,
        eq_of_inlines x y (Json.arr.inj hcontent)]
  | .horizontalRule, .horizontalRule, _ => fun _ => rfl
  | .table x, .table y, _ => fun h => congrArg Block.table (x.eq_of_toJson y (tagged_inj h))
  | .figure _ caption x, .figure _ caption' y, _ => fun h => by
      obtain ⟨hattr, hcaption, hcontent⟩ := triple_inj (tagged_inj h)
      rw [Attr.toJson_injective hattr, caption.eq_of_toJson caption' hcaption,
        eq_of_blocks x y (Json.arr.inj hcontent)]
  | .div _ x, .div _ y, _ => fun h => by
      obtain ⟨hattr, hcontent⟩ := pair_inj (tagged_inj h)
      rw [Attr.toJson_injective hattr, eq_of_blocks x y (Json.arr.inj hcontent)]
termination_by structural a => a

theorem eq_of_blocks : ∀ xs ys : List Block, blocksToJson xs = blocksToJson ys → xs = ys
  | [], [], _ => rfl
  | x :: xs, y :: ys, h => by
      obtain ⟨hx, hxs⟩ := List.cons.inj h
      rw [x.eq_of_ctorIdx y (Block.ctorIdx_eq hx) hx, eq_of_blocks xs ys hxs]
termination_by structural a => a

theorem eq_of_items : ∀ xs ys : List (List Block), itemsToJson xs = itemsToJson ys → xs = ys
  | [], [], _ => rfl
  | x :: xs, y :: ys, h => by
      obtain ⟨hx, hxs⟩ := List.cons.inj h
      rw [eq_of_blocks x y (Json.arr.inj hx), eq_of_items xs ys hxs]
termination_by structural a => a

theorem Definition.eq_of_toJson : ∀ a b : Definition, a.toJson = b.toJson → a = b
  | ⟨term, x⟩, ⟨term', y⟩, h => by
      obtain ⟨hterm, hdefinitions⟩ := pair_inj h
      rw [eq_of_inlines term term' (Json.arr.inj hterm),
        eq_of_items x y (Json.arr.inj hdefinitions)]
termination_by structural a => a

theorem eq_of_definitions :
    ∀ xs ys : List Definition, definitionsToJson xs = definitionsToJson ys → xs = ys
  | [], [], _ => rfl
  | x :: xs, y :: ys, h => by
      obtain ⟨hx, hxs⟩ := List.cons.inj h
      rw [x.eq_of_toJson y hx, eq_of_definitions xs ys hxs]
termination_by structural a => a

theorem Caption.eq_of_toJson : ∀ a b : Caption, a.toJson = b.toJson → a = b
  | ⟨none, x⟩, ⟨none, y⟩, h =>
    congrArg (Caption.mk none) (eq_of_blocks x y (Json.arr.inj (pair_inj h).2))
  | ⟨some short, x⟩, ⟨some short', y⟩, h => by
      obtain ⟨hshort, hbody⟩ := pair_inj h
      rw [eq_of_inlines short short' (Json.arr.inj hshort), eq_of_blocks x y (Json.arr.inj hbody)]
  | ⟨none, _⟩, ⟨some _, _⟩, h | ⟨some _, _⟩, ⟨none, _⟩, h => nomatch (pair_inj h).1
termination_by structural a => a

theorem Table.eq_of_toJson : ∀ a b : Table, a.toJson = b.toJson → a = b
  | ⟨attr, caption, columns, head, bodies, foot⟩,
    ⟨attr', caption', columns', head', bodies', foot'⟩ => by
      intro h
      simp only [Table.toJson, Json.arr.injEq, List.cons.injEq, and_true] at h
      obtain ⟨hattr, hcaption, hcolumns, hhead, hbodies, hfoot⟩ := h
      rw [Attr.toJson_injective hattr, caption.eq_of_toJson caption' hcaption,
        List.map_injective_iff.mpr ColSpec.toJson_injective hcolumns,
        head.eq_of_toJson head' hhead, eq_of_bodies bodies bodies' hbodies,
        foot.eq_of_toJson foot' hfoot]
termination_by structural a => a

theorem TableSection.eq_of_toJson : ∀ a b : TableSection, a.toJson = b.toJson → a = b
  | ⟨_, x⟩, ⟨_, y⟩, h => by
      obtain ⟨hattr, hrows⟩ := pair_inj h
      rw [Attr.toJson_injective hattr, eq_of_rows x y (Json.arr.inj hrows)]
termination_by structural a => a

theorem TableBody.eq_of_toJson : ∀ a b : TableBody, a.toJson = b.toJson → a = b
  | ⟨attr, columns, x, y⟩, ⟨attr', columns', x', y'⟩ => by
      intro h
      simp only [TableBody.toJson, Json.arr.injEq, Json.int.injEq, List.cons.injEq, and_true] at h
      obtain ⟨hattr, rfl, hheadRows, hrows⟩ := h
      rw [Attr.toJson_injective hattr, eq_of_rows x x' hheadRows, eq_of_rows y y' hrows]
termination_by structural a => a

theorem eq_of_bodies : ∀ xs ys : List TableBody, bodiesToJson xs = bodiesToJson ys → xs = ys
  | [], [], _ => rfl
  | x :: xs, y :: ys, h => by
      obtain ⟨hx, hxs⟩ := List.cons.inj h
      rw [x.eq_of_toJson y hx, eq_of_bodies xs ys hxs]
termination_by structural a => a

theorem Row.eq_of_toJson : ∀ a b : Row, a.toJson = b.toJson → a = b
  | ⟨_, x⟩, ⟨_, y⟩, h => by
      obtain ⟨hattr, hcells⟩ := pair_inj h
      rw [Attr.toJson_injective hattr, eq_of_cells x y (Json.arr.inj hcells)]
termination_by structural a => a

theorem eq_of_rows : ∀ xs ys : List Row, rowsToJson xs = rowsToJson ys → xs = ys
  | [], [], _ => rfl
  | x :: xs, y :: ys, h => by
      obtain ⟨hx, hxs⟩ := List.cons.inj h
      rw [x.eq_of_toJson y hx, eq_of_rows xs ys hxs]
termination_by structural a => a

theorem Cell.eq_of_toJson : ∀ a b : Cell, a.toJson = b.toJson → a = b
  | ⟨attr, alignment, rowSpan, colSpan, x⟩, ⟨attr', alignment', rowSpan', colSpan', y⟩ => by
      intro h
      simp only [Cell.toJson, Json.arr.injEq, Json.int.injEq, List.cons.injEq, and_true] at h
      obtain ⟨hattr, halignment, rfl, rfl, hcontent⟩ := h
      rw [Attr.toJson_injective hattr, Alignment.toJson_injective halignment,
        eq_of_blocks x y hcontent]
termination_by structural a => a

theorem eq_of_cells : ∀ xs ys : List Cell, cellsToJson xs = cellsToJson ys → xs = ys
  | [], [], _ => rfl
  | x :: xs, y :: ys, h => by
      obtain ⟨hx, hxs⟩ := List.cons.inj h
      rw [x.eq_of_toJson y hx, eq_of_cells xs ys hxs]
termination_by structural a => a

end

/-! ## Metadata -/

mutual

theorem MetaValue.eq_of_ctorIdx :
    ∀ a b : MetaValue, a.ctorIdx = b.ctorIdx → a.toJson = b.toJson → a = b
  | .map x, .map y, _ => fun h =>
    congrArg MetaValue.map (eq_of_entries x y (Json.obj.inj (tagged_inj h)))
  | .list x, .list y, _ => fun h => congrArg MetaValue.list (eq_of_values x y (list_inj h))
  | .bool _, .bool _, _ => fun h => congrArg MetaValue.bool (Json.bool.inj (tagged_inj h))
  | .string _, .string _, _ => fun h => congrArg MetaValue.string (Json.str.inj (tagged_inj h))
  | .inlines x, .inlines y, _ => fun h =>
    congrArg MetaValue.inlines (eq_of_inlines x y (list_inj h))
  | .blocks x, .blocks y, _ => fun h => congrArg MetaValue.blocks (eq_of_blocks x y (list_inj h))
termination_by structural a => a

theorem eq_of_entries :
    ∀ xs ys : List (String × MetaValue), entriesToJson xs = entriesToJson ys → xs = ys
  | [], [], _ => rfl
  | (key, x) :: xs, (key', y) :: ys, h => by
      obtain ⟨hentry, hxs⟩ := List.cons.inj h
      obtain ⟨hkey, hx⟩ := Prod.mk.inj hentry
      rw [hkey, x.eq_of_ctorIdx y (MetaValue.ctorIdx_eq hx) hx, eq_of_entries xs ys hxs]
termination_by structural a => a

theorem eq_of_values : ∀ xs ys : List MetaValue, valuesToJson xs = valuesToJson ys → xs = ys
  | [], [], _ => rfl
  | x :: xs, y :: ys, h => by
      obtain ⟨hx, hxs⟩ := List.cons.inj h
      rw [x.eq_of_ctorIdx y (MetaValue.ctorIdx_eq hx) hx, eq_of_values xs ys hxs]
termination_by structural a => a

end

theorem Inline.toJson_injective : Function.Injective Inline.toJson :=
  fun a b h => a.eq_of_ctorIdx b (ctorIdx_eq h) h

theorem Block.toJson_injective : Function.Injective Block.toJson :=
  fun a b h => a.eq_of_ctorIdx b (ctorIdx_eq h) h

theorem MetaValue.toJson_injective : Function.Injective MetaValue.toJson :=
  fun a b h => a.eq_of_ctorIdx b (ctorIdx_eq h) h

theorem Document.toJson_injective : Function.Injective Document.toJson := by
  rintro ⟨version, metadata, blocks⟩ ⟨version', metadata', blocks'⟩ h
  simp only [toJson, Json.obj.injEq, List.cons.injEq, Prod.mk.injEq, Json.arr.injEq, true_and,
    and_true] at h
  obtain ⟨hversion, hmetadata, hblocks⟩ := h
  rw [ApiVersion.toJson_injective hversion, eq_of_entries metadata metadata' hmetadata,
    eq_of_blocks blocks blocks' hblocks]

/-! ## Texts -/

/-- Of the values in which every width can be written, no two have one compact text. -/
def DeterminedByText {α : Type} (toJson : α → Json) (widths : α → List Float) : Prop :=
  ∀ a b, (∀ width ∈ widths a, Decimal.IsFinite width) →
    (∀ width ∈ widths b, Decimal.IsFinite width) →
    (toJson a).compact = (toJson b).compact → a = b

theorem DeterminedByText.of_injective {α : Type} {toJson : α → Json} {widths : α → List Float}
    (h : Function.Injective toJson) (hwidths : ∀ a, (toJson a).doubles = widths a) :
    DeterminedByText toJson widths := by
  intro a b ha hb htext
  rw [← hwidths] at ha hb
  exact h (Json.compact_injective (Json.finite_of_doubles ha) (Json.finite_of_doubles hb) htext)

/-- The text of a value of the document model determines the value, with all that is in it. -/
theorem determined_by_text :
    DeterminedByText Document.toJson Document.widths ∧
    DeterminedByText MetaValue.toJson MetaValue.widths ∧
    DeterminedByText Block.toJson Block.widths ∧
    DeterminedByText Inline.toJson Inline.widths ∧
    DeterminedByText Citation.toJson Citation.widths ∧
    DeterminedByText Definition.toJson Definition.widths ∧
    DeterminedByText Caption.toJson Caption.widths ∧
    DeterminedByText Table.toJson Table.widths ∧
    DeterminedByText ColSpec.toJson ColSpec.widths ∧
    DeterminedByText TableSection.toJson TableSection.widths ∧
    DeterminedByText TableBody.toJson TableBody.widths ∧
    DeterminedByText Row.toJson Row.widths ∧
    DeterminedByText Cell.toJson Cell.widths ∧
    DeterminedByText Attr.toJson (fun _ => []) ∧
    DeterminedByText Target.toJson (fun _ => []) ∧
    DeterminedByText ListAttributes.toJson (fun _ => []) :=
  ⟨.of_injective Document.toJson_injective Document.doubles_toJson,
    .of_injective MetaValue.toJson_injective MetaValue.doubles_toJson,
    .of_injective Block.toJson_injective Block.doubles_toJson,
    .of_injective Inline.toJson_injective Inline.doubles_toJson,
    .of_injective Citation.eq_of_toJson Citation.doubles_toJson,
    .of_injective Definition.eq_of_toJson Definition.doubles_toJson,
    .of_injective Caption.eq_of_toJson Caption.doubles_toJson,
    .of_injective Table.eq_of_toJson Table.doubles_toJson,
    .of_injective ColSpec.toJson_injective ColSpec.doubles_toJson,
    .of_injective TableSection.eq_of_toJson TableSection.doubles_toJson,
    .of_injective TableBody.eq_of_toJson TableBody.doubles_toJson,
    .of_injective Row.eq_of_toJson Row.doubles_toJson,
    .of_injective Cell.eq_of_toJson Cell.doubles_toJson,
    .of_injective Attr.toJson_injective Attr.doubles_toJson,
    .of_injective Target.toJson_injective Target.doubles_toJson,
    .of_injective ListAttributes.toJson_injective ListAttributes.doubles_toJson⟩

/-- A table in a footnote, once without a short caption and once with an empty one. -/
theorem determined_by_text_short_caption :
    let table (short : Option (List Inline)) : Table :=
      ⟨{}, ⟨short, []⟩, [⟨.left, .fraction 0.25⟩, ⟨.right, .unset⟩], ⟨{}, []⟩, [], ⟨{}, []⟩⟩
    let block (short : Option (List Inline)) : Block := .para [.note [.table (table short)]]
    (block none).widths = [0.25] ∧ (block (some [])).widths = [0.25] ∧ Decimal.IsFinite 0.25 ∧
      (block none).toJson.compact ≠ (block (some [])).toJson.compact := by
  intro table block
  have hquarter : Decimal.IsFinite 0.25 := ⟨false, 0x3FD0000000000000, rfl⟩
  have hfinite (short : Option (List Inline)) (h : (block short).widths = [0.25]) :
      ∀ width ∈ (block short).widths, Decimal.IsFinite width := by
    rw [h]
    exact List.forall_mem_singleton.mpr hquarter
  refine ⟨rfl, rfl, hquarter, fun htext => ?_⟩
  cases determined_by_text.2.2.1 _ _ (hfinite none rfl) (hfinite (some []) rfl) htext

end RichDoc.Pandoc
