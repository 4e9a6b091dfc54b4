import RichDoc.Document.Written
import RichDoc.Proofs.Json.ReadBack

/-!
# Documents are read back

A node is written as an object in which fields may be missing: no content
and no marks are not written, nor is an absent text. What is missing is
read as empty or absent again, and a text that is there is written even
if it is empty, so from its text a node reads as itself
(`Node.recovers_read`). Each level of nodes takes two levels of brackets,
one for the node and one for the list that it stands in.
-/

namespace RichDoc

open Json (ExactMembers Gathers Reader EndsValue StartsValue itemsDepth membersDepth)

/-! ## Records -/

namespace Json

variable {α : Type} {reader : Reader α} {x : α} {written : Json}

theorem recovers_text (text : String) : Json.text.Recovers text (.str text) := by
  intro rest _
  rw [compactChars, quote, List.cons_append, List.append_assoc]
  exact (reads_peek (by decide)).bind ((reads_advance _ _).bind (reads_string text rest))

/-- A field that was not there before. -/
theorem reads_field (name : String) (h : reader.Recovers x written) {rest : List Char}
    (hrest : EndsValue rest) :
    (field name none reader).Reads (':' :: (written.compactChars ++ rest)) (some x) rest :=
  (reads_colon _).bind ((h rest hrest).map some)

theorem recovers_listOf {xs : List α} {items : List Json} (h : reader.RecoversItems xs items) :
    (listOf (some reader)).Recovers xs (.arr items) := by
  intro rest _
  rw [compactChars, List.cons_append, List.append_assoc]
  exact (reads_peek (by decide)).bind ((reads_advance _ _).bind (reads_items rest h))

/-- A record that was written with its fields named. -/
theorem recovers_record {expected : String} {forms : RecordForms α} {members : Attributes}
    (h : ∀ rest, forms.named.Reads (compactMembers members ++ '\x7d' :: rest) x rest) :
    (record expected (some forms)).Recovers x (.obj members) := by
  intro rest _
  rw [compactChars, List.cons_append, List.append_assoc]
  exact (reads_peek (by decide)).bind ((reads_advance _ _).bind (h rest))

theorem startsValue_obj (members : Attributes) : StartsValue (Json.obj members).compactChars :=
  ⟨'\x7b', _, rfl, rfl, by decide⟩

theorem membersDepth_append (members others : Attributes) :
    membersDepth (members ++ others) = max (membersDepth members) (membersDepth others) := by
  induction members with
  | nil => exact (Nat.zero_max _).symm
  | cons member rest ih => rw [List.cons_append, membersDepth, ih, membersDepth, Nat.max_assoc]

end Json

/-! ## Marks -/

namespace Mark

def Exact (mark : Mark) : Prop := ExactMembers mark.attrs

theorem recovers_read {mark : Mark} (h : mark.Exact) {depth : Nat}
    (hdepth : mark.toJson.depth ≤ depth) : (read depth).Recovers mark mark.toJson := by
  obtain ⟨type, attrs⟩ := mark
  cases depth with
  | zero => cases hdepth
  | succ depth =>
      have hattrs : (Json.obj attrs).depth ≤ depth := by
        simp only [toJson, Json.depth, membersDepth] at hdepth ⊢
        omega
      have hgathers : Gathers (readMember depth) {} [("type", .str type), ("attrs", .obj attrs)]
          ⟨some type, some attrs⟩ :=
        .cons (fun rest hrest => (Json.reads_field "type" (Json.recovers_text type) hrest).bind
            (Json.reads_pure _ _))
          (.cons (fun rest hrest => (Json.reads_field "attrs"
            (Json.recovers_attributes h hattrs) hrest).bind (Json.reads_pure _ _)) (.nil _))
      exact Json.recovers_record fun rest => (Json.reads_members rest hgathers).bind
        ((Json.reads_pure _ _).bind (Json.reads_pure _ _))

end Mark

/-! ## Nodes -/

namespace Node

mutual

/-- The attributes of the node, of its marks and of all nodes below it can be read back. -/
def Exact : Node → Prop
  | ⟨_, attrs, content, marks, _⟩ =>
    ExactMembers attrs ∧ ExactNodes content ∧ ∀ mark ∈ marks, mark.Exact

def ExactNodes : List Node → Prop
  | [] => True
  | node :: rest => node.Exact ∧ ExactNodes rest

end

/-- What the field of a list is when it has been read or was left out. -/
def listed {α : Type} (items : List α) : Option (List α) :=
  if items.isEmpty then none else some items

theorem getD_listed {α : Type} (items : List α) : (listed items).getD [] = items := by
  cases items <;> rfl

section Fields

variable {depth : Nat} {child : Reader (List Node)} {fields : Fields}

theorem gathers_type_attrs (type : String) {attrs : Attributes} (h : ExactMembers attrs)
    (hdepth : (Json.obj attrs).depth ≤ depth) :
    Gathers (readMember depth child) {} [("type", .str type), ("attrs", .obj attrs)]
      { type := some type, attrs := some attrs } :=
  .cons (fun _ hrest => (Json.reads_field "type" (Json.recovers_text type) hrest).bind
      (Json.reads_pure _ _))
    (.cons (fun _ hrest => (Json.reads_field "attrs" (Json.recovers_attributes h hdepth) hrest).bind
      (Json.reads_pure _ _)) (.nil _))

theorem gathers_content {content : List Node} {written : List Json}
    (h : child.Recovers content (.arr written)) (hlength : content.length = written.length)
    (hnew : fields.content = none) :
    Gathers (readMember depth child) fields (listField "content" written)
      { fields with content := listed content } := by
  obtain ⟨type, attrs, _, marks, text⟩ := fields
  cases hnew
  match content, written, hlength with
  | [], [], _ => exact .nil _
  | node :: rest, json :: more, _ =>
      exact .cons (fun _ hrest => (Json.reads_field "content" h hrest).bind (Json.reads_pure _ _))
        (.nil _)

theorem gathers_marks {marks : List Mark}
    (h : (readMarks depth).Recovers marks (.arr (marks.map Mark.toJson)))
    (hnew : fields.marks = none) :
    Gathers (readMember depth child) fields (listField "marks" (marks.map Mark.toJson))
      { fields with marks := listed marks } := by
  obtain ⟨type, attrs, content, _, text⟩ := fields
  cases hnew
  cases marks with
  | nil => exact .nil _
  | cons mark rest =>
      exact .cons (fun _ hrest => (Json.reads_field "marks" h hrest).bind (Json.reads_pure _ _))
        (.nil _)

theorem recovers_readText (text : String) : readText.Recovers (some text) (.str text) := by
  intro rest hrest
  have htext := Json.recovers_text text rest hrest
  rw [Json.compactChars, Json.quote, List.cons_append] at htext ⊢
  exact (Json.reads_peek (by decide)).bind (htext.map some)

/-- A text is written if there is one, be it empty. -/
theorem gathers_text (text : Option String) (hnew : fields.text = none) :
    Gathers (readMember depth child) fields (text.map fun t => ("text", Json.str t)).toList
      { fields with text := text.map some } := by
  obtain ⟨type, attrs, content, marks, _⟩ := fields
  cases hnew
  cases text with
  | none => exact .nil _
  | some text =>
      exact .cons (fun _ hrest => (Json.reads_field "text" (recovers_readText text) hrest).bind
        (Json.reads_pure _ _)) (.nil _)

end Fields

/-- The items of a field lie two levels below the object, if there are any. -/
theorem itemsDepth_le_of_listField (name : String) {items : List Json} {depth : Nat}
    (h : membersDepth (listField name items) ≤ depth + 1) : itemsDepth items ≤ depth := by
  cases items with
  | nil => exact Nat.zero_le _
  | cons item rest => exact Nat.le_of_succ_le_succ (Nat.max_le.mp h).1

theorem recovers_marks {marks : List Mark} (h : ∀ mark ∈ marks, mark.Exact) {depth : Nat}
    (hdepth : itemsDepth (marks.map Mark.toJson) ≤ depth) :
    (Mark.read depth).RecoversItems marks (marks.map Mark.toJson) := by
  induction marks with
  | nil => exact .nil
  | cons mark rest ih =>
      obtain ⟨hmark, hrest⟩ := List.forall_mem_cons.mp h
      obtain ⟨hfirst, hmore⟩ := Nat.max_le.mp hdepth
      exact .cons ⟨Json.startsValue_obj _, Mark.recovers_read hmark hfirst⟩ (ih hrest hmore)

theorem length_toJsons (nodes : List Node) : (toJsons nodes).length = nodes.length := by
  induction nodes with
  | nil => rfl
  | cons node rest ih => rw [toJsons, List.length_cons, List.length_cons, ih]

mutual

theorem recovers_read : ∀ node : Node, node.Exact → ∀ depth, node.toJson.depth ≤ depth →
    (read depth).Recovers node node.toJson
  | ⟨type, attrs, content, marks, text⟩, ⟨hattrs, hcontent, hmarks⟩, depth, hdepth => by
      simp only [toJson, Json.depth, Json.membersDepth_append, membersDepth] at hdepth
      obtain ⟨depth, rfl⟩ : ∃ d, depth = d + 2 := ⟨depth - 2, by omega⟩
      have hcontentDepth : itemsDepth (toJsons content) ≤ depth :=
        itemsDepth_le_of_listField "content" (by omega)
      have hmarksDepth : itemsDepth (marks.map Mark.toJson) ≤ depth :=
        itemsDepth_le_of_listField "marks" (by omega)
      have hattrsDepth : (Json.obj attrs).depth ≤ depth + 1 := by
        rw [Json.depth]
        omega
      have hnodes := recovers_nodes content hcontent depth hcontentDepth
      have hfields := (((gathers_type_attrs type hattrs hattrsDepth).append
        (gathers_content (Json.recovers_listOf hnodes) (length_toJsons content).symm rfl)).append
        (gathers_marks (Json.recovers_listOf (recovers_marks hmarks hmarksDepth)) rfl)).append
        (gathers_text text rfl)
      rw [toJson]
      refine Json.recovers_record fun rest => (Json.reads_members rest hfields).bind
        ((Json.reads_pure _ _).bind ?_)
      have htext : (text.map some).getD none = text := by cases text <;> rfl
      simp only [Option.getD_some, getD_listed, htext]
      exact Json.reads_pure _ _

theorem recovers_nodes : ∀ nodes : List Node, ExactNodes nodes →
    ∀ depth, itemsDepth (toJsons nodes) ≤ depth → (read depth).RecoversItems nodes (toJsons nodes)
  | [], _, _, _ => .nil
  | node :: rest, h, depth, hdepth => by
      obtain ⟨hnode, hrest⟩ := Nat.max_le.mp hdepth
      refine .cons ⟨?_, recovers_read node h.1 depth hnode⟩ (recovers_nodes rest h.2 depth hrest)
      cases node
      exact Json.startsValue_obj _

end

/-- A node is read back from its text, if the text is not nested deeper than a reader goes. -/
theorem ofText_write {node : Node} (h : node.Exact)
    (hdepth : node.toJson.depth ≤ Json.maxNesting) : ofText node.write = .ok node := by
  have hread := recovers_read node h _ hdepth [] Json.endsValue_nil
  rw [List.append_nil] at hread
  have hrun : StateT.run (read Json.maxNesting) node.write.toList = .ok (node, []) := by
    rw [write, Json.compact, String.toList_ofList]
    exact hread
  unfold ofText Json.Reader.run
  rw [hrun]
  rfl

/-- Empty and absent texts, a mark with attributes, and the largest numbers there are. -/
theorem ofText_write_paragraph :
    let attrs : Attributes := [("a", .int (-0x8000000000000000)),
      ("b", .arr [.obj [("\n\"é", .int 0xFFFFFFFFFFFFFFFF), ("é", .null)], .bool false])]
    let node : Node := ⟨"paragraph", attrs, [⟨"text", [], [], [⟨"link", attrs⟩], some ""⟩,
      ⟨"text", [], [], [], none⟩], [], none⟩
    node.Exact ∧ node.toJson.depth ≤ Json.maxNesting ∧ ofText node.write = .ok node := by
  intro attrs node
  have hattrs : ExactMembers attrs :=
    ⟨⟨by decide, by decide⟩, by decide, ⟨⟨⟨by decide, by decide⟩, by decide, trivial, nofun, trivial⟩, trivial,
      trivial⟩, nofun, trivial⟩
  have hexact : node.Exact :=
    ⟨hattrs, ⟨⟨trivial, trivial, List.forall_mem_singleton.mpr hattrs⟩,
      ⟨trivial, trivial, nofun⟩, trivial⟩, nofun⟩
  have hdepth : node.toJson.depth ≤ Json.maxNesting := by decide
  exact ⟨hexact, hdepth, ofText_write hexact hdepth⟩

end Node

end RichDoc
