import RichDoc.Proofs.Export.Row

/-!
# Verdicts on nodes

A conversion that belongs to a node says yes or no to something about the
node, and a no comes with an error. `Export.Decides` says both at once: the
conversion succeeds only if the statement holds, an error other than the
one of an untangling that was stopped means that it does not hold, and
every error is about the node or a node below it (`ExportError.About`).
Like steadiness this is kept by everything that conversions are put
together with.
-/

namespace RichDoc

/-- The text of a path whose last step comes first. -/
def pathText (path : List String) : String := "/".intercalate path.reverse

/-- The step from a node to one of its children. -/
def pathStep (index : Nat) (type : String) : String := toString index ++ ":" ++ type

/-- The error arose at the node, which has the path, or at a node below it. -/
inductive ExportError.About (priority : Priority) : List String → Node → ExportError → Prop where
  /-- The node's own type is unknown. -/
  | unknown {path node} (unknown : node.kind? = none) :
      About priority path node (.unknownNodeType node.type (pathText path))
  /-- The type is known, but the node or what it holds is out of place. -/
  | structural {path node kind} (message : String) (known : node.kind? = some kind) :
      About priority path node (.structural (pathText path) message)
  /-- Ranges with positions in them could not be untangled. -/
  | diverged {path node registry ranges cause}
      (nonempty : ∀ range ∈ ranges, range.start < range.stop)
      (stopped : untangle (Registry.compare registry priority) ranges = .error cause) :
      About priority path node (.diverged cause)
  | inside {path node kind index child error} (known : node.kind? = some kind)
      (child_mem : node.content[index]? = some child)
      (about : About priority (pathStep index child.type :: path) child error) :
      About priority path node error

theorem ExportError.About.exists_ranges {priority : Priority} {path : List String} {node : Node}
    {cause : Diverged} (h : About priority path node (.diverged cause)) :
    ∃ (registry : Registry) (ranges : List MarkRange),
      (∀ range ∈ ranges, range.start < range.stop) ∧
        untangle (registry.compare priority) ranges = .error cause := by
  generalize herror : ExportError.diverged cause = error at h
  induction h with
  | unknown => cases herror
  | structural => cases herror
  | diverged nonempty stopped =>
      cases herror
      exact ⟨_, _, nonempty, stopped⟩
  | inside _ _ _ ih => exact ih herror

namespace Export

variable {α β : Type} {environment : Environment} {progress progress' : Progress} {node : Node}
  {kind : NodeKind} {P Q : Prop}

/-- What the outcome of a conversion says about a node and a statement about it. -/
def Judges (priority : Priority) (path : List String) (node : Node) (P : Prop) :
    Except ExportError α → Prop
  | .ok _ => P
  | .error error =>
    error.About priority path node ∧ ((∀ cause, error ≠ .diverged cause) → ¬ P)

/-- The conversion is steady, and its outcome tells whether the statement about the node holds. -/
structure Decides (convert : Export α) (node : Node) (P : Prop) : Prop where
  steady : convert.Steady
  judges : ∀ environment (progress : Progress), Judges environment.priority progress.path node P
    (convert.runFrom environment progress).1

namespace Decides

variable {convert : Export α} {next : α → Export β}

theorem congr (h : convert.Decides node P) (hPQ : P ↔ Q) : convert.Decides node Q := by
  rwa [← hPQ]

theorem about (h : convert.Decides node P) {error : ExportError}
    (hrun : convert.runFrom environment progress = (.error error, progress')) :
    error.About environment.priority progress.path node := by
  have := h.judges environment progress
  rw [hrun] at this
  exact this.1

theorem pure (x : α) (holds : P) : (Pure.pure x : Export α).Decides node P :=
  ⟨steady_pure x, fun _ _ => holds⟩

/-- The second part need only decide after results that the first one can have. -/
theorem bind_of_yields {R : α → Prop} (h : convert.Decides node P) (hR : convert.Yields R)
    (hn : ∀ x, R x → (next x).Decides node Q) : (convert >>= next).Decides node (P ∧ Q) := by
  refine ⟨h.steady.bind_of_yields hR fun x hx => (hn x hx).steady, ?_⟩
  intro environment progress
  have hfirst := h.judges environment progress
  rcases hc : convert.runFrom environment progress with ⟨error | x, between⟩
  · rw [hc] at hfirst
    rw [runFrom_bind_error hc]
    exact ⟨hfirst.1, fun hsure hboth => hfirst.2 hsure hboth.1⟩
  · rw [hc] at hfirst
    rw [runFrom_bind_ok hc, ← (h.steady.leads hc).path]
    have hsecond := (hn x (hR _ _ _ _ hc)).judges environment between
    cases hx : ((next x).runFrom environment between).1 with
    | ok y =>
        rw [hx] at hsecond
        exact ⟨hfirst, hsecond⟩
    | error error =>
        rw [hx] at hsecond
        exact ⟨hsecond.1, fun hsure hboth => hsecond.2 hsure hboth.2⟩

theorem bind (h : convert.Decides node P) (hn : ∀ x, (next x).Decides node Q) :
    (convert >>= next).Decides node (P ∧ Q) :=
  h.bind_of_yields (yields_true convert) fun x _ => hn x

/-- What follows without a verdict of its own does not matter. -/
theorem bind_pure (f : α → β) (h : convert.Decides node P) :
    (convert >>= fun x => Pure.pure (f x)).Decides node P :=
  (h.bind fun x => Decides.pure (f x) trivial).congr (and_iff_left trivial)

theorem map (f : α → β) (h : convert.Decides node P) : (f <$> convert).Decides node P := by
  rw [map_eq_pure_bind]
  exact h.bind_pure f

theorem of_succeeds (steady : convert.Steady) (succeeds : ∀ environment progress,
    ∃ x after, convert.runFrom environment progress = (.ok x, after)) :
    convert.Decides node True := by
  refine ⟨steady, fun environment progress => ?_⟩
  obtain ⟨x, after, hrun⟩ := succeeds environment progress
  rw [hrun]
  trivial

/-- A child's conversion, with the child on the path, decides as much about the node. -/
theorem descend {child : Node} {index : Nat} (h : convert.Decides child P)
    (known : node.kind? = some kind) (hchild : node.content[index]? = some child) :
    (Export.descend index child.type convert).Decides node P := by
  refine ⟨h.steady.descend index child.type, ?_⟩
  intro environment progress
  have hinner := h.judges environment (enter index child.type progress)
  rw [runFrom_descend]
  cases hx : (convert.runFrom environment (enter index child.type progress)).1 with
  | ok x =>
      rw [hx] at hinner
      exact hinner
  | error error =>
      rw [hx] at hinner
      exact ⟨.inside known hchild hinner.1, hinner.2⟩

end Decides

theorem decides_structural (known : node.kind? = some kind) (message : String) (fails : ¬ P) :
    (structural message : Export α).Decides node P :=
  ⟨steady_structural message, fun _ _ => ⟨.structural message known, fun _ => fails⟩⟩

/-- Nothing is done after an error. -/
theorem decides_structural_bind (known : node.kind? = some kind) (message : String)
    (next : α → Export β) (fails : ¬ P) : (structural message >>= next).Decides node P := by
  have hrun (environment : Environment) (progress : Progress) :
      (structural message >>= next).runFrom environment progress =
        (.error (.structural (pathText progress.path) message), progress) :=
    runFrom_bind_error rfl
  refine ⟨fun environment progress => ?_, fun environment progress => ?_⟩
  · rw [hrun]
    exact .refl progress
  · rw [hrun]
    exact ⟨.structural message known, fun _ => fails⟩

/-- A conversion that begins with the type of its node decides what it does for each type. -/
theorem decides_kindOf {next : NodeKind → Export α} (unknown : node.kind? = none → ¬ P)
    (hn : ∀ kind, node.kind? = some kind → (next kind).Decides node P) :
    (kindOf node >>= next).Decides node P := by
  cases hkind : node.kind? with
  | some kind =>
      have hsame : kindOf node >>= next = next kind := by
        unfold kindOf
        rw [hkind]
        rfl
      rw [hsame]
      exact hn kind hkind
  | none =>
      have hrun (environment : Environment) (progress : Progress) :
          (kindOf node >>= next).runFrom environment progress =
            (.error (.unknownNodeType node.type (pathText progress.path)), progress) := by
        refine runFrom_bind_error ?_
        unfold kindOf
        rw [hkind]
        rfl
      refine ⟨fun environment progress => ?_, fun environment progress => ?_⟩
      · rw [hrun]
        exact .refl progress
      · rw [hrun]
        exact ⟨.unknown hkind, fun _ => unknown hkind⟩

/-! ## Children -/

theorem child_of_drop {nodes : List Node} {child : Node} {rest : List Node} {index : Nat}
    (h : nodes.drop index = child :: rest) :
    nodes[index]? = some child ∧ nodes.drop (index + 1) = rest := by
  constructor
  · rw [← Nat.add_zero index, ← List.getElem?_drop, h]
    rfl
  · rw [← List.tail_drop, h]
    rfl

/-- If each child decides something about itself in its place, the children from one on decide it
for all of them. -/
theorem decides_eachChildFrom {convert : Nat → Prepared → Export α} {P : Nat → Node → Prop}
    (known : node.kind? = some kind)
    (h : ∀ i child, node.content[i]? = some child →
      (convert i (Prepared.ofNode child)).Decides child (P i child)) (index : Nat) :
    (eachChildFrom convert index (Prepared.ofNodes (node.content.drop index))).Decides node
      (∀ i ≥ index, ∀ child, node.content[i]? = some child → P i child) := by
  generalize hnodes : node.content.drop index = nodes
  induction nodes generalizing index with
  | nil =>
      have hlength := List.drop_eq_nil_iff.mp hnodes
      refine .pure [] ?_
      intro i hi child hchild
      rw [List.getElem?_eq_none (hlength.trans hi)] at hchild
      cases hchild
  | cons child rest ih =>
      obtain ⟨hchild, hrest⟩ := child_of_drop hnodes
      have hfirst := (h index child hchild).descend known hchild
      have hothers := ih (index + 1) hrest
      rw [Prepared.ofNodes, eachChildFrom, Prepared.node_ofNode]
      refine (hfirst.bind fun x => hothers.bind_pure (x :: ·)).congr ?_
      constructor
      · rintro ⟨hP, hall⟩ i hi other hother
        rcases Nat.eq_or_lt_of_le hi with rfl | hlt
        · rw [hchild] at hother
          cases hother
          exact hP
        · exact hall i hlt other hother
      · intro hall
        exact ⟨hall index (Nat.le_refl _) child hchild, fun i hi => hall i (by omega)⟩

theorem decides_eachChild_placed {convert : Nat → Prepared → Export α} {P : Nat → Node → Prop}
    (known : node.kind? = some kind)
    (h : ∀ i child, node.content[i]? = some child →
      (convert i (Prepared.ofNode child)).Decides child (P i child)) :
    (eachChild convert (Prepared.ofNodes node.content)).Decides node
      (∀ i child, node.content[i]? = some child → P i child) :=
  (decides_eachChildFrom known h 0).congr
    ⟨fun hall i => hall i (Nat.zero_le i), fun hall i _ => hall i⟩

theorem decides_eachChild {convert : Nat → Prepared → Export α} {P : Node → Prop}
    (known : node.kind? = some kind)
    (h : ∀ i, ∀ child ∈ node.content, (convert i (Prepared.ofNode child)).Decides child (P child)) :
    (eachChild convert (Prepared.ofNodes node.content)).Decides node
      (∀ child ∈ node.content, P child) := by
  refine (decides_eachChild_placed (P := fun _ => P) known fun i child hchild =>
    h i child (List.mem_of_getElem? hchild)).congr ?_
  constructor
  · intro hall child hmem
    obtain ⟨i, hi⟩ := List.getElem?_of_mem hmem
    exact hall i child hi
  · intro hall i child hchild
    exact hall child (List.mem_of_getElem? hchild)

/-- Children that give results give one each, with what holds of each of them. -/
theorem forall₂_of_eachChildFrom {convert : Nat → Prepared → Export α} {R : Node → α → Prop}
    {nodes : List Node}
    (h : ∀ i, ∀ child ∈ nodes, (convert i (Prepared.ofNode child)).Yields (R child))
    (index : Nat) :
    (eachChildFrom convert index (Prepared.ofNodes nodes)).Yields (List.Forall₂ R nodes) := by
  induction nodes generalizing index with
  | nil => exact yields_pure .nil
  | cons child rest ih =>
      obtain ⟨hchild, hrest⟩ := forall_and.mp fun i => List.forall_mem_cons.mp (h i)
      rw [Prepared.ofNodes]
      exact ((hchild index).descend _ _).bind fun _ hx =>
        (ih hrest (index + 1)).bind fun _ hxs => yields_pure (.cons hx hxs)

theorem forall_mem_iff_of_forall₂ {p : α → Prop} {q : β → Prop} {as : List α} {bs : List β}
    (h : List.Forall₂ (fun a b => p a ↔ q b) as bs) : (∀ a ∈ as, p a) ↔ ∀ b ∈ bs, q b := by
  induction h with
  | nil => simp
  | cons hfirst _ ih => rw [List.forall_mem_cons, List.forall_mem_cons, hfirst, ih]

end Export

end RichDoc
