import Mathlib.Data.List.Forall2
import RichDoc.Proofs.Export.Row

/-!
# Children that are converted one after the other

A converter goes through the children of a node and hands the progress of
one on to the next. What it has done is a chain of conversions, each with
its child on the path (`inTurn_of_eachChildFrom`). What holds of a child
once it was converted, and of the progress from then on, holds of all
children in the end (`InTurn.forall_mem`).
-/

namespace RichDoc

/-- Each item has its result and leaves a state to the next one. -/
inductive InTurn {σ α β : Type} (step : α → σ → β → σ → Prop) : σ → List α → List β → σ → Prop where
  | nil (s : σ) : InTurn step s [] [] s
  | cons {s t u : σ} {x : α} {xs : List α} {y : β} {ys : List β} (first : step x s y t)
      (rest : InTurn step t xs ys u) : InTurn step s (x :: xs) (y :: ys) u

namespace InTurn

variable {σ α β γ : Type} {step : α → σ → β → σ → Prop} {s t : σ} {xs : List α} {ys : List β}

theorem map {step' : α → σ → γ → σ → Prop} {f : β → γ}
    (h : ∀ x s y t, step x s y t → step' x s (f y) t) (hrun : InTurn step s xs ys t) :
    InTurn step' s xs (ys.map f) t := by
  induction hrun with
  | nil s => exact .nil s
  | cons first _ ih => exact .cons (h _ _ _ _ first) ih

theorem forall₂ {R : α → β → Prop} (h : ∀ x s y t, step x s y t → R x y)
    (hrun : InTurn step s xs ys t) : List.Forall₂ R xs ys := by
  induction hrun with
  | nil => exact .nil
  | cons first _ ih => exact .cons (h _ _ _ _ first) ih

/-- What every step keeps is kept. -/
theorem keeps {Q : σ → Prop} (hkeep : ∀ x s y t, step x s y t → Q s → Q t)
    (hrun : InTurn step s xs ys t) (hs : Q s) : Q t := by
  induction hrun with
  | nil s => exact hs
  | cons first _ ih => exact ih (hkeep _ _ _ _ first hs)

/-- What a step brings about for its item, and all others keep, holds of every item in the end. -/
theorem forall_mem {P : α → σ → Prop} (hfirst : ∀ x s y t, step x s y t → P x t)
    (hkeep : ∀ x s y t, step x s y t → ∀ z, P z s → P z t) (hrun : InTurn step s xs ys t) :
    ∀ x ∈ xs, P x t := by
  induction hrun with
  | nil s => exact nofun
  | cons first rest ih =>
      refine List.forall_mem_cons.mpr ⟨?_, ih⟩
      exact rest.keeps (fun x s y t hstep => hkeep x s y t hstep _) (hfirst _ _ _ _ first)

end InTurn

namespace Export

variable {α : Type} {environment : Environment} {before after : Progress} {node : Node}

theorem eachChildFrom_append (convert : Nat → Prepared → Export α) (index : Nat)
    (front rest : List Prepared) :
    eachChildFrom convert index (front ++ rest) = do
      let xs ← eachChildFrom convert index front
      let ys ← eachChildFrom convert (index + front.length) rest
      return xs ++ ys := by
  induction front generalizing index with
  | nil => simp [eachChildFrom]
  | cons child front ih =>
      simp only [List.cons_append, eachChildFrom, ih, bind_assoc, pure_bind, List.length_cons,
        Nat.add_assoc, Nat.add_comm 1]

/-- Children that were converted were converted in turn, each with itself on the path. -/
theorem inTurn_of_eachChildFrom {convert : Nat → Prepared → Export α} {nodes : List Node}
    {xs : List α} (index : Nat)
    (h : (eachChildFrom convert index (Prepared.ofNodes nodes)).runFrom environment before =
      (.ok xs, after)) :
    InTurn (fun (child : Node × Nat) s x t =>
      (descend child.2 child.1.type (convert child.2 (Prepared.ofNode child.1))).runFrom
        environment s = (.ok x, t)) before (nodes.zipIdx index) xs after := by
  induction nodes generalizing index before xs with
  | nil =>
      rw [Prepared.ofNodes] at h
      cases h
      exact .nil _
  | cons node rest ih =>
      rw [Prepared.ofNodes] at h
      obtain ⟨x, between, hfirst, h⟩ := runFrom_bind_eq_ok h
      obtain ⟨others, last, hrest, h⟩ := runFrom_bind_eq_ok h
      cases h
      rw [Prepared.node_ofNode] at hfirst
      exact .cons hfirst (ih (index + 1) hrest)

/-- A conversion that looks at the type of a node goes on from where it was. -/
theorem exists_kind_of_bind_kindOf {next : NodeKind → Export α} {x : α}
    (h : (kindOf node >>= next).runFrom environment before = (.ok x, after)) :
    ∃ kind, node.kind? = some kind ∧ (next kind).runFrom environment before = (.ok x, after) := by
  obtain ⟨kind, between, hkind, hnext⟩ := runFrom_bind_eq_ok h
  have known := kind?_of_kindOf hkind
  rw [runFrom_kindOf known] at hkind
  cases hkind
  exact ⟨kind, known, hnext⟩

end Export

end RichDoc
