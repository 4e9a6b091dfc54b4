import RichDoc.Mark.Registry

/-!
# Mark priority

Where the ranges of two marks cross, the range of the mark with the lower
priority is cut, and where two ranges have the same extent, the mark with
the higher priority is the inner one. A priority ranks marks; of two
marks of equal rank the one that was registered first is higher. The
order can be replaced as a whole as well.
-/

namespace RichDoc

structure Priority where
  rank : Entry → Nat
  compare : Entry → Entry → Ordering

/-- The tiers of the standard priority, lowest first. -/
inductive Tier where
  | plainWrapper
  | customStyle
  | quotation
  | math
  | span
  | link
  | code
  | citation
  | identified
deriving DecidableEq, Repr

namespace Tier

def rank : Tier → Nat
  | plainWrapper => 0
  | customStyle => 1
  | quotation => 2
  | math => 3
  | span => 4
  | link => 5
  | code => 6
  | citation => 7
  | identified => 8

def ofContainer (container : Container) : Tier :=
  match container with
  | .emph | .underline | .strong | .strikeout | .superscript | .subscript | .smallCaps =>
    plainWrapper
  | .span _ => if container.isCustomStyle then customStyle else span
  | .quoted _ => quotation
  | .math _ => math
  | .link _ _ => link
  | .code _ => code
  | .cite _ => citation

/-- A mark with an identifier stands above all others, whatever it turns into. -/
def ofEntry (entry : Entry) : Tier :=
  if entry.hasId then identified else ofContainer entry.container

end Tier

namespace Priority

/-- Order by rank; of equal ranks, the entry registered first is higher. -/
def earlierHigher (rank : Entry → Nat) (a b : Entry) : Ordering :=
  (Ord.compare (rank a) (rank b)).then (Ord.compare b.index a.index)

/-- Order by rank; of equal ranks, the entry registered last is higher. -/
def laterHigher (rank : Entry → Nat) (a b : Entry) : Ordering :=
  (Ord.compare (rank a) (rank b)).then (Ord.compare a.index b.index)

/-- The priority of a ranking. -/
def ofRank (rank : Entry → Nat) : Priority := ⟨rank, earlierHigher rank⟩

def tierRank (entry : Entry) : Nat := (Tier.ofEntry entry).rank

/-- Priority by tier. -/
def standard : Priority := ofRank tierRank

/-- The tiers upside down. -/
def inverted : Priority := ofRank fun entry => 8 - tierRank entry

/-- Order of registration alone. -/
def flat : Priority := ofRank fun _ => 0

/-- Tiers in their order, with the later of two equals on top. -/
def later : Priority := ⟨tierRank, laterHigher tierRank⟩

/-- No mark above any other. -/
def level : Priority := ⟨fun _ => 0, fun _ _ => .eq⟩

/-- Ranks by mark type, with nothing for the types that are not listed. -/
def ofTable (ranks : List (String × Nat)) : Priority :=
  ofRank fun entry => (ranks.lookup entry.mark.type).getD 0

end Priority

/-- The order of two registered marks by their indexes. -/
def Registry.compare (registry : Registry) (priority : Priority) (a b : Nat) : Ordering :=
  match registry.entry? a, registry.entry? b with
  | some a, some b => priority.compare a b
  | _, _ => .eq

end RichDoc
