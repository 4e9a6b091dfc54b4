/-!
# Lists sorted by key

A map with string keys is a list of pairs sorted by key, in the order of
code points, with no key twice.
-/

namespace RichDoc.Keyed

/-- Puts a value under a key: in its place when the key is new, in the
place of the old value when it is not. -/
def insert (key : String) (value : α) : List (String × α) → List (String × α)
  | [] => [(key, value)]
  | (k, v) :: rest =>
    if key < k then (key, value) :: (k, v) :: rest
    else if key = k then (key, value) :: rest
    else (k, v) :: insert key value rest

/-- The map of a list of pairs, in which a later pair replaces an earlier one. -/
def ofList (pairs : List (String × α)) : List (String × α) :=
  pairs.foldl (fun map (key, value) => insert key value map) []

end RichDoc.Keyed
