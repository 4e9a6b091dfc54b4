/-!
# TOML documents

A document is a tree of tables. It is written as a sequence of headers
and assignments, and where a table may be added to depends on how it came
about (`Origin`): a table is defined by one header at most, tables that
dotted keys made are not defined again by a header, and a table written
inline is complete as it stands.

A number may have the form of one and no value that fits. It does not
spoil the document; whoever looks at it finds it unusable.
-/

namespace RichDoc.Toml

/-- How a table came about. -/
inductive Origin where
  /-- By a header of its own, or as the root. -/
  | header
  /-- By a header of a table further down. -/
  | implied
  /-- By a dotted key. -/
  | dotted
  /-- Between braces. -/
  | inline
deriving DecidableEq, Repr

inductive Value where
  | string (text : String)
  | integer (value : Int)
  | boolean (value : Bool)
  | float (text : String)
  | datetime (text : String)
  /-- A number that is too large, or that names its base and has no digits. -/
  | unusable (text : String)
  /-- A list; the tables of repeated headers are one as well, and only those grow. -/
  | array (ofHeaders : Bool) (items : List Value)
  | table (origin : Origin) (members : List (String × Value))
deriving Repr, Inhabited

abbrev Members := List (String × Value)

mutual

/-- Every number in the value can be used. -/
def Value.isUsable : Value → Bool
  | .string _ | .integer _ | .boolean _ | .float _ | .datetime _ => true
  | .unusable _ => false
  | .array _ items => usableItems items
  | .table _ members => usableMembers members

def usableItems : List Value → Bool
  | [] => true
  | item :: rest => item.isUsable && usableItems rest

def usableMembers : List (String × Value) → Bool
  | [] => true
  | (_, value) :: rest => value.isUsable && usableMembers rest

end

/-- Puts another value in the place of the one under a key. -/
def Members.replace (key : String) (value : Value) (members : Members) : Members :=
  members.map fun (k, v) => if k = key then (k, value) else (k, v)

/-- Changes the table that a path of keys leads to, making tables where
there are none. A path through repeated headers leads to the last of
their tables. -/
def changeAt (dotted : Bool) (change : Origin → Members → Option Members) :
    List String → Origin → Members → Option Members
  | [], origin, members => change origin members
  | key :: path, _, members =>
    match members.lookup key with
    | none =>
      let origin : Origin := if dotted then .dotted else .implied
      (changeAt dotted change path origin []).map fun inner =>
        members ++ [(key, .table origin inner)]
    | some (.table origin inner) =>
      if origin = .inline || (dotted && origin = .header) then none
      else (changeAt dotted change path origin inner).map fun inner =>
        members.replace key (.table origin inner)
    | some (.array true items) =>
      match items.getLast? with
      | some (.table origin inner) =>
        (changeAt dotted change path origin inner).map fun inner =>
          members.replace key (.array true (items.dropLast ++ [.table origin inner]))
      | _ => none
    | some _ => none

/-- Defines the table of a header with the given last key. -/
def defineTable (key : String) (_ : Origin) (members : Members) : Option Members :=
  match members.lookup key with
  | none => some (members ++ [(key, .table .header [])])
  | some (.table .implied inner) => some (members.replace key (.table .header inner))
  | some _ => none

/-- Adds the table of a repeated header with the given last key. -/
def addTable (key : String) (_ : Origin) (members : Members) : Option Members :=
  match members.lookup key with
  | none => some (members ++ [(key, .array true [.table .header []])])
  | some (.array true items) =>
    some (members.replace key (.array true (items ++ [.table .header []])))
  | some _ => none

/-- Assigns a value to a dotted key, given as its path and its last part.
A longer key only adds to a table that dotted keys have made. -/
def assign (path : List String) (key : String) (value : Value) (origin : Origin)
    (members : Members) : Option Members :=
  changeAt true
    (fun origin members =>
      if (origin = .dotted) = path.isEmpty then none
      else if (members.lookup key).isSome then none
      else some (members ++ [(key, value)]))
    path origin members

end RichDoc.Toml
