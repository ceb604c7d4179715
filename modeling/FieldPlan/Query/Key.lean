import FieldPlan.Query.Basic
/-!
# Bracketed keys

A key of a query string is a name and any number of groups, as in `sums[users][orders]`. Pairs of
keys and values fold into nested parameters: each segment that is not empty opens a level, and a
plain value that meets a longer key is kept at its level under `primary`.
-/
namespace FieldPlan

structure QueryKey where
  name : String
  /-- the texts between the brackets -/
  groups : List String
  deriving DecidableEq, Repr

namespace QueryKey

def isBracket (c : Char) : Bool := c = '[' || c = ']'

/-- The groups that the characters spell. The first argument holds what has been read of a group
that is still open, last character first. A line break may end the last group's line. -/
def groupsOf : Option (List Char) → List Char → Option (List (List Char))
  | none, [] => some []
  | some _, [] => none
  | none, c :: rest =>
    if c = '[' then groupsOf (some []) rest
    else if c = '\n' ∧ rest = [] then some []
    else none
  | some group, c :: rest =>
    if c = '[' then none
    else if c = ']' then (groupsOf none rest).map (group.reverse :: ·)
    else groupsOf (some (c :: group)) rest

/-- The key that a text spells: a name without brackets, then groups. -/
def ofString? (s : String) : Option QueryKey :=
  let name := s.toList.takeWhile fun c => !isBracket c
  let rest := s.toList.dropWhile fun c => !isBracket c
  if name.isEmpty then none
  else (groupsOf none rest).map fun groups => ⟨String.ofList name, groups.map String.ofList⟩

/-- The segments below the name; empty groups are no segments. -/
def segments (k : QueryKey) : List String := k.groups.filter (· != "")

end QueryKey

namespace Parameters

/-- What is already at a segment, as the level below it. -/
def below (entries : Entries Json) (segment : String) : Entries Json :=
  match entries.get? segment with
  | some (.object inner) => inner
  | none | some .null => []
  | some plain => [(primary, plain)]

/-- Stores a value under a segment and the path below it. -/
def insert (value : Json) (entries : Entries Json) (segment : String) :
    List String → Entries Json
  | [] =>
    match entries.get? segment with
    | some (.object inner) => entries.set segment (.object (Entries.set primary value inner))
    | _ => entries.set segment value
  | next :: path =>
    entries.set segment (.object (insert value (below entries segment) next path))

/-- Folds pairs into nested parameters; pairs whose key is none are passed over. -/
def nest (items : List (String × Json)) : Entries Json :=
  items.foldl (fun entries (key, value) =>
    match QueryKey.ofString? key with
    | some k => insert value entries k.name k.segments
    | none => entries) []

end Parameters
end FieldPlan
