import FieldPlan.Query.Basic
import FieldPlan.Validation
/-!
# Queries given as data

A query written out as a record. Selections may be objects or lists of pairs; every fault is
reported with its place.
-/
namespace FieldPlan.Query

open Validation

mutual

/-- Objects, also those directly inside objects, as lists of pairs. -/
def asPairs : Json → Json
  | .object entries => .array (asPairsEntries entries)
  | j => j

def asPairsEntries : List (String × Json) → List Json
  | [] => []
  | (key, j) :: rest => .array [.string key, asPairs j] :: asPairsEntries rest

end

def selectionReader : Reader Selection := tuple (pair text (tuple text))

def aggregationReader : Reader Aggregation := tuple (pair text selectionReader)

def directionReader : Reader Direction := word .oneOf Direction.ofWord?

/-- A clause is ascending unless it says otherwise. -/
def clauseReader : Reader OrderClause
  | .object entries =>
    Checked.and (.ok OrderClause.mk) (member entries "field" none text)
      |>.and (member entries "direction" (some .ascending) directionReader)
  | _ => .fault .record

/-- A page by number or by cursor, as its `kind` says. -/
def paginationReader : Reader Pagination
  | .object entries =>
    match entries.lookup "kind" with
    | none => .fault .missingTag
    | some (.string "offset") =>
      (Checked.and (.ok Pagination.offset) (member entries "limit" none integer)
        |>.and (member entries "page" (some 1) integer)).under "offset"
    | some (.string "cursor") =>
      (Checked.and (.ok Pagination.cursor) (member entries "limit" none integer)
        |>.and (member entries "cursor" none text)).under "cursor"
    | some _ => .fault .unknownTag
  | _ => .fault .recordOrObject

/-- A filter tree; it is not looked into. -/
def filterReader : Reader Json
  | j@(.object _) | j@(.array _) => .ok j
  | _ => .error [⟨["dict[str,any]"], .mapping⟩, ⟨["list[any]"], .list⟩]

/-- The query that a record gives. -/
def ofData (entries : List (String × Json)) : Checked Query :=
  Checked.and (.ok Query.mk) (member entries "resource" (some none) (nullable text))
    |>.and (member entries "fields" (some []) (selectionReader ∘ asPairs))
    |>.and (member entries "counts" (some []) (selectionReader ∘ asPairs))
    |>.and (member entries "sums" (some []) (aggregationReader ∘ asPairs))
    |>.and (member entries "averages" (some []) (aggregationReader ∘ asPairs))
    |>.and (member entries "filters" (some none) (nullable filterReader))
    |>.and (member entries "order" (some []) (tuple clauseReader))
    |>.and (member entries "pagination" (some (.offset 25 1)) paginationReader)

end FieldPlan.Query
