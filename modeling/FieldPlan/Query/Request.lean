import FieldPlan.Json.Reader
import FieldPlan.Query.Key
import FieldPlan.Settings
import FieldPlan.Signature
import FieldPlan.Text.Case
/-!
# Reading requests

The parameters of a request, part by part: selections, aggregations, filters, order, pagination.
Each part is read on its own and reports its own problems; a request is accepted when no part has
any, and refused with the problems of all parts in their order.
-/
namespace FieldPlan

inductive Problem where
  | notNames (label : String)
  | notPerRelation (label : String)
  | filtersNotText
  | filtersNotJson (fault : Json.Fault)
  | filtersNotTree
  | orderClause (token : String)
  | orderDirection (direction field : String)
  | notPositive (name : String) (given : Json)
  | cursorNotText
  | pageWithCursor

def Problem.message : Problem → String
  | notNames label => s!"{label}: expected a comma-separated string"
  | notPerRelation label => s!"{label}: expected {label}[relation]=columns"
  | filtersNotText => "filters: expected a JSON document"
  | filtersNotJson fault => s!"filters: invalid JSON ({fault.message})"
  | filtersNotTree => "filters: expected a JSON object or array"
  | orderClause token => s!"order: invalid clause '{token}'"
  | orderDirection direction field => s!"order: unknown direction '{direction}' for '{field}'"
  | notPositive name given => s!"{name}: must be a positive integer, got {given.literal}"
  | cursorNotText => "cursor: expected a string"
  | pageWithCursor => "page and cursor cannot be combined"

/-- A limit of what can be read or shown, which is no problem of one parameter. -/
inductive Limit where
  /-- an integer with more digits than can be read -/
  | digitsRead (count : Nat)
  /-- an integer with more digits than can be shown in a message -/
  | digitsShown
  | depth

def Limit.message : Limit → String
  | digitsRead n => Json.Fault.message (.longInteger n)
  | digitsShown => Json.longIntegerMessage
  | depth => Json.Fault.message .tooDeep

/-- Why a request is not answered with a query. -/
inductive RequestError where
  | malformed (problems : List Problem)
  | limit (cause : Limit)

def RequestError.message : RequestError → String
  | malformed problems => "Malformed request: " ++ Text.quotedList (problems.map (·.message))
  | limit cause => cause.message

/-- How the request of an endpoint ends without a query. -/
inductive Refusal where
  | answered (status : Nat) (errors : List String)
  /-- nothing turns a limit into an answer -/
  | failed (cause : Limit)

def RequestError.refusal : RequestError → Refusal
  | malformed problems => .answered 400 (problems.map (·.message))
  | limit cause => .failed cause

namespace Json

mutual

/-- The first limit that showing a value meets, with room for so many values within each other. -/
def limitShown? : Nat → Json → Option Limit
  | 0, _ => some .depth
  | _ + 1, .int n => if isLongInt n then some .digitsShown else none
  | room + 1, .array items => itemLimit? room items
  | room + 1, .object entries => entryLimit? room entries
  | _ + 1, _ => none

def itemLimit? (room : Nat) : List Json → Option Limit
  | [] => none
  | j :: rest => (limitShown? room j).or (itemLimit? room rest)

def entryLimit? (room : Nat) : List (String × Json) → Option Limit
  | [] => none
  | (_, j) :: rest => (limitShown? room j).or (entryLimit? room rest)

end

end Json

/-- What a part of a request means, and the problems found in it. -/
structure Part (α : Type) where
  value : α
  problems : List Problem

namespace Part

def ok {α : Type} (value : α) : Part α := ⟨value, []⟩

def bad {α : Type} (value : α) (p : Problem) : Part α := ⟨value, [p]⟩

end Part

namespace Request

/-- The names in a text: pieces between commas without blanks around them, empty ones left out. -/
def namesIn (s : String) : List String :=
  ((Text.split ',' s).map Text.trim).filter (· != "")

/-- Distinct names from a comma-separated text or a list of such texts. -/
def names (label : String) (j : Json) : Part (Option (List String)) :=
  match j with
  | .string s => .ok (some (unique (namesIn s)))
  | .array items =>
    match Json.strings? items with
    | some texts => .ok (some (unique (texts.flatMap namesIn)))
    | none => .bad none (.notNames label)
  | _ => .bad none (.notNames label)

/-- The names of a part that is not empty; an empty one counts as absent. -/
def given (names : Option (List String)) : Option (List String) := names.filter (!·.isEmpty)

/-- The parameter that a scope of it is reported under. -/
def scopeLabel (parameter scope : String) : String :=
  if scope = primary then parameter else s!"{parameter}[{scope}]"

/-- A value without scopes stands for the primary resource. -/
def scopesOf : Json → Entries Json
  | .object entries => entries
  | j => [(primary, j)]

def selectionOf (parameter : String) : Entries Json → Part Selection
  | [] => .ok []
  | (scope, j) :: rest =>
    let part := names (scopeLabel parameter scope) j
    let others := selectionOf parameter rest
    ⟨((given part.value).map fun ns => (scope, ns)).toList ++ others.value,
      part.problems ++ others.problems⟩

def selection (parameter : String) (j : Json) : Part Selection :=
  selectionOf parameter (scopesOf j)

/-- Adds columns of a relation under a scope; without columns there is nothing to add. -/
def addColumns (scope relation : String) (columns : Option (List String)) (a : Aggregation) :
    Aggregation :=
  match given columns with
  | some cs => a.set scope (((a.get? scope).getD []).set relation cs)
  | none => a

/-- The relations under one scope. -/
def scopedColumns (parameter scope : String) (a : Aggregation) : Entries Json → Part Aggregation
  | [] => .ok a
  | (relation, j) :: rest =>
    if relation = primary then
      let others := scopedColumns parameter scope a rest
      ⟨others.value, .notPerRelation s!"{parameter}[{scope}]" :: others.problems⟩
    else
      let part := names s!"{parameter}[{scope}][{relation}]" j
      let others := scopedColumns parameter scope (addColumns scope relation part.value a) rest
      ⟨others.value, part.problems ++ others.problems⟩

/-- The entries of an aggregation: columns of a relation, or relations under a scope. -/
def aggregationOf (parameter : String) (a : Aggregation) : Entries Json → Part Aggregation
  | [] => .ok a
  | (key, j) :: rest =>
    let part : Part Aggregation :=
      if key = primary then .bad a (.notPerRelation parameter)
      else match j with
        | .object inner => scopedColumns parameter key a inner
        | _ =>
          let columns := names s!"{parameter}[{key}]" j
          ⟨addColumns primary key columns.value a, columns.problems⟩
    let others := aggregationOf parameter part.value rest
    ⟨others.value, part.problems ++ others.problems⟩

def aggregation (parameter : String) : Json → Part Aggregation
  | .object entries => aggregationOf parameter [] entries
  | _ => .bad [] (.notPerRelation parameter)

/-- A parameter that is absent or null has the value of an empty one. -/
def part {α : Type} (raw : Entries Json) (parameter : String) (empty : α)
    (read : String → Json → Part α) : Part α :=
  match raw.get? parameter with
  | none | some .null => .ok empty
  | some j => read parameter j

/-- A filter tree, given as such or as JSON text. -/
def filters [Room] (raw : Entries Json) : Except Limit (Part (Option Json)) :=
  match raw.get? "filters" with
  | none | some .null | some (.string "") => .ok (.ok none)
  | some j@(.object _) | some j@(.array _) => .ok (.ok (some j))
  | some (.string s) =>
    match Json.read s with
    | .ok j@(.object _) | .ok j@(.array _) => .ok (.ok (some j))
    | .ok _ => .ok (.bad none .filtersNotTree)
    | .error (.longInteger n) => .error (.digitsRead n)
    | .error .tooDeep => .error .depth
    | .error fault => .ok (.bad none (.filtersNotJson fault))
  | some _ => .ok (.bad none .filtersNotText)

/-- A clause such as `name`, `-name`, `name:asc` or `name:desc`. -/
def orderClause (token : String) : Except Problem OrderClause :=
  match token.toList with
  | '-' :: field =>
    if field.isEmpty || field.contains ':' then .error (.orderClause token)
    else .ok ⟨String.ofList field, .descending⟩
  | _ =>
    let (field, direction) := Text.cut ':' token
    let field := Text.trim field
    let word := Text.lower (Text.trim (direction.getD ""))
    if field = "" then .error (.orderClause token)
    else if word = "" then .ok ⟨field, .ascending⟩
    else match Direction.ofWord? word with
      | some d => .ok ⟨field, d⟩
      | none => .error (.orderDirection word field)

/-- The clauses of the tokens; of several on one field the first counts. -/
def clausesOf (seen : List String) : List String → Part (List OrderClause)
  | [] => .ok []
  | token :: rest =>
    match orderClause token with
    | .error p =>
      let others := clausesOf seen rest
      ⟨others.value, p :: others.problems⟩
    | .ok clause =>
      if clause.field ∈ seen then clausesOf seen rest
      else
        let others := clausesOf (clause.field :: seen) rest
        ⟨clause :: others.value, others.problems⟩

def order (parameter : String) (j : Json) : Part (List OrderClause) :=
  let tokens := names parameter j
  match tokens.value with
  | some ts => clausesOf [] ts
  | none => ⟨[], tokens.problems⟩

/-- The integer that a value is or spells; a flag is none. -/
def integer? : Json → Option Int
  | .int n => some n
  | .string s => Text.readInteger s
  | _ => none

/-- A number from one upwards; an empty text counts as absent. -/
def positive [Room] (raw : Entries Json) (name : String) : Except Limit (Part (Option Int)) :=
  match raw.get? name with
  | none | some .null | some (.string "") => .ok (.ok none)
  | some j =>
    match (integer? j).filter (1 ≤ ·) with
    | some n => .ok (.ok (some n))
    | none =>
      match j.limitShown? Room.showing with
      | some cause => .error cause
      | none => .ok (.bad none (.notPositive name j))

/-- A cursor; an empty one counts as absent. -/
def cursor (raw : Entries Json) : Part (Option String) :=
  match raw.get? "cursor" with
  | none | some .null | some (.string "") => .ok none
  | some (.string s) => .ok (some s)
  | some _ => .bad none .cursorNotText

/-- The size of a page. What exceeds the greatest size is clamped, and shown in the log. -/
def pageSize (s : Settings) : Option Int → Except Limit Int
  | none => .ok s.defaultLimit
  | some n =>
    if n ≤ s.maxLimit then .ok n
    else if Json.isLongInt n then .error .digitsShown
    else .ok s.maxLimit

def pagination [Room] (s : Settings) (raw : Entries Json) : Except Limit (Part Pagination) := do
  let limit ← positive raw "limit"
  let page ← positive raw "page"
  let cursor := cursor raw
  let both := if page.value.isSome && cursor.value.isSome then [Problem.pageWithCursor] else []
  let size ← pageSize s limit.value
  let value := match cursor.value with
    | some c => Pagination.cursor size c
    | none => .offset size (page.value.getD 1)
  return ⟨value, limit.problems ++ page.problems ++ cursor.problems ++ both⟩

/-- Reads nested parameters to a query whose unscoped parts apply to `resource`. -/
def read [Room] (s : Settings) (raw : Entries Json) (resource : Option String) :
    Except RequestError Query := do
  let fields := part raw "fields" [] selection
  let counts := part raw "counts" [] selection
  let sums := part raw "sums" [] aggregation
  let averages := part raw "averages" [] aggregation
  let filters ← (filters raw).mapError .limit
  let order := part raw "order" [] order
  let pagination ← (pagination s raw).mapError .limit
  let problems := fields.problems ++ counts.problems ++ sums.problems ++ averages.problems ++
    filters.problems ++ order.problems ++ pagination.problems
  if problems.isEmpty then
    return {
      resource
      fields := fields.value
      counts := counts.value
      sums := sums.value
      averages := averages.value
      filters := filters.value
      order := order.value
      pagination := pagination.value }
  else .error (.malformed problems)

def readItems [Room] (s : Settings) (items : List (String × Json)) (resource : Option String) :
    Except RequestError Query :=
  read s (Parameters.nest items) resource

def texts (items : List (String × String)) : List (String × Json) :=
  items.map fun (key, value) => (key, .string value)

/-- What an endpoint makes of the pairs in the query string of its request. -/
def answer [Room] (s : Settings) (items : List (String × String)) (resource : Option String) :
    Except Refusal Query :=
  (readItems s (texts items) resource).mapError RequestError.refusal

end Request
end FieldPlan
