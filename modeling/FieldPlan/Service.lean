import FieldPlan.Plan.Reach
import FieldPlan.Resolution
/-!
# The service

What serializers and repositories ask under one request: the fields to show, the plan of what to
load, and the aggregates to compute. Resolved fields and compiled plans are remembered under keys
that depend on nothing but the catalog, the settings and what of the request can make a difference.
-/
namespace FieldPlan

structure Service where
  catalog : Catalog
  settings : Settings
  query : Option Query

/-- The declared aggregates among some fields as loads at the root, by alias; of a repeated alias
the first counts. -/
def rootAggregates (fields : List Field) : Entries AggregateLoad :=
  let loads := fields.filterMap fun f => f.aggregate?.map fun a => (f.name, a.load "")
  Entries.sorted (loads.foldl (fun es e => Entries.setIfAbsent e.1 e.2 es) [])

namespace ResourceSchema

/-- The aggregates that are marked as defaults, or those of the given aliases. -/
def chosenAggregates (s : ResourceSchema) : Option (List String) → List Field
  | none => s.aggregates.filter fun f => f.aggregate?.any (·.isDefault)
  | some aliases => (aliases.filterMap s.get?).filter (·.isAggregate)

/-- The count of a name: the count declared under it, else the first one over the relation of that
name. -/
def countNamed? (s : ResourceSchema) (name : String) : Option Field :=
  match (s.get? name).filter fun f => f.aggregate?.any (·.kind == .count) with
  | some f => some f
  | none => s.findAggregate? .count name none

/-- The aliases of the aggregates of a kind over the given columns of relations. -/
def aliasesOver (s : ResourceSchema) (kind : AggregateKind) (columns : Option Selection) :
    List String :=
  (columns.getD []).flatMap fun (relation, cs) =>
    cs.filterMap fun c => (s.findAggregate? kind relation (some c)).map (·.name)

/-- The aliases of the aggregates that a query asks for, if it asks for any. -/
def requestedAggregates (s : ResourceSchema) (q : Query) : Option (List String) :=
  match q.countsFor s.type, q.sumsFor s.type, q.averagesFor s.type with
  | none, none, none => none
  | counts, sums, averages =>
    some ((counts.getD []).filterMap (fun n => (s.countNamed? n).map (·.name)) ++
      s.aliasesOver .sum sums ++ s.aliasesOver .average averages)

end ResourceSchema

/-- What a plan depends on, as data; the signature of this data names it in the cache. -/
def planPayload (fields : List String) (nested : Selection) : Json := .object [
  ("fields", Json.ofStrings fields),
  ("nested", .object (nested.map fun (type, names) => (type, Json.ofStrings names)))]

namespace Service

variable [Room]

def withQuery (s : Service) (q : Option Query) : Service := { s with query := q }

def schema (s : Service) (ref : ResourceRef) : Work ResourceSchema :=
  Work.ofResource (s.catalog.schemaOf ref)

def resolutionKey (s : Service) (r : ResourceSchema) (requested : Option (List String))
    (excluded : List String) : String :=
  Work.key s.settings.keyPrefix .resolvedFields
    [r.type ++ "." ++ signature (resolutionPayload s.settings.order
      (requested.map r.knownRequest) (r.knownExclusions excluded))]

/-- The fields to show of a resource, as they are remembered. -/
def resolveData (s : Service) (r : ResourceSchema) (requested : Option (List String))
    (excluded : List String) : Work (List Json) :=
  Work.cachedNames (s.resolutionKey r requested excluded)
    (r.resolve s.settings (requested.map r.knownRequest) (r.knownExclusions excluded))

def resolve (s : Service) (r : ResourceSchema) (requested : Option (List String))
    (excluded : List String) : Work (List String) :=
  .bind (s.resolveData r requested excluded) Work.names

/-- The distinct fields to show of a resource, in ascending order. -/
def resolveSorted (s : Service) (r : ResourceSchema) (requested : Option (List String)) :
    Work (List String) :=
  .bind (s.resolveData r requested []) Work.sortedNames

def defaultsOf (s : Service) (type : String) : Work (List String) :=
  .bind (Work.ofResource (s.catalog.schema type)) fun r => s.resolve r none []

/-- The fields requested of one child, unless they are its defaults. -/
def childSelection (s : Service) (type : String) (requested : Option (List String)) :
    Work (Option (List String)) :=
  .bind (Work.ofResource (s.catalog.schema type)) fun r =>
    .bind (s.resolveSorted r requested) fun chosen =>
      .bind (s.resolveSorted r none) fun defaults =>
        .pure (if chosen = defaults then none else some chosen)

/-- The requests that can make a difference below a root, resolved: those for reachable types that
do not come down to the defaults. -/
def resolveNested (s : Service) (root : String) :
    Entries (Option (List String)) → Work Selection
  | [] => .pure []
  | (type, requested) :: rest =>
    if type ∈ s.catalog.reachable root then
      .bind (s.childSelection type requested) fun chosen =>
        .bind (s.resolveNested root rest) fun others =>
          .pure ((chosen.map fun names => (type, names)).toList ++ others)
    else s.resolveNested root rest

def walk (s : Service) (nested : Selection) : Walk where
  catalog := s.catalog
  maxDepth := s.settings.maxDepth
  nested
  defaults := s.defaultsOf

/-- The declared names among the given ones, in ascending order. -/
def plannedFields (r : ResourceSchema) (fields : List String) : List String :=
  sortNames ((unique fields).filter r.declares)

def planKey (s : Service) (r : ResourceSchema) (fields : List String) (nested : Selection) :
    String :=
  Work.key s.settings.keyPrefix .plan [r.type, signature (planPayload fields nested)]

/-- The load plan of a resource for the given fields and requests for embedded types. -/
def compile (s : Service) (r : ResourceSchema) (fields : List String)
    (nested : Entries (Option (List String))) : Work LoadPlan :=
  let names := plannedFields r fields
  .bind (s.resolveNested r.type nested) fun nested =>
    let nested := nested.sorted
    Work.cachedPlan (s.planKey r names nested) ((s.walk nested).build r names)

/-- The fields that the current request asks for. -/
def requestedFields (s : Service) (r : ResourceSchema) : Option (List String) :=
  s.query.bind fun q => q.fieldsFor r.type

def resolveFields (s : Service) (r : ResourceSchema) (excluded : List String) :
    Work (List String) :=
  s.resolve r (s.requestedFields r) excluded

/-- The plan for the given fields under the current request. -/
def loadMap (s : Service) (r : ResourceSchema) (fields : List String) : Work LoadPlan :=
  s.compile r fields (((s.query.map Query.scopedFields).getD []).map fun (t, ns) => (t, some ns))

/-- The aggregates the current request asks for, if it asks for any. -/
def requestedAggregates (s : Service) (r : ResourceSchema) : Option (List String) :=
  s.query.bind r.requestedAggregates

/-- The root aggregates: given aliases win over those of the request, and these over the
defaults. -/
def loadAggregates (s : Service) (r : ResourceSchema) (aliases : Option (List String)) :
    Entries AggregateLoad :=
  rootAggregates (r.chosenAggregates (aliases <|> s.requestedAggregates r))

/-- The complete plan for the current request. -/
def planFor (s : Service) (r : ResourceSchema) : Work LoadPlan :=
  .bind (s.resolveFields r []) fun fields =>
    .bind (s.loadMap r fields) fun p => .pure (p.withAggregates (s.loadAggregates r none))

end Service
end FieldPlan
