import FieldPlan.Metadata
import FieldPlan.Model.Statement
import FieldPlan.Text.Basic
/-!
# Applying plans

A load plan becomes the options and aggregates of a statement, a query its order and page. What is
known of the models is remembered like other metadata: their columns, which names are
relationships, where these lead, and what kinds of values the columns hold.
-/
namespace FieldPlan

structure Loader where
  registry : Registry
  mapping : Mapping
  /-- the namespace of the cache keys -/
  keyPrefix : String

/-- The kinds of values that can be summed. -/
def numericKinds : List ValueKind := [.int, .float, .decimal]

namespace Loader

variable [Room]

def columnNames (l : Loader) (m : Model) : Work Json :=
  Work.cachedData (Work.key l.keyPrefix .columns [m.name]) (.pure (Json.ofStrings m.columnNames))

def isRelation (l : Loader) (m : Model) (name : String) : Work Json :=
  Work.cachedData (Work.key l.keyPrefix .relationship [m.name, name])
    (.pure (.bool (m.relationship? name).isSome))

def relatedModel (l : Loader) (m : Model) (name : String) : Work Model := do
  let target ← Work.cachedData (Work.key l.keyPrefix .relatedModel [m.name, name])
    (match m.relationship? name with
      | some r => .pure (.string r.target)
      | none => Work.modelError (.unknownRelationship m.name name))
  match target.string?.bind l.mapping.model? with
  | some t => .pure t
  | none => Work.modelError (.notMapped target.plain m.name name)

def columnKinds (l : Loader) (m : Model) : Work Json :=
  Work.cachedData (Work.key l.keyPrefix .columnKinds [m.name])
    (.pure (.object (m.valueKinds.map fun (name, kind) => (name, .string kind))))

/-- What a registered constraint demands of the rows of a model. -/
def condition (l : Loader) (name : String) (target : Model) : Work Criterion := do
  let c ← Work.ofResource (l.registry.constraint name)
  Work.ofModel (c target)

def condition? (l : Loader) (name : Option String) (target : Model) :
    Work (Option Criterion) :=
  match name.filter (· != "") with
  | some n => .bind (l.condition n target) fun c => .pure (some c)
  | none => .pure none

/-- The steps of a path from a model, and the model at its end. The constraint of each path that has
an entry of its own holds at its last segment. -/
def steps (l : Loader) (p : LoadPlan) (path : String) (m : Model) (before : List String) :
    List String → Work (List PathStep × Model)
  | [] => .pure ([], m)
  | segment :: rest => do
    let relation ← l.isRelation m segment
    if relation.isFalsy then Work.modelError (.notRelation segment m.name path)
    else
      let target ← l.relatedModel m segment
      match m.relationship? segment with
      | none => Work.modelError (.unknownAttribute m.name segment)
      | some r =>
        let here := before ++ [segment]
        let own := p.relations.get? (".".intercalate here)
        let condition ← l.condition? (own.bind (·.constraint)) target
        let (more, last) ← l.steps p path target here rest
        return (⟨segment, r, m, target, condition⟩ :: more, last)

/-- The columns that a projection names, each known to the model. -/
def projection (l : Loader) (m : Model) (columns : List String) : Work (List String) := do
  let known ← Work.names (← Work.members (← l.columnNames m))
  let unknown := columns.filter (!known.contains ·)
  if !unknown.isEmpty then Work.modelError (.unknownColumns m.name unknown)
  else match columns.find? fun n => (m.column? n).isNone with
    | some n => Work.modelError (.unknownAttribute m.name n)
    | none => .pure columns

def option (l : Loader) (p : LoadPlan) (m : Model) (path : String) (load : RelationLoad) :
    Work LoadOption := do
  let (steps, last) ← l.steps p path m [] (Text.split '.' path)
  let columns := load.columns.getD []
  if columns.isEmpty then return ⟨path, steps, []⟩
  else return ⟨path, steps, ← l.projection last columns⟩

/-- A column of numbers. -/
def numericColumn (l : Loader) (kind : AggregateKind) (target : Model) (name : Option String) :
    Work (Option Column) := do
  let kinds ← l.columnKinds target
  if !kinds.isObject then .raise .notAMap
  else
    let held := name.bind kinds.get?
    let isNumeric := numericKinds.any fun k => (held.bind Json.string?) == some k.name
    if held.any Json.isCollection then .raise .notAList
    else if !isNumeric then Work.modelError (.notNumeric kind target.name name)
    else match name.bind target.column? with
      | some c => .pure (some c)
      | none => Work.modelError (.unknownAttribute target.name (name.getD ""))

/-- The column that an aggregate is taken over; sums and averages need numbers. -/
def aggregatedColumn (l : Loader) (target : Model) (a : AggregateLoad) : Work (Option Column) :=
  match a.kind with
  | .count => .pure none
  | kind => l.numericColumn kind target a.column

def aggregateColumn (l : Loader) (m : Model) (label : String) (a : AggregateLoad) :
    Work AggregateColumn := do
  let relation ← l.isRelation m a.relation
  if relation.isFalsy then Work.modelError (.notRelationship a.relation m.name)
  else match m.relationship? a.relation with
    | none => Work.modelError (.unknownRelationship m.name a.relation)
    | some r =>
      let target ← l.relatedModel m a.relation
      let column ← l.aggregatedColumn target a
      let condition ← l.condition? a.constraint target
      return ⟨label, a.kind, r, target, column, condition⟩

def options (l : Loader) (p : LoadPlan) (m : Model) : Entries RelationLoad → Work (List LoadOption)
  | [] => .pure []
  | (path, load) :: rest => do
    let o ← l.option p m path load
    return o :: (← l.options p m rest)

/-- The aggregates at the root; the others are passed over with a note. -/
def aggregates (l : Loader) (m : Model) : Entries AggregateLoad → Work (List AggregateColumn)
  | [] => .pure []
  | (label, a) :: rest =>
    if a.path ≠ "" then
      .note s!"Skipping nested aggregate '{label}': only root aggregates are applied"
        (l.aggregates m rest)
    else do
      let c ← l.aggregateColumn m label a
      return c :: (← l.aggregates m rest)

/-- The statement that reads the rows of a model under a plan. -/
def apply (l : Loader) (m : Model) (p : LoadPlan) : Work Statement := do
  let options ← l.options p m p.relations
  let aggregates ← l.aggregates m p.aggregates
  return { Statement.ofModel m with options, aggregates }

/-- The columns of the clauses whose field is a column of the model; others are passed over. -/
def orderColumns (m : Model) (known : List String) :
    List OrderClause → Work (List (Column × Direction))
  | [] => .pure []
  | clause :: rest =>
    if known.contains clause.field then
      match m.column? clause.field with
      | some c => .bind (orderColumns m known rest) fun others =>
        .pure ((c, clause.direction) :: others)
      | none => Work.modelError (.unknownAttribute m.name clause.field)
    else orderColumns m known rest

/-- The statement in the order and within the page of a query. -/
def applyQuery (l : Loader) (st : Statement) (q : Query) : Work Statement := do
  let known ← Work.names (← Work.members (← l.columnNames st.model))
  return st.within (← orderColumns st.model known q.order) q.pagination

end Loader
end FieldPlan
