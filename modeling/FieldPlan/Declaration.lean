import FieldPlan.Model.Basic
import FieldPlan.Schema
import FieldPlan.Text.Basic
import FieldPlan.Text.Words
/-!
# Declarations

How resources are written down: fields under a name or an alias, relations to other resources,
aggregates named after what they aggregate. A declaration without fields takes the columns of its
model. Freezing a declaration resolves its references to types and builds the schema.
-/
namespace FieldPlan

/-- Why a resource cannot be frozen or found. -/
inductive ResourceError where
  /-- a value stands where a resource should; it is shown as it was given -/
  | notAResource (shown : String)
  | unregistered (type : String)
  | unknownConstraint (name : String)
  | neitherFieldsNorModel (className : String)
  | schema (faults : List SchemaFault)
  deriving DecidableEq, Repr

def ResourceError.message : ResourceError → String
  | notAResource shown => s!"{shown} is not a resource"
  | unregistered type => s!"Resource '{type}' is not registered"
  | unknownConstraint name => s!"Constraint '{name}' is not registered"
  | neitherFieldsNorModel name => s!"{name} declares neither fields nor a model"
  | schema faults => "Invalid resource schema: " ++ Text.quotedList (faults.map (·.message))

/-- The name a resource is declared under, and its type if it gives one. -/
structure ResourceIdentity where
  className : String
  givenType : Option String
  deriving DecidableEq, Repr

/-- The class name without the ending `Resource`, unless that is all of it. -/
def ResourceIdentity.baseName (r : ResourceIdentity) : String :=
  let cs := r.className.toList
  let ending := "Resource".toList
  if ending.isSuffixOf cs && cs != ending then String.ofList (cs.take (cs.length - ending.length))
  else r.className

/-- The given type; without one, the words of the class name. -/
def ResourceIdentity.type (r : ResourceIdentity) : String :=
  match r.givenType.filter (· != "") with
  | some t => t
  | none => Text.snakeCase r.baseName

/-- What stands for a resource: its type, its declaration, or some other value. -/
inductive ResourceRef where
  | named (type : String)
  | declared (r : ResourceIdentity)
  | other (value : Json)

def ResourceRef.type : ResourceRef → Except ResourceError String
  | named t => .ok t
  | declared r => .ok r.type
  | other v => .error (.notAResource v.literal)

inductive DeclaredForm where
  | scalar
  | timestamp
  | computed (path : Option String)
  | relation (resource : Option ResourceRef) (accessor : Option String) (many : Bool)
      (pinned : Option (List String)) (constraint : Option String)
  | aggregate (kind : AggregateKind) (column : Option String) (isDefault : Bool)
      (constraint : Option String)

structure FieldDeclaration where
  form : DeclaredForm
  name : String
  rename : Option String
  extras : List String

/-- Names without repetition and without the empty one. -/
def distinctNames (names : List String) : List String := unique (names.filter (· != ""))

namespace FieldDeclaration

def capitalized : AggregateKind → String
  | .count => "Count"
  | .sum => "Sum"
  | .average => "Average"

/-- The name without an alias; aggregates are named after relation, kind and column. -/
def ownName (d : FieldDeclaration) : String :=
  match d.form with
  | .aggregate kind column _ _ => d.name ++ capitalized kind ++ Text.pascalCase (column.getD "")
  | _ => d.name

def exposedName (d : FieldDeclaration) : String :=
  (d.rename.filter (· != "")).getD d.ownName

/-- The frozen body, with references resolved to types. -/
def body (d : FieldDeclaration) : Except ResourceError FieldBody :=
  match d.form with
  | .scalar => .ok (.scalar d.name)
  | .timestamp => .ok (.timestamp d.name)
  | .computed path => .ok (.computed (path.map (Text.split '.')))
  | .relation resource accessor many pinned constraint =>
    let relation (target : Option String) : FieldBody :=
      .relation
        { source := d.name, target, accessor, pinned := pinned.map distinctNames, constraint, many }
    match resource with
    | none => .ok (relation none)
    | some ref => ref.type.map fun t => relation (some t)
  | .aggregate kind column isDefault constraint =>
    .ok (.aggregate { kind, source := d.name, column, isDefault, constraint })

def field (d : FieldDeclaration) : Except ResourceError Field :=
  d.body.map fun body => { name := d.exposedName, body, extras := distinctNames d.extras }

def ofColumn (c : Column) : FieldDeclaration where
  form := if c.type.isTemporal then .timestamp else .scalar
  name := c.name
  rename := none
  extras := []

end FieldDeclaration

/-- The fields discovered from a model: its columns but the excluded ones, never its relations. -/
def Model.discoveredFields (m : Model) (excluded : List String) : List FieldDeclaration :=
  (m.columns.filter fun c => !excluded.contains c.name).map FieldDeclaration.ofColumn

/-- A resource as it is written down. -/
structure ResourceDeclaration where
  identity : ResourceIdentity
  fields : Option (List FieldDeclaration)
  excluded : List String
  defaults : Option (List String)
  fixed : List String
  model : Option Model

namespace ResourceDeclaration

def type (d : ResourceDeclaration) : String := d.identity.type

/-- The declared fields, else those discovered from the model. -/
def declaredFields (d : ResourceDeclaration) : Except ResourceError (List FieldDeclaration) :=
  match d.fields, d.model with
  | some fields, _ => .ok fields
  | none, some m => .ok (m.discoveredFields d.excluded)
  | none, none => .error (.neitherFieldsNorModel d.identity.className)

def schema (d : ResourceDeclaration) : Except ResourceError ResourceSchema := do
  let fields ← (← d.declaredFields).mapM FieldDeclaration.field
  (ResourceSchema.build d.type fields d.defaults d.fixed (d.model.map (·.name))).mapError .schema

end ResourceDeclaration
end FieldPlan
