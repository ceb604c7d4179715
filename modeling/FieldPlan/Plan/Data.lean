import FieldPlan.Plan.Basic
import FieldPlan.Validation
/-!
# Plans as data

The record that a plan is written as, and how plans and their parts are read from records.
-/
namespace FieldPlan

open Validation

def optionalText (s : Option String) : Json := (s.map Json.string).getD .null

def RelationLoad.toData (l : RelationLoad) : Json := .object [
  ("resource", optionalText l.resource),
  ("columns", (l.columns.map Json.ofStrings).getD .null),
  ("constraint", optionalText l.constraint),
  ("many", .bool l.many),
  ("cyclic", .bool l.cyclic)]

def AggregateLoad.toData (a : AggregateLoad) : Json := .object [
  ("relation", .string a.relation),
  ("kind", .string a.kind.name),
  ("column", optionalText a.column),
  ("constraint", optionalText a.constraint),
  ("path", .string a.path)]

def LoadPlan.toData (p : LoadPlan) : Json := .object [
  ("relations", .object (p.relations.map fun (path, l) => (path, l.toData))),
  ("aggregates", .object (p.aggregates.map fun (key, a) => (key, a.toData)))]

/-- A record is read from its entries. -/
def record {α : Type} (read : List (String × Json) → Checked α) : Reader α
  | .object entries => read entries
  | _ => .fault .record

/-- The values under the keys of an object, each fault under its key. -/
def mapping {α : Type} (read : Reader α) : Reader (Entries α)
  | .object entries =>
    Checked.all (entries.map fun (key, j) => Checked.under key ((read j).map fun a => (key, a)))
  | _ => .fault .mapping

def RelationLoad.ofEntries (entries : List (String × Json)) : Checked RelationLoad :=
  Checked.and (.ok RelationLoad.mk) (member entries "resource" (some none) (nullable text))
    |>.and (member entries "columns" (some none) (nullable (tuple text)))
    |>.and (member entries "constraint" (some none) (nullable text))
    |>.and (member entries "many" (some false) flag)
    |>.and (member entries "cyclic" (some false) flag)

def AggregateLoad.ofEntries (entries : List (String × Json)) : Checked AggregateLoad :=
  Checked.and (.ok AggregateLoad.mk) (member entries "relation" none text)
    |>.and (member entries "kind" none (word .oneOf AggregateKind.ofName?))
    |>.and (member entries "column" (some none) (nullable text))
    |>.and (member entries "constraint" (some none) (nullable text))
    |>.and (member entries "path" (some "") text)

def LoadPlan.ofEntries (entries : List (String × Json)) : Checked LoadPlan :=
  Checked.and (.ok LoadPlan.mk)
      (member entries "relations" (some []) (mapping (record RelationLoad.ofEntries)))
    |>.and (member entries "aggregates" (some []) (mapping (record AggregateLoad.ofEntries)))

def LoadPlan.ofData? (j : Json) : Option LoadPlan := (record LoadPlan.ofEntries j).toOption

end FieldPlan
