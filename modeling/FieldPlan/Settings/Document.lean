import FieldPlan.Settings
import FieldPlan.Text.Surrogate
import FieldPlan.Yaml.Document
/-!
# Settings documents

Settings may be kept in a YAML document: a mapping from the names of members to their values. A
document that holds nothing sets none.
-/
namespace FieldPlan.Settings

/-- Why a document sets no members. -/
inductive DocumentError where
  /-- half of a surrogate pair cannot be kept in a document -/
  | halfPair
  | unreadable (fault : Yaml.Fault)
  | notMapping
  /-- a key is no text, so that it names no member -/
  | keyNotText
  deriving Repr

/-- What is reported of the document at a place. -/
def DocumentError.message (place : String) : DocumentError → String
  | halfPair => s!"{place}: half of a surrogate pair"
  | unreadable (.range cause) => cause.message
  | unreadable _ => s!"{place}: not a document"
  | notMapping => s!"{place}: expected a mapping at the top level"
  | keyNotText => s!"{place}: every key must be a text"

/-- The members that a document sets. A member holds scalars or lists of them, so that the value of
each is taken down to the items of a list. -/
def ofDocument (text : String) : Except DocumentError (List (String × Json)) := do
  if !Text.isWellFormed text then throw .halfPair
  let value ← (Yaml.read text).mapError .unreadable
  if value.isFalsy then return []
  match value with
  | .mapping entries =>
    match entries.mapM fun (key, v) => key.text?.map fun name => (name, v.outline) with
    | some members => return Entries.ofList members
    | none => throw .keyNotText
  | _ => throw .notMapping

end FieldPlan.Settings
