import FieldPlan.Schema
import FieldPlan.Settings
/-!
# Resolution

Which fields of a resource a client receives. Without a request these are the defaults; a request
brings the declared fields it names, all of them but the aggregates at the word `:all`. Excluded
fields are left out, fixed ones always present.
-/
namespace FieldPlan

/-- Stands for all fields but the aggregates in a request. -/
def allFieldsWord : String := ":all"

namespace ResourceSchema

/-- The fields that are always present: those of the settings, then those of the resource. -/
def fixedFields (s : ResourceSchema) (settings : Settings) : List String :=
  unique (settings.fixedFields ++ s.fixed)

/-- The names of a request that mean something here. -/
def knownRequest (s : ResourceSchema) (requested : List String) : List String :=
  requested.filter fun n => n == allFieldsWord || s.declares n

/-- The declared names among those to leave out, in ascending order. -/
def knownExclusions (s : ResourceSchema) (excluded : List String) : List String :=
  sortNames ((unique excluded).filter s.declares)

/-- A request with the word for all fields written out where it stands. -/
def expand (s : ResourceSchema) (requested : List String) : List String :=
  requested.flatMap fun n => if n == allFieldsWord then s.allFields else [n]

def resolve (s : ResourceSchema) (settings : Settings) (requested : Option (List String))
    (excluded : List String) : List String :=
  let fixed := s.fixedFields settings
  let isDropped (n : String) : Bool := excluded.contains n && !fixed.contains n
  match requested with
  | none => unique (s.defaults.filter (!isDropped ·) ++ fixed)
  | some names =>
    let known := (unique (s.expand names)).filter fun n => s.declares n && !isDropped n
    match settings.order with
    | .requested => unique (known ++ fixed)
    | .declaration =>
      let ordered := s.names.filter fun n => known.contains n || fixed.contains n
      unique (ordered ++ fixed)

end ResourceSchema

/-- What a resolution depends on, as data; the signature of this data names it in the cache. -/
def resolutionPayload (order : FieldOrder) (requested : Option (List String))
    (excluded : List String) : Json := .object [
  ("strategy", .string order.name),
  ("requested",
    ((namesPayload (order == .requested) requested).map Json.ofStrings).getD .null),
  ("excluded", Json.ofStrings excluded)]

end FieldPlan
