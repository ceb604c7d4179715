import FieldPlan.Yaml.Moment
import FieldPlan.Yaml.Number
/-!
# Tags

The kinds of nodes. A node without a tag has the one of its form: a plain scalar that looks like a
number is a number.
-/
namespace FieldPlan.Yaml

inductive Tag where
  | null
  | flag
  | integer
  | float
  | binary
  | moment
  | text
  | sequence
  | mapping
  | set
  /-- a sequence of pairs, whose keys need not differ -/
  | pairs
  /-- the key under which other mappings are merged into one -/
  | merge
  /-- the key under which a mapping holds its own scalar -/
  | value
  | unknown
  deriving DecidableEq, Repr

namespace Tag

def domain : String := "tag:yaml.org,2002:"

def named : List (String × Tag) := [
  ("null", null), ("bool", flag), ("int", integer), ("float", float), ("binary", binary),
  ("timestamp", moment), ("omap", pairs), ("pairs", pairs), ("set", set), ("str", text),
  ("seq", sequence), ("map", mapping), ("merge", merge), ("value", value)]

def ofName (name : List Char) : Tag :=
  if domain.toList.isPrefixOf name then
    (named.lookup (String.ofList (name.drop domain.length))).getD unknown
  else unknown

def nullWords : List String := ["~", "null", "Null", "NULL", ""]

/-- The words for flags, which may also be written with a capital or in capitals. -/
def flagWords : List (String × Bool) := [
  ("yes", true), ("no", false), ("true", true), ("false", false), ("on", true), ("off", false)]

def capitalized : List Char → List Char
  | [] => []
  | c :: rest => c.toUpper :: rest

def isFlag (cs : List Char) : Bool :=
  flagWords.any fun (word, _) =>
    let ws := word.toList
    cs = ws || cs = capitalized ws || cs = ws.map Char.toUpper

/-- A text without a line feed at its end. -/
def dropLineFeed (cs : List Char) : List Char :=
  if cs.getLast? = some '\n' then cs.dropLast else cs

/-- The kind of a plain scalar; a line feed at its end does not count. -/
def ofPlain (text : List Char) : Tag :=
  let cs := dropLineFeed text
  let word := String.ofList cs
  if text = ['\n'] then .text
  else if isFlag cs then flag
  else if Number.isFloat cs then float
  else if Number.isInteger cs then integer
  else if word = "<<" then merge
  else if nullWords.contains word then null
  else if Moment.isMoment cs then moment
  else if word = "=" then value
  else if ["!", "&", "*"].contains word then unknown
  else .text

/-- Nodes of this kind hold other nodes. -/
def isCollection : Tag → Bool
  | sequence | mapping | set | pairs => true
  | _ => false

end Tag
end FieldPlan.Yaml
