import FieldPlan.Json.Order
import FieldPlan.Text.Surrogate
import FieldPlan.Text.Utf8
import FieldPlan.Yaml.Binary
import FieldPlan.Yaml.Tag
/-!
# YAML values

What the nodes of a document stand for. The keys of a mapping need not be texts.
-/
namespace FieldPlan.Yaml

inductive Value where
  | null
  | flag (b : Bool)
  | integer (n : Int)
  | float (x : Binary64)
  | text (cs : List Char)
  | bytes (bs : List Nat)
  | moment (m : Moment)
  | sequence (items : List Value)
  | set (members : List Value)
  | mapping (entries : List (Value × Value))

namespace Value

def isAscii (c : Char) : Bool := c.toNat < 0x80

/-- What a text stands for under a tag. -/
def ofScalar (tag : Tag) (cs : List Char) : Except Fault Value :=
  match tag with
  | .null => .ok null
  | .flag =>
    match Tag.flagWords.lookup (String.ofList (Text.lowerChars cs)) with
    | some b => .ok (flag b)
    | none => .error .unknownFlag
  | .integer => (Number.integer cs).map integer
  | .float => (Number.float cs).map float
  | .moment => (Moment.read (Tag.dropLineFeed cs)).map moment
  | .binary =>
    match if cs.all isAscii then Binary.decode? cs else none with
    | some bs => .ok (bytes bs)
    | none => .error (.node .base64)
  | .text => .ok (text cs)
  | .merge | .value | .unknown => .error (.node .unknownTag)
  | .sequence | .mapping | .set | .pairs => .error (.node .wrongKind)

/-- Null, false, zero or empty. -/
def isFalsy : Value → Bool
  | null => true
  | flag b => !b
  | integer n => n == 0
  | float x => Json.isFalsy (.float x)
  | text cs => cs.isEmpty
  | bytes bs => bs.isEmpty
  | moment _ => false
  | sequence items => items.isEmpty
  | set members => members.isEmpty
  | mapping entries => entries.isEmpty

def text? : Value → Option String
  | text cs => some (String.ofList cs)
  | _ => none

/-- Bytes as a text; where they spell none, each byte above ASCII counts as half of a surrogate
pair, so that the text is not well formed. -/
def textOfBytes (bs : List Nat) : String :=
  match Text.Utf8.decode? bs with
  | some cs => String.ofList cs
  | none => String.ofList (bs.map fun b => if b < 0x80 then Char.ofNat b else Text.ofHalf (0xdc00 + b))

/-- The value without what its collections hold. A moment is shown as an empty object, since it
is no scalar of JSON. -/
def shallow : Value → Json
  | null => .null
  | flag b => .bool b
  | integer n => .int n
  | float x => .float x
  | text cs => .string (String.ofList cs)
  | bytes bs => .string (textOfBytes bs)
  | moment _ => .object []
  | sequence _ => .array []
  | set _ => .array []
  | mapping _ => .object []

/-- The value down to the items of a list; equal members of a set are one. -/
def outline : Value → Json
  | sequence items => .array (items.map shallow)
  | set members => .array ((members.map shallow).eraseDupsBy Json.same)
  | v => v.shallow

end Value
end FieldPlan.Yaml
