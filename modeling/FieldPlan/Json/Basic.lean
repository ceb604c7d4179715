import FieldPlan.Number.Shortest
import FieldPlan.Text.Integer
import FieldPlan.Text.Quoted
/-!
# JSON values

The dynamic values of the library: opaque filters, cached metadata, settings given as data. An
object keeps its entries in order. `Json.literal` is how a value is shown inside a message.
-/
namespace FieldPlan

/-- A JSON value; numbers are integers of any size or binary64 numbers. -/
inductive Json where
  | null
  | bool (b : Bool)
  | int (n : Int)
  | float (x : Binary64)
  | string (s : String)
  | array (items : List Json)
  | object (entries : List (String × Json))
  deriving Inhabited

namespace Json

def intChars : Int → List Char
  | .ofNat n => Nat.toDigits 10 n
  | .negSucc n => '-' :: Nat.toDigits 10 (n + 1)

def intText (n : Int) : String := String.ofList (intChars n)

/-- Absent, false, zero or empty. -/
def isFalsy : Json → Bool
  | null => true
  | bool b => !b
  | int n => n == 0
  | float x => !x.isNaN && x.isFinite && x.magnitude.1 == 0
  | string s => s.isEmpty
  | array items => items.isEmpty
  | object entries => entries.isEmpty

def isObject : Json → Bool
  | object _ => true
  | _ => false

def isCollection : Json → Bool
  | array _ | object _ => true
  | _ => false

def get? (key : String) : Json → Option Json
  | object entries => entries.lookup key
  | _ => none

def string? : Json → Option String
  | string s => some s
  | _ => none

/-- The members met when a value is traversed: the items of an array, the keys of an object, the
characters of a text. Other values have none. -/
def members? : Json → Option (List Json)
  | array items => some items
  | object entries => some (entries.map fun e => string e.1)
  | string s => some (s.toList.map fun c => string (String.singleton c))
  | _ => none

def strings? (items : List Json) : Option (List String) := items.mapM string?

def ofStrings (names : List String) : Json := array (names.map string)

mutual

/-- A value as it is shown inside a message. -/
def literal : Json → String
  | null => "None"
  | bool b => if b then "True" else "False"
  | int n => intText n
  | float x => x.text
  | string s => Text.quoted s
  | array items => "[" ++ String.intercalate ", " (literals items) ++ "]"
  | object entries => "\x7b" ++ String.intercalate ", " (entryLiterals entries) ++ "\x7d"

def literals : List Json → List String
  | [] => []
  | j :: rest => literal j :: literals rest

def entryLiterals : List (String × Json) → List String
  | [] => []
  | (key, j) :: rest => (Text.quoted key ++ ": " ++ literal j) :: entryLiterals rest

end

/-- A value as it stands inside a longer text: texts without quotes, all else as literals. -/
def plain : Json → String
  | string s => s
  | j => literal j

/-- An integer of too many digits has no decimal text. -/
def isLongInt (n : Int) : Bool := Text.maxIntegerDigits < (Nat.toDigits 10 n.natAbs).length

def longIntegerMessage : String :=
  s!"Exceeds the limit ({Text.maxIntegerDigits} digits) for integer string conversion; " ++
    "use sys.set_int_max_str_digits() to increase the limit"

mutual

/-- The value holds an integer without a text. -/
def hasLongInt : Json → Bool
  | int n => isLongInt n
  | array items => anyLongInt items
  | object entries => anyLongEntry entries
  | _ => false

def anyLongInt : List Json → Bool
  | [] => false
  | j :: rest => hasLongInt j || anyLongInt rest

def anyLongEntry : List (String × Json) → Bool
  | [] => false
  | (_, j) :: rest => hasLongInt j || anyLongEntry rest

end

/-- Only a value whose integers all have a text can be written or shown. -/
def checkDigits (j : Json) : Except String Unit :=
  if j.hasLongInt then .error longIntegerMessage else .ok ()

end Json
end FieldPlan
