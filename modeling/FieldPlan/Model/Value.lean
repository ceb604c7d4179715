import FieldPlan.Json.Basic
/-!
# Stored values

What the columns of a database hold. Values are ordered across kinds: nothing, numbers, texts.
Flags are stored as the numbers zero and one.
-/
namespace FieldPlan

inductive Value where
  | null
  | int (n : Int)
  | real (x : Binary64)
  | text (s : String)
  deriving DecidableEq, Inhabited

namespace Value

def ofJson : Json → Value
  | .null => null
  | .bool b => int (if b then 1 else 0)
  | .int n => int n
  | .float x => if x.isNaN then null else real x
  | .string s => text s
  | j@(.array _) | j@(.object _) => text j.literal

def toJson : Value → Json
  | null => .null
  | int n => .int n
  | real x => .float x
  | text s => .string s

/-- A number in units of `2 ^ -1074`, of which every finite number is a whole multiple; the
infinities lie beyond. -/
def scaled : Value → Int
  | int n => n * Nat.pow 2 1074
  | real x =>
    let (m, q) := x.magnitude
    let size : Int := if x.isFinite then m * Nat.pow 2 (q + 1074).toNat else Nat.pow 2 4096
    if x.isNegative then -size else size
  | _ => 0

def le : Value → Value → Bool
  | null, _ => true
  | _, null => false
  | text a, text b => a ≤ b
  | text _, _ => false
  | _, text _ => true
  | a, b => a.scaled ≤ b.scaled

def isNull : Value → Bool
  | null => true
  | _ => false

/-- Two values that are there and equal. -/
def matches? (a b : Value) : Bool := !a.isNull && !b.isNull && a.le b && b.le a

def toReal : Value → Binary64
  | int n => .ofInt n
  | real x => x
  | _ => .ofInt 0

def ints? (values : List Value) : Option (List Int) :=
  values.mapM fun v => match v with
    | int n => some n
    | _ => none

/-- The sum of numbers one after the other. -/
def sumReals (values : List Value) : Binary64 :=
  .ofFloat (values.foldl (fun total v => total + v.toReal.toFloat) 0)

def total (ns : List Int) : Int := ns.foldl (· + ·) 0

/-- The sum of the values that are there; of integers it is an integer, of no values nothing. -/
def sum (values : List Value) : Value :=
  let there := values.filter (!·.isNull)
  if there.isEmpty then null
  else match ints? there with
    | some ns => int (total ns)
    | none => real (sumReals there)

/-- The mean of the values that are there; of no values nothing. -/
def average (values : List Value) : Value :=
  let there := values.filter (!·.isNull)
  if there.isEmpty then null
  else match ints? there with
    | some ns => real (.ofRatio (total ns < 0) (total ns).natAbs there.length)
    | none => real (.ofFloat ((sumReals there).toFloat / there.length.toFloat))

end Value
end FieldPlan
