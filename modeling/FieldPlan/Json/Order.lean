import FieldPlan.Json.Basic
/-!
# Order of values

Texts are compared with texts, numbers with numbers and arrays with arrays item by item; a flag
counts as zero or one. Other values have no order.
-/
namespace FieldPlan.Json

/-- Two values without an order, by the names of their kinds. -/
structure Incomparable where
  left : String
  right : String
  deriving DecidableEq, Repr

def Incomparable.message (e : Incomparable) : String :=
  s!"'<' not supported between instances of '{e.left}' and '{e.right}'"

def kindName : Json → String
  | null => "NoneType"
  | bool _ => "bool"
  | int _ => "int"
  | float _ => "float"
  | string _ => "str"
  | array _ => "list"
  | object _ => "dict"

/-- A number as `mantissa * 2 ^ exponent`; the infinities lie one rank outside. -/
structure Scaled where
  rank : Int
  mantissa : Int
  exponent : Int

/-- A number or a flag; not-a-number is none. -/
def scaled? : Json → Option Scaled
  | bool b => some ⟨0, if b then 1 else 0, 0⟩
  | int n => some ⟨0, n, 0⟩
  | float x =>
    if x.isNaN then none
    else if !x.isFinite then some ⟨if x.isNegative then -1 else 1, 0, 0⟩
    else
      let (m, q) := x.magnitude
      some ⟨0, if x.isNegative then -m else m, q⟩
  | _ => none

def isNumber : Json → Bool
  | bool _ | int _ | float _ => true
  | _ => false

/-- The mantissas of two numbers over the smaller of their exponents. -/
def Scaled.aligned (a b : Scaled) : Int × Int :=
  let q := min a.exponent b.exponent
  (a.mantissa * Nat.pow 2 (a.exponent - q).toNat, b.mantissa * Nat.pow 2 (b.exponent - q).toNat)

def Scaled.less (a b : Scaled) : Bool :=
  let (m, n) := a.aligned b
  a.rank < b.rank || (a.rank = b.rank && m < n)

def Scaled.same (a b : Scaled) : Bool :=
  let (m, n) := a.aligned b
  a.rank = b.rank && m = n

def sameNumber (a b : Json) : Bool :=
  match scaled? a, scaled? b with
  | some x, some y => x.same y
  | _, _ => false

mutual

/-- Equal as values: numbers by their size, objects whatever the order of their entries. -/
def same : Json → Json → Bool
  | null, null => true
  | string s, string t => s == t
  | array as, array bs => sameItems as bs
  | object as, object bs => as.length == bs.length && sameEntries as bs
  | a, b => sameNumber a b

def sameItems : List Json → List Json → Bool
  | [], [] => true
  | a :: as, b :: bs => same a b && sameItems as bs
  | _, _ => false

def sameEntries : List (String × Json) → List (String × Json) → Bool
  | [], _ => true
  | (key, a) :: as, bs =>
    (match bs.lookup key with
      | some b => same a b
      | none => false) && sameEntries as bs

end

mutual

/-- The first value comes before the second. -/
def less : Json → Json → Except Incomparable Bool
  | string s, string t => .ok (s < t)
  | array as, array bs => lessItems as bs
  | a, b =>
    if a.isNumber && b.isNumber then
      match scaled? a, scaled? b with
      | some x, some y => .ok (x.less y)
      | _, _ => .ok false
    else .error ⟨a.kindName, b.kindName⟩

/-- Arrays are ordered by their first items that differ. -/
def lessItems : List Json → List Json → Except Incomparable Bool
  | _, [] => .ok false
  | [], _ => .ok true
  | a :: as, b :: bs => if same a b then lessItems as bs else less a b

end

/-- The values in ascending order, if all neighbours are comparable. -/
def ascending (js : List Json) : Except Incomparable (List Json) := do
  let _ ← (js.zip (js.drop 1)).mapM fun (a, b) => less b a
  return js.mergeSort fun a b => !((less b a).toOption.getD false)

/-- The values without repetitions; arrays and objects are not told apart, so that there is no
answer for them. -/
def distinct? (js : List Json) : Option (List Json) :=
  if js.any isCollection then none
  else some (js.eraseDupsBy same)

end FieldPlan.Json
