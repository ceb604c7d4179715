import FieldPlan.Json.Basic
import FieldPlan.Text.Case
import FieldPlan.Text.Integer
import FieldPlan.Text.Surrogate
/-!
# Reading data with located faults

A reader turns a JSON value into a value of the domain or reports every fault with the path to
where it lies. Readers are lenient: a number may be given as text, a flag as a word.
-/
namespace FieldPlan.Validation

inductive FaultKind where
  | missing
  | text
  /-- a text with half of a surrogate pair, where its characters matter -/
  | illFormed
  | integer
  | integerText
  | integerTextSize
  | fractionalInteger
  | finiteNumber
  | flag
  | flagText
  | list
  | tuple
  | tooLong
  | mapping
  | record
  | recordOrObject
  | oneOf
  | enumeration
  | belowMinimum
  | unknownTag
  | missingTag
  | condition
  deriving DecidableEq, Repr

def FaultKind.code : FaultKind → String
  | missing => "missing"
  | text => "string_type"
  | illFormed => "string_unicode"
  | integer => "int_type"
  | integerText => "int_parsing"
  | integerTextSize => "int_parsing_size"
  | fractionalInteger => "int_from_float"
  | finiteNumber => "finite_number"
  | flag => "bool_type"
  | flagText => "bool_parsing"
  | list => "list_type"
  | tuple => "tuple_type"
  | tooLong => "too_long"
  | mapping => "dict_type"
  | record => "model_type"
  | recordOrObject => "model_attributes_type"
  | oneOf => "literal_error"
  | enumeration => "enum"
  | belowMinimum => "greater_than_equal"
  | unknownTag => "union_tag_invalid"
  | missingTag => "union_tag_not_found"
  | condition => "value_error"

/-- A fault and the path to it. -/
structure Fault where
  path : List String
  kind : FaultKind
  deriving DecidableEq, Repr

/-- A value, or all the faults of the data it was read from. -/
abbrev Checked (α : Type) := Except (List Fault) α

namespace Checked

def fault {α : Type} (kind : FaultKind) : Checked α := .error [⟨[], kind⟩]

/-- Applies a function to an argument; the faults of both are reported. -/
def and {α β : Type} (f : Checked (α → β)) (a : Checked α) : Checked β :=
  match f, a with
  | .ok f, .ok a => .ok (f a)
  | .ok _, .error e => .error e
  | .error e, .ok _ => .error e
  | .error e, .error e' => .error (e ++ e')

/-- Places faults below a step of the path. -/
def under {α : Type} (step : String) (a : Checked α) : Checked α :=
  a.mapError fun faults => faults.map fun f => { f with path := step :: f.path }

/-- The values at all positions, or the faults of all. -/
def all {α : Type} (items : List (Checked α)) : Checked (List α) :=
  items.foldr (fun a rest => and (and (.ok List.cons) a) rest) (.ok [])

end Checked

abbrev Reader (α : Type) := Json → Checked α

def text : Reader String
  | .string s => .ok s
  | _ => .fault .text

/-- The characters before a point, where only zeros follow it. -/
def dropZeroFraction (cs : List Char) : List Char :=
  let (whole, fraction) := Text.cutChars '.' cs
  match fraction with
  | some zeros => if zeros.all (· == '0') then whole else cs
  | none => cs

/-- What is left after a leading zero: further zeros go, and underscores with them, but the last
character stays where no digit follows. -/
def dropZerosAfter (last : Char) : List Char → List Char
  | [] => [last]
  | c :: rest =>
    if c = '0' || c = '_' then dropZerosAfter c rest
    else if c = '.' then last :: c :: rest
    else c :: rest

/-- The characters without leading zeros; a zero alone stays. -/
def dropLeadingZeros : List Char → List Char
  | '0' :: rest => dropZerosAfter '0' rest
  | cs => cs

def asciiDigit (c : Char) : Option Nat := if c.isDigit then some (c.toNat - '0'.toNat) else none

/-- An integer text: a sign, digits with single underscores between them, and a point with zeros;
blanks around it do not count. -/
def integerOfText (s : String) : Checked Int :=
  if !Text.isWellFormed s then .fault .illFormed
  else if Text.maxIntegerDigits < s.utf8ByteSize then .fault .integerTextSize
  else
    let (negative, body) := Text.splitSign (Text.trimSpace s.toList)
    match Text.groupedDigits asciiDigit (dropZeroFraction (dropLeadingZeros body)) with
    | some ds => .ok (Text.withSign negative (Text.ofDigits ds))
    | none => .fault .integerText

def isWord (n : Int) : Bool := -Nat.pow 2 63 ≤ n && n < Nat.pow 2 63

/-- The integer that a number without fraction is. Numbers beyond the words are too large, and so
is the least word. -/
def integerOfFloat (x : Binary64) : Checked Int :=
  if !x.isFinite then .fault .finiteNumber
  else match x.toInt? with
    | none => .fault .fractionalInteger
    | some n => if isWord n && n != -Nat.pow 2 63 then .ok n else .fault .integerTextSize

/-- An integer, also as text, as a flag or as a number without fraction. -/
def integer : Reader Int
  | .int n => .ok n
  | .bool b => .ok (if b then 1 else 0)
  | .float x => integerOfFloat x
  | .string s => integerOfText s
  | _ => .fault .integer

def integerFrom (bound : Int) : Reader Int := fun j =>
  integer j >>= fun n => if bound ≤ n then .ok n else .fault .belowMinimum

def trueWords : List String := ["1", "on", "t", "true", "y", "yes"]

def falseWords : List String := ["0", "off", "f", "false", "n", "no"]

def flagOfInt (n : Int) : Checked Bool :=
  if n = 0 then .ok false else if n = 1 then .ok true else .fault .flagText

/-- A flag, also as zero or one or as a word in any case. -/
def flag : Reader Bool
  | .bool b => .ok b
  | .int n => if isWord n then flagOfInt n else .fault .flag
  | .float x =>
    match integerOfFloat x with
    | .ok n => flagOfInt n
    | .error _ => .fault .flag
  | .string s =>
    let word := Text.lower s
    if word ∈ trueWords then .ok true
    else if word ∈ falseWords then .ok false
    else .fault .flagText
  | _ => .fault .flag

def nullable {α : Type} (read : Reader α) : Reader (Option α)
  | .null => .ok none
  | j => (read j).map some

/-- The items of an array, each under its position. -/
def items {α : Type} (kind : FaultKind) (read : Reader α) : Reader (List α)
  | .array js => Checked.all (js.zipIdx.map fun (j, i) => (read j).under (toString i))
  | _ => .fault kind

def list {α : Type} (read : Reader α) : Reader (List α) := items .list read

def tuple {α : Type} (read : Reader α) : Reader (List α) := items .tuple read

def pair {α β : Type} (first : Reader α) (second : Reader β) : Reader (α × β)
  | .array [a, b] =>
    Checked.and (Checked.and (.ok Prod.mk) ((first a).under "0")) ((second b).under "1")
  | .array [] => .error [⟨["0"], .missing⟩, ⟨["1"], .missing⟩]
  | .array [a] =>
    Checked.and (Checked.and (.ok Prod.mk) ((first a).under "0")) (.error [⟨["1"], .missing⟩])
  | .array _ => .fault .tooLong
  | _ => .fault .tuple

/-- One of the words, as what it stands for. -/
def word {α : Type} (kind : FaultKind) (meaning : String → Option α) : Reader α
  | .string s =>
    match meaning s with
    | some a => .ok a
    | none => .fault (if Text.isWellFormed s then kind else .illFormed)
  | _ => .fault kind

/-- A member of a record; without it the default is taken, and without a default it is missing. -/
def member {α : Type} (entries : List (String × Json)) (name : String) (default? : Option α)
    (read : Reader α) : Checked α :=
  match entries.lookup name, default? with
  | some j, _ => (read j).under name
  | none, some a => .ok a
  | none, none => .error [⟨[name], .missing⟩]

/-- Order on paths and codes for reports. -/
def Fault.le (a b : Fault) : Bool :=
  if a.path = b.path then a.kind.code ≤ b.kind.code else !decide (b.path < a.path)

def report (faults : List Fault) : List Fault := faults.mergeSort Fault.le

end FieldPlan.Validation
