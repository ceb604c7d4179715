import FieldPlan.Text.Basic
import FieldPlan.Text.Utf8
/-!
# Form-encoded pairs

A query string is read byte for byte: pairs stand between ampersands, the first equals sign of a
pair ends its key, a plus sign is a space, and percent escapes are decoded as UTF-8 within each
stretch of ASCII.
-/
namespace FieldPlan.Text.FormEncoded

def hexValue? (c : Char) : Option Nat :=
  if c.isDigit then some (c.toNat - '0'.toNat)
  else if 'a' ≤ c ∧ c ≤ 'f' then some (c.toNat - 'a'.toNat + 10)
  else if 'A' ≤ c ∧ c ≤ 'F' then some (c.toNat - 'A'.toNat + 10)
  else none

/-- The byte of two hexadecimal digits. -/
def escapedByte? (a b : Char) : Option Nat := do return 16 * (← hexValue? a) + (← hexValue? b)

/-- The bytes of ASCII characters with the percent escapes replaced; a percent sign that starts no
escape stands for itself. -/
def bytes : List Char → List Nat
  | '%' :: a :: b :: rest =>
    match escapedByte? a b with
    | some n => n :: bytes rest
    | none => '%'.toNat :: bytes (a :: b :: rest)
  | c :: rest => c.toNat :: bytes rest
  | [] => []

def isAscii (c : Char) : Bool := c.toNat < 0x80

/-- The characters with the escapes of each ASCII stretch decoded. -/
def unescape (cs : List Char) : List Char :=
  (cs.splitBy fun a b => isAscii a == isAscii b).flatMap fun stretch =>
    if stretch.all isAscii then Utf8.decode (bytes stretch) else stretch

/-- A key or a value as it was before encoding. -/
def component (cs : List Char) : String :=
  String.ofList (unescape (cs.map fun c => if c = '+' then ' ' else c))

/-- The pair a part spells; a part without an equals sign is a key with an empty value. -/
def pair (part : List Char) : String × String :=
  let (key, value) := cutChars '=' part
  (component key, component (value.getD []))

/-- The pairs of a query string, in order; empty parts are skipped. -/
def pairs (query : String) : List (String × String) :=
  let chars := query.toUTF8.toList.map fun b => Char.ofNat b.toNat
  ((splitChars '&' chars).filter (!·.isEmpty)).map pair

end FieldPlan.Text.FormEncoded
