import FieldPlan.Text.Basic
/-!
# Integers written in text

An integer is an optional sign and decimal digits of any script, single underscores allowed
between two digits, blanks allowed around the whole. Texts of more than 4300 digits are refused.
-/
namespace FieldPlan.Text

/-- The zeros of the decimal digit runs of Unicode 14; each is followed by its other nine digits. -/
def digitZeros : List Nat := [
  0x30, 0x660, 0x6f0, 0x7c0, 0x966, 0x9e6, 0xa66, 0xae6, 0xb66, 0xbe6, 0xc66, 0xce6, 0xd66, 0xde6,
  0xe50, 0xed0, 0xf20, 0x1040, 0x1090, 0x17e0, 0x1810, 0x1946, 0x19d0, 0x1a80, 0x1a90, 0x1b50,
  0x1bb0, 0x1c40, 0x1c50, 0xa620, 0xa8d0, 0xa900, 0xa9d0, 0xa9f0, 0xaa50, 0xabf0, 0xff10, 0x104a0,
  0x10d30, 0x11066, 0x110f0, 0x11136, 0x111d0, 0x112f0, 0x11450, 0x114d0, 0x11650, 0x116c0,
  0x11730, 0x118e0, 0x11950, 0x11c50, 0x11d50, 0x11da0, 0x16a60, 0x16ac0, 0x16b50, 0x1d7ce,
  0x1d7d8, 0x1d7e2, 0x1d7ec, 0x1d7f6, 0x1e140, 0x1e2f0, 0x1e950, 0x1fbf0]

/-- The value of a decimal digit of any script. -/
def digitValue (c : Char) : Option Nat :=
  digitZeros.findSome? fun z => if z ≤ c.toNat && c.toNat < z + 10 then some (c.toNat - z) else none

/-- The digits of a text in which an underscore may stand between two digits. -/
def groupedDigits (value : Char → Option Nat) : List Char → Option (List Nat)
  | [] => none
  | [c] => (value c).map ([·])
  | c :: '_' :: rest => do return (← value c) :: (← groupedDigits value rest)
  | c :: rest => do return (← value c) :: (← groupedDigits value rest)

/-- The number that decimal digits spell, most significant first. -/
def ofDigits (ds : List Nat) : Nat := ds.foldl (fun n d => 10 * n + d) 0

/-- The sign in front of a number, and the rest. -/
def splitSign : List Char → Bool × List Char
  | '-' :: rest => (true, rest)
  | '+' :: rest => (false, rest)
  | cs => (false, cs)

def withSign (negative : Bool) (n : Nat) : Int := if negative then -(n : Int) else n

/-- The most digits an integer text may have. -/
def maxIntegerDigits : Nat := 4300

def readInteger (s : String) : Option Int := do
  let (negative, body) := splitSign (trimChars s.toList)
  let ds ← groupedDigits digitValue body
  if ds.length ≤ maxIntegerDigits then some (withSign negative (ofDigits ds)) else none

end FieldPlan.Text
