/-!
# Bytes in base 64

Four characters stand for three bytes; characters outside the alphabet are skipped. Padding ends the
bytes where it completes a group, elsewhere it is skipped too.
-/
namespace FieldPlan.Yaml.Binary

/-- The six bits of a character of the alphabet. -/
def bits? (c : Char) : Option Nat :=
  if 'A' ≤ c ∧ c ≤ 'Z' then some (c.toNat - 'A'.toNat)
  else if 'a' ≤ c ∧ c ≤ 'z' then some (c.toNat - 'a'.toNat + 26)
  else if c.isDigit then some (c.toNat - '0'.toNat + 52)
  else if c = '+' then some 62
  else if c = '/' then some 63
  else none

/-- The bytes of whole groups, and the characters of a group that is not whole. The group so far is
given by the number of its characters and their bits, the padding in it by its length. -/
def decodeFrom (size bits padding : Nat) : List Char → Option (List Nat)
  | [] => if size = 0 then some [] else none
  | c :: rest =>
    if c = '=' then
      if 2 ≤ size && 4 ≤ size + padding + 1 then some []
      else decodeFrom size bits (if 2 ≤ size then padding + 1 else padding) rest
    else match bits? c, size with
      | none, _ => decodeFrom size bits padding rest
      | some b, 0 => decodeFrom 1 b 0 rest
      | some b, 1 => (decodeFrom 2 (b % 16) 0 rest).map ((4 * bits + b / 16) :: ·)
      | some b, 2 => (decodeFrom 3 (b % 4) 0 rest).map ((16 * bits + b / 4) :: ·)
      | some b, _ => (decodeFrom 0 0 0 rest).map ((64 * bits + b) :: ·)

def decode? (cs : List Char) : Option (List Nat) := decodeFrom 0 0 0 cs

end FieldPlan.Yaml.Binary
