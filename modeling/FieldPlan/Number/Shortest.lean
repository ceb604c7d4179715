import FieldPlan.Number.Binary64
/-!
# Shortest decimal text

A finite number is written with the fewest decimal digits that read back as the same number, and
among those the nearest to it. `Binary64.text` adds the point or the exponent.
-/
namespace FieldPlan.Binary64

/-- The digits of a positive decimal: `digits * 10 ^ exponent`. -/
structure Decimal where
  digits : Nat
  exponent : Int

/-- A positive ratio that stands in the interval of reals that round to one number. -/
structure Rounding where
  num : Nat
  den : Nat
  /-- the ends of the interval, over `den` -/
  low : Nat
  high : Nat
  closed : Bool

/-- The interval of reals that round to the magnitude of a finite number. A power of two has half
the gap below it. All terms are over one denominator, a quarter of the unit in the last place. -/
def rounding (x : Binary64) : Rounding :=
  let (m, q) := x.magnitude
  let below := if x.fractionField = 0 ∧ x.exponentField > 1 then 1 else 2
  let (unit, den) := match q with
    | .ofNat k => (Nat.pow 2 k, 4)
    | .negSucc k => (1, 4 * Nat.pow 2 (k + 1))
  ⟨4 * m * unit, den, (4 * m - below) * unit, (4 * m + 2) * unit, m % 2 == 0⟩

/-- A decimal reads back as the number. -/
def Rounding.holds (r : Rounding) (d : Decimal) : Bool :=
  let (a, b) := match d.exponent with
    | .ofNat k => (d.digits * Nat.pow 10 k * r.den, 1)
    | .negSucc k => (d.digits * r.den, Nat.pow 10 (k + 1))
  if r.closed then r.low * b ≤ a && a ≤ r.high * b else r.low * b < a && a < r.high * b

/-- The exponent of the first decimal digit of `num / den`. -/
def leadingExponent (num den : Nat) : Int :=
  if den ≤ num then (digitCount (num / den) : Int) - 1
  else -(digitCount ((den - 1) / num) : Int)

/-- The decimals of `k + 1` digits on either side of a ratio whose first digit stands at `lead`, the
nearer first. -/
def neighbours (num den : Nat) (lead : Int) (k : Nat) : List Decimal :=
  let e := lead - k
  let (a, b) := match e with
    | .ofNat j => (num, den * Nat.pow 10 j)
    | .negSucc j => (num * Nat.pow 10 (j + 1), den)
  let floor := a / b
  let rest := a % b
  let below : Decimal := ⟨floor, e⟩
  let above : Decimal := ⟨floor + 1, e⟩
  if 2 * rest < b ∨ (2 * rest = b ∧ floor % 2 = 0) then [below, above] else [above, below]

/-- The shortest decimal of a finite positive magnitude; seventeen digits always suffice. -/
def shortest (x : Binary64) : Decimal :=
  let r := x.rounding
  let lead := leadingExponent r.num r.den
  let found := (List.range 17).findSome? fun k => (neighbours r.num r.den lead k).find? r.holds
  found.getD ⟨x.magnitude.1, 0⟩

/-- Digits and the place of the point: the value is `0.d₁d₂… * 10 ^ point`. -/
def Decimal.layout (d : Decimal) : List Char × Int :=
  let cs := Nat.toDigits 10 d.digits
  ((cs.reverse.dropWhile (· == '0')).reverse, cs.length + d.exponent)

/-- Positional from `1e-4` to below `1e16`, with at least one digit behind the point; otherwise an
exponent of at least two digits under its sign. -/
def Decimal.render (d : Decimal) : String :=
  let (ds, point) := d.layout
  let zeros (n : Int) := List.replicate n.toNat '0'
  if -4 < point ∧ point ≤ 16 then
    if point ≤ 0 then String.ofList ("0.".toList ++ zeros (-point) ++ ds)
    else if ds.length ≤ point.toNat then
      String.ofList (ds ++ zeros (point - ds.length) ++ ".0".toList)
    else String.ofList (ds.take point.toNat ++ '.' :: ds.drop point.toNat)
  else
    let e := point - 1
    let mantissa := match ds with
      | d :: f :: fs => d :: '.' :: f :: fs
      | ds => ds
    let digits := Nat.toDigits 10 e.natAbs
    let padded := if digits.length < 2 then '0' :: digits else digits
    String.ofList (mantissa ++ 'e' :: (if e < 0 then '-' else '+') :: padded)

def text (x : Binary64) : String :=
  if x.isNaN then "nan"
  else
    let magnitude :=
      if !x.isFinite then "inf"
      else if x.magnitude.1 = 0 then "0.0"
      else x.shortest.render
    if x.isNegative then "-" ++ magnitude else magnitude

end FieldPlan.Binary64
