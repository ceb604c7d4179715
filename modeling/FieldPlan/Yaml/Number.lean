import FieldPlan.Number.Spelled
import FieldPlan.Text.FormEncoded
import FieldPlan.Text.Integer
import FieldPlan.Yaml.Fault
/-!
# Numbers

The forms in which plain scalars are numbers, and the numbers that texts stand for. Integers may be
binary, octal, hexadecimal or in base sixty with colons; floats have a point. Underscores are
skipped.
-/
namespace FieldPlan.Yaml.Number

def isDigitOrLine (c : Char) : Bool := c.isDigit || c = '_'

/-- A digit, and digits and underscores after it. -/
def isGrouped (cs : List Char) : Bool :=
  (cs.head?.any Char.isDigit) && cs.all isDigitOrLine

/-- A part of a number in base sixty: a digit, or two below sixty. -/
def isSixtieth : List Char → Bool
  | [d] => d.isDigit
  | [t, d] => '0' ≤ t && t ≤ '5' && d.isDigit
  | _ => false

/-- An exponent under its sign, or nothing. -/
def isExponent : List Char → Bool
  | [] => true
  | e :: sign :: ds =>
    (e = 'e' || e = 'E') && (sign = '+' || sign = '-') && !ds.isEmpty && ds.all Char.isDigit
  | _ => false

/-- The form of an integer behind its sign. -/
def isIntegerBody (cs : List Char) : Bool :=
  let someOf (p : Char → Bool) (ds : List Char) : Bool := !ds.isEmpty && ds.all p
  match cs with
  | '0' :: 'b' :: ds => someOf (fun c => c = '0' || c = '1' || c = '_') ds
  | '0' :: 'x' :: ds => someOf (fun c => (Text.FormEncoded.hexValue? c).isSome || c = '_') ds
  | '0' :: ds => ds.all fun c => ('0' ≤ c && c ≤ '7') || c = '_'
  | _ =>
    match Text.splitChars ':' cs with
    | [] => false
    | whole :: parts => isGrouped whole && parts.all isSixtieth

def isInteger (cs : List Char) : Bool := isIntegerBody (Text.splitSign cs).2

/-- The form of a float that starts with a digit. -/
def isPointed (cs : List Char) : Bool :=
  match Text.cutChars '.' cs with
  | (_, none) => false
  | (before, some after) =>
    match Text.splitChars ':' before with
    | [whole] => isGrouped whole && isExponent (after.dropWhile isDigitOrLine)
    | whole :: parts => isGrouped whole && parts.all isSixtieth && after.all isDigitOrLine
    | [] => false

/-- The form of a float that starts with its point; it has no sign. -/
def isFraction : List Char → Bool
  | '.' :: cs =>
    isGrouped (cs.takeWhile isDigitOrLine) && isExponent (cs.dropWhile isDigitOrLine)
  | _ => false

def infinityWords : List String := [".inf", ".Inf", ".INF"]

def nanWords : List String := [".nan", ".NaN", ".NAN"]

def isFloat (cs : List Char) : Bool :=
  let body := (Text.splitSign cs).2
  isPointed body || isFraction cs || infinityWords.contains (String.ofList body) ||
    nanWords.contains (String.ofList cs)

/-- The value of a digit, a letter counting from ten. -/
def digit? (c : Char) : Option Nat := Text.digitValue c <|> Text.FormEncoded.hexValue? c

/-- The letter that may stand behind a zero in front of digits of a base. -/
def baseLetter? : Nat → Option Char
  | 2 => some 'b'
  | 8 => some 'o'
  | 16 => some 'x'
  | _ => none

/-- The digits behind the mark of their base, if they are marked. -/
def dropMark (base : Nat) (cs : List Char) : List Char :=
  match cs with
  | '0' :: c :: ds => if baseLetter? base = some c.toLower then ds else cs
  | _ => cs

/-- The natural that digits of a base spell. -/
def naturalOf? (base : Nat) (cs : List Char) : Option Nat :=
  if cs.isEmpty then none
  else cs.foldlM (fun n c => (digit? c).bind fun d =>
    if d < base then some (base * n + d) else none) 0

/-- The integer that a text of a base spells; blanks may stand around it. Only the digits of a base
that is no power of two are limited. -/
def integerOf (base : Nat) (cs : List Char) : Except Fault Int :=
  let (negative, body) := Text.splitSign (Text.trimChars cs)
  let ds := dropMark base body
  if base = 10 && Text.maxIntegerDigits < ds.length && (naturalOf? base (ds.take 1)).isSome then
    .error (.range (.longInteger ds.length))
  else match naturalOf? base ds with
    | some n => .ok (Text.withSign negative n)
    | none => .error (.range (.integer base cs))

/-- A text without its underscores and its sign. -/
def unsigned (cs : List Char) : Except Fault (Bool × List Char) :=
  match cs.filter (· != '_') with
  | [] => .error .noDigits
  | c :: rest =>
    if c = '-' then .ok (true, rest) else if c = '+' then .ok (false, rest)
    else .ok (false, c :: rest)

def integer (cs : List Char) : Except Fault Int := do
  let (negative, body) ← unsigned cs
  let n ← match body with
    | [] => .error .noDigits
    | ['0'] => .ok 0
    | '0' :: 'b' :: ds => integerOf 2 ds
    | '0' :: 'x' :: ds => integerOf 16 ds
    | '0' :: _ => integerOf 8 body
    | _ =>
      (Text.splitChars ':' body).foldlM (fun total part =>
        (integerOf 10 part).map (60 * total + ·)) 0
  return if negative then -n else n

def floatOf (cs : List Char) : Except Fault Binary64 :=
  match Binary64.spelled? cs with
  | some x => .ok x
  | none => .error (.range (.float cs))

def negate (negative : Bool) (x : Binary64) : Binary64 :=
  if negative then .ofFloat (-x.toFloat) else x

/-- The sum of parts, the last one first, each weighing sixty times the one before. -/
def sixtieths (parts : List Binary64) : Binary64 :=
  .ofFloat (parts.zipIdx.foldl (fun total (x, i) =>
    total + x.toFloat * (Binary64.ofInt (Nat.pow 60 i)).toFloat) 0)

def float (cs : List Char) : Except Fault Binary64 := do
  let (negative, body) ← unsigned (Text.lowerChars cs)
  if body = ".inf".toList then return .infinity negative
  else if body = ".nan".toList then return .nan
  else match Text.splitChars ':' body with
    | [_] => return negate negative (← floatOf body)
    | parts => return negate negative (sixtieths (← parts.mapM floatOf).reverse)

end FieldPlan.Yaml.Number
