import FieldPlan.Number.Binary64
import FieldPlan.Text.Case
import FieldPlan.Text.Integer
/-!
# Numbers spelled in text

A number in text is an optional sign and decimal digits of any script, with a point and an exponent
if there are any; single underscores may stand between digits and blanks around the whole. The
infinities and not-a-number have names.
-/
namespace FieldPlan.Binary64

def isDigit (c : Char) : Bool := (Text.digitValue c).isSome

/-- The characters without the underscores between two digits; none if one stands elsewhere. -/
def ungrouped : List Char → Option (List Char)
  | [] => some []
  | '_' :: _ => none
  | c :: '_' :: d :: rest =>
    if isDigit c && isDigit d then (ungrouped (d :: rest)).map (c :: ·) else none
  | c :: rest => (ungrouped rest).map (c :: ·)

/-- The number that digits with a point and an exponent spell. -/
def decimal? (negative : Bool) (cs : List Char) : Option Binary64 :=
  let whole := cs.takeWhile isDigit
  let rest := cs.dropWhile isDigit
  let (fraction, rest) := match rest with
    | '.' :: more => (more.takeWhile isDigit, more.dropWhile isDigit)
    | _ => ([], rest)
  let exponent? := match rest with
    | [] => some 0
    | c :: more =>
      let (down, ds) := Text.splitSign more
      if c = 'e' && !ds.isEmpty then
        (ds.mapM Text.digitValue).map fun ds => Text.withSign down (Text.ofDigits ds)
      else none
  let digits := (whole ++ fraction).filterMap Text.digitValue
  if digits.isEmpty then none
  else exponent?.map fun e => .ofDecimal negative (Text.ofDigits digits) (e - fraction.length)

def spelled? (cs : List Char) : Option Binary64 := do
  let (negative, body) := Text.splitSign (Text.trimChars (Text.lowerChars cs))
  let word := String.ofList body
  if word = "inf" || word = "infinity" then return .infinity negative
  else if word = "nan" then return .nan
  else decimal? negative (← ungrouped body)

end FieldPlan.Binary64
