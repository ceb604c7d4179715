import FieldPlan.Text.Case
/-!
# Identifiers as words

`snakeCase` separates words by underscores, `camelCase` and `pascalCase` by capitals. Only the
letters A to Z separate words; all letters are lowered.
-/
namespace FieldPlan.Text

def isCapital (c : Char) : Bool := 'A' ≤ c && c ≤ 'Z'

def isSmall (c : Char) : Bool := 'a' ≤ c && c ≤ 'z'

/-- Sets an underscore before the last capital of each run of two or more that a small letter
follows, so that the run ends where the next word begins. -/
def splitAcronyms : List Char → List Char
  | a :: b :: c :: rest =>
    if isCapital a && isCapital b && isSmall c then a :: '_' :: b :: c :: splitAcronyms rest
    else a :: splitAcronyms (b :: c :: rest)
  | cs => cs

/-- Sets an underscore before every capital. -/
def splitCapitals (cs : List Char) : List Char :=
  cs.flatMap fun c => if isCapital c then ['_', c] else [c]

def snakeCase (s : String) : String :=
  match splitAcronyms s.toList with
  | [] => ""
  | c :: rest => String.ofList (lowerChars (c :: splitCapitals rest))

/-- Drops each underscore that a small letter or a digit follows, and raises what follows. -/
def camelChars : List Char → List Char
  | [] => []
  | [c] => [c]
  | c :: d :: rest =>
    if c = '_' && (isSmall d || d.isDigit) then d.toUpper :: camelChars rest
    else c :: camelChars (d :: rest)

def camelCase (s : String) : String := String.ofList (camelChars s.toList)

def pascalCase (s : String) : String :=
  match camelChars s.toList with
  | [] => ""
  | c :: rest => String.ofList (upperChar c ++ rest)

end FieldPlan.Text
