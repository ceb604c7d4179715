import FieldPlan.Text.FormEncoded
import FieldPlan.Text.Surrogate
import FieldPlan.Yaml.Cursor
import FieldPlan.Yaml.Fault
/-!
# Quoted scalars

In single quotes a quote is written twice; in double quotes a backslash starts an escape. Blanks
around a line break are dropped, and the break is folded.
-/
namespace FieldPlan.Yaml.Quoted

def escapes : List (Char × Char) := [
  ('0', '\x00'), ('a', '\x07'), ('b', '\x08'), ('t', '\t'), ('\t', '\t'), ('n', '\n'),
  ('v', '\x0b'), ('f', '\x0c'), ('r', '\r'), ('e', '\x1b'), (' ', ' '), ('"', '"'),
  ('\\', '\\'), ('/', '/'), ('N', '\x85'), ('_', '\xa0'), ('L', '\u2028'), ('P', '\u2029')]

/-- How many hexadecimal digits name the code point of an escape. -/
def escapeWidths : List (Char × Nat) := [('x', 2), ('u', 4), ('U', 8)]

def hexNumber? (cs : List Char) : Option Nat :=
  cs.foldlM (fun n c => (Text.FormEncoded.hexValue? c).map (16 * n + ·)) 0

/-- The character of a code point given by its number; halves of surrogate pairs are kept. -/
def codePoint (n : Nat) : Except Fault Char :=
  match Text.ofCodePoint? n with
  | some c => .ok c
  | none => .error (if n < Nat.pow 2 31 then .range .codePoint else .escapeTooLarge)

/-- The breaks of blank lines, and the place where the next line with text starts. -/
def blankLines : Nat → Cursor → Except Fault (List Char × Cursor)
  | 0, c => .ok ([], c)
  | fuel + 1, c =>
    if c.atMarker then .error (.token .markerInQuote)
    else
      match (c.skip isBlank).takeBreak with
      | ([], next) => .ok ([], next)
      | (here, next) => (blankLines fuel next).map fun (more, next) => (here ++ more, next)

/-- What an escape stands for, after its backslash; an escaped line break stands for nothing. -/
def escape (fuel : Nat) (c : Cursor) : Except Fault (List Char × Cursor) :=
  match c.rest with
  | [] => .error (.token .escape)
  | ch :: rest =>
    match escapes.lookup ch, escapeWidths.lookup ch with
    | some d, _ => .ok ([d], c.step)
    | none, some width =>
      let digits := rest.take width
      match if digits.length = width then hexNumber? digits else none with
      | some n => (codePoint n).map fun d => ([d], c.advance (width + 1))
      | none => .error (.token .escape)
    | none, none => if isBreak ch then blankLines fuel c.step else .error (.token .escape)

/-- The text up to the closing quote, and the place behind it. -/
def body (quote : Char) : Nat → Cursor → Except Fault (List Char × Cursor)
  | 0, _ => .error (.token .unclosedQuote)
  | fuel + 1, c =>
    match c.rest with
    | [] => .error (.token .unclosedQuote)
    | ch :: rest =>
      if ch = quote && !(quote = '\'' && rest.head? = some quote) then .ok ([], c.step)
      else do
        let (here, next) ←
          if ch = quote then .ok ([quote], c.advance 2)
          else if quote = '"' && ch = '\\' then escape fuel c.step
          else if isGap ch then
            let (blanks, next) := c.span isBlank
            match next.takeBreak with
            | ([], next) => .ok (blanks, next)
            | (first, next) =>
              (blankLines fuel next).map fun (blank, next) => (fold first blank, next)
          else .ok ([ch], c.step)
        let (more, next) ← body quote fuel next
        return (here ++ more, next)

def read (quote : Char) (c : Cursor) : Except Fault (List Char × Cursor) :=
  body quote c.rest.length c.step

end FieldPlan.Yaml.Quoted
