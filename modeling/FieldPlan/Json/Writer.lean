import FieldPlan.Entries
import FieldPlan.Json.Basic
import FieldPlan.Text.Surrogate
/-!
# JSON text

Values are written with a choice of separators and of escapes. Canonical text has sorted keys, no
spaces and ASCII characters only; stored text keeps the order of the entries and every character
that needs no escape.
-/
namespace FieldPlan.Json

structure Style where
  itemSeparator : String
  keySeparator : String
  /-- Characters outside ASCII, and `0x7f`, are written by their UTF-16 units. -/
  asciiOnly : Bool

def unitEscape (unit : Nat) : List Char := ['\\', 'u'] ++ Text.hexDigits 4 unit

/-- The UTF-16 units of a character as escapes; a half of a pair is one unit. -/
def unitEscapes (c : Char) : List Char :=
  let n := (Text.half? c).getD c.toNat
  if n < 0x10000 then unitEscape n
  else unitEscape (0xd800 + (n - 0x10000) / 0x400) ++ unitEscape (0xdc00 + (n - 0x10000) % 0x400)

def stringChar (asciiOnly : Bool) (c : Char) : List Char :=
  if c = '"' then ['\\', '"']
  else if c = '\\' then ['\\', '\\']
  else if c = '\n' then ['\\', 'n']
  else if c = '\r' then ['\\', 'r']
  else if c = '\t' then ['\\', 't']
  else if c.toNat = 0x08 then ['\\', 'b']
  else if c.toNat = 0x0c then ['\\', 'f']
  else if c.toNat < 0x20 then unitEscape c.toNat
  else if asciiOnly && 0x7f ≤ c.toNat then unitEscapes c
  else [c]

def stringChars (asciiOnly : Bool) (s : String) : List Char :=
  '"' :: s.toList.flatMap (stringChar asciiOnly) ++ ['"']

/-- Not-a-number and the infinities have names; other numbers their shortest text. -/
def floatChars (x : Binary64) : List Char :=
  if x.isNaN then "NaN".toList
  else if !x.isFinite then (if x.isNegative then "-Infinity" else "Infinity").toList
  else x.text.toList

mutual

def writeChars (style : Style) : Json → List Char
  | null => "null".toList
  | bool b => (if b then "true" else "false").toList
  | int n => intChars n
  | float x => floatChars x
  | string s => stringChars style.asciiOnly s
  | array [] => ['[', ']']
  | array (j :: rest) => '[' :: writeChars style j ++ writeItems style rest ++ [']']
  | object [] => ['\x7b', '\x7d']
  | object ((key, j) :: rest) =>
    '\x7b' :: stringChars style.asciiOnly key ++ style.keySeparator.toList ++ writeChars style j ++
      writeEntries style rest ++ ['\x7d']

def writeItems (style : Style) : List Json → List Char
  | [] => []
  | j :: rest => style.itemSeparator.toList ++ writeChars style j ++ writeItems style rest

def writeEntries (style : Style) : List (String × Json) → List Char
  | [] => []
  | (key, j) :: rest =>
    style.itemSeparator.toList ++ stringChars style.asciiOnly key ++ style.keySeparator.toList ++
      writeChars style j ++ writeEntries style rest

end

def write (style : Style) (j : Json) : String := String.ofList (writeChars style j)

mutual

def sortKeys : Json → Json
  | array items => array (sortKeysItems items)
  | object entries => object (Entries.sorted (sortKeysEntries entries))
  | j => j

def sortKeysItems : List Json → List Json
  | [] => []
  | j :: rest => sortKeys j :: sortKeysItems rest

def sortKeysEntries : List (String × Json) → List (String × Json)
  | [] => []
  | (key, j) :: rest => (key, sortKeys j) :: sortKeysEntries rest

end

def compact : Style := ⟨",", ":", true⟩

def stored : Style := ⟨", ", ": ", false⟩

/-- One text for all objects that differ in the order of their entries only. -/
def canonicalText (j : Json) : String := write compact (sortKeys j)

def storedText (j : Json) : String := write stored j

end FieldPlan.Json
