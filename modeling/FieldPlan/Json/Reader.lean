import FieldPlan.Entries
import FieldPlan.Json.Basic
import FieldPlan.Text.FormEncoded
import FieldPlan.Text.Integer
import FieldPlan.Text.Surrogate
/-!
# Reading JSON text

The grammar of JSON with `NaN`, `Infinity` and `-Infinity` as further numbers. The last of several
entries with one key wins and stands where the first stood. A fault names what was expected where
reading stopped. Half of a surrogate pair is kept as one.
-/
namespace FieldPlan

/-- What the call stack leaves for values within each other. It is enough for plans to be read back
and for texts to be shown. -/
class Room where
  /-- arrays and objects within each other that can be read -/
  reading : Nat
  /-- values within each other that can be shown in a message -/
  showing : Nat
  four_le_reading : 4 ≤ reading
  one_le_showing : 1 ≤ showing

/-- What is left where little else has been called. -/
@[reducible]
def Room.usual : Room where
  reading := 988
  showing := 990
  four_le_reading := by decide
  one_le_showing := by decide

namespace Json

inductive Fault where
  | byteOrderMark
  | value
  | extraData
  | propertyName
  | colon
  | comma
  | unterminatedString
  | controlCharacter
  | escape
  | unicodeEscape
  /-- an integer of this many digits, more than are read -/
  | longInteger (digits : Nat)
  /-- arrays and objects within each other beyond the limit -/
  | tooDeep
  deriving DecidableEq, Repr

def Fault.message : Fault → String
  | byteOrderMark => "Unexpected UTF-8 BOM (decode using utf-8-sig)"
  | value => "Expecting value"
  | extraData => "Extra data"
  | propertyName => "Expecting property name enclosed in double quotes"
  | colon => "Expecting ':' delimiter"
  | comma => "Expecting ',' delimiter"
  | unterminatedString => "Unterminated string starting at"
  | controlCharacter => "Invalid control character at"
  | escape => "Invalid \\escape"
  | unicodeEscape => "Invalid \\uXXXX escape"
  | longInteger n => s!"Exceeds the limit ({Text.maxIntegerDigits} digits) for integer string " ++
      s!"conversion: value has {n} digits; use sys.set_int_max_str_digits() to increase the limit"
  | tooDeep => "Too many arrays and objects within each other"

structure Limits where
  digits : Option Nat
  /-- arrays and objects within each other -/
  depth : Option Nat

def Limits.none : Limits := ⟨.none, .none⟩

def Limits.standard [Room] : Limits := ⟨some Text.maxIntegerDigits, some Room.reading⟩

def isSpace (c : Char) : Bool := c = ' ' || c = '\t' || c = '\n' || c = '\r'

def skipSpace (cs : List Char) : List Char := cs.dropWhile isSpace

/-- The UTF-16 unit of four hexadecimal digits; a character must follow them. -/
def unit? : List Char → Option (Nat × List Char)
  | a :: b :: c :: d :: e :: rest => do
    let n := 4096 * (← Text.FormEncoded.hexValue? a) + 256 * (← Text.FormEncoded.hexValue? b) +
      16 * (← Text.FormEncoded.hexValue? c) + (← Text.FormEncoded.hexValue? d)
    return (n, e :: rest)
  | _ => none

theorem length_unit? {cs rest : List Char} {n : Nat} (h : unit? cs = some (n, rest)) :
    rest.length < cs.length := by
  match cs with
  | [] | [_] | [_, _] | [_, _, _] | [_, _, _, _] => simp [unit?] at h
  | a :: b :: c :: d :: e :: r =>
    simp only [unit?, Option.bind_eq_bind, Option.bind_eq_some_iff, pure, Option.some.injEq,
      Prod.mk.injEq] at h
    obtain ⟨_, _, _, _, _, _, _, _, _, rfl⟩ := h
    simp only [List.length_cons]
    omega

/-- The character of a unit, joined with the low half after it if it is a high half. -/
def unitChar (n : Nat) (rest : List Char) : Char × List Char :=
  if 0xd800 ≤ n ∧ n < 0xdc00 then
    match rest with
    | '\\' :: 'u' :: more =>
      match unit? more with
      | some (low, rest') =>
        if 0xdc00 ≤ low ∧ low < 0xe000 then
          (Char.ofNat (0x10000 + 0x400 * (n - 0xd800) + (low - 0xdc00)), rest')
        else (Text.ofHalf n, rest)
      | none => (Text.ofHalf n, rest)
    | _ => (Text.ofHalf n, rest)
  else if 0xdc00 ≤ n ∧ n < 0xe000 then (Text.ofHalf n, rest)
  else (Char.ofNat n, rest)

theorem length_unitChar_le (n : Nat) (rest : List Char) :
    (unitChar n rest).2.length ≤ rest.length := by
  unfold unitChar
  split
  · split
    · next more =>
      split
      · next low rest' h =>
        have := length_unit? h
        split
        · simp only [List.length_cons]; omega
        · exact Nat.le_refl _
      · exact Nat.le_refl _
    · exact Nat.le_refl _
  · split <;> exact Nat.le_refl _

/-- The character of an escape, after its backslash. -/
def escapedChar : List Char → Except Fault (Char × List Char)
  | [] => .error .unterminatedString
  | '"' :: rest => .ok ('"', rest)
  | '\\' :: rest => .ok ('\\', rest)
  | '/' :: rest => .ok ('/', rest)
  | 'b' :: rest => .ok (Char.ofNat 8, rest)
  | 'f' :: rest => .ok (Char.ofNat 12, rest)
  | 'n' :: rest => .ok ('\n', rest)
  | 'r' :: rest => .ok ('\r', rest)
  | 't' :: rest => .ok ('\t', rest)
  | 'u' :: rest =>
    match unit? rest with
    | some (n, rest') => .ok (unitChar n rest')
    | none => .error .unicodeEscape
  | _ :: _ => .error .escape

theorem length_escapedChar {cs rest : List Char} {c : Char}
    (h : escapedChar cs = .ok (c, rest)) : rest.length < cs.length := by
  unfold escapedChar at h
  split at h <;> try simp_all
  · next r =>
    split at h
    · next n r' hu =>
      have h1 := length_unit? hu
      have h2 := length_unitChar_le n r'
      have h3 : (unitChar n r').2 = rest := by
        have := Except.ok.inj h
        rw [this]
      rw [h3] at h2
      omega
    · simp at h

/-- The characters of a string after its opening quote, and what follows the closing one. -/
def stringBody (cs : List Char) : Except Fault (List Char × List Char) :=
  match cs with
  | [] => .error .unterminatedString
  | c :: rest =>
    if c = '"' then .ok ([], rest)
    else if c = '\\' then
      match h : escapedChar rest with
      | .error e => .error e
      | .ok (d, rest') =>
        have := length_escapedChar h
        match stringBody rest' with
        | .error e => .error e
        | .ok (ds, tail) => .ok (d :: ds, tail)
    else if c.toNat ≤ 0x1f then .error .controlCharacter
    else match stringBody rest with
      | .error e => .error e
      | .ok (ds, tail) => .ok (c :: ds, tail)
termination_by cs.length
decreasing_by all_goals (simp only [List.length_cons]; omega)

def digitsOf (cs : List Char) : List Nat := cs.map fun c => c.toNat - '0'.toNat

/-- The digits before the point: a single zero, or digits that start with another. -/
def wholeDigits (cs : List Char) : Option (List Char × List Char) :=
  match cs with
  | '0' :: rest => some (['0'], rest)
  | c :: _ => if c.isDigit then some (cs.takeWhile Char.isDigit, cs.dropWhile Char.isDigit) else none
  | [] => none

/-- A point and the digits behind it; nothing is taken when there are none. -/
def fractionDigits (cs : List Char) : List Char × List Char :=
  match cs with
  | '.' :: rest =>
    let ds := rest.takeWhile Char.isDigit
    if ds.isEmpty then ([], cs) else (ds, rest.dropWhile Char.isDigit)
  | _ => ([], cs)

/-- An exponent; nothing is taken when it has no digits. -/
def exponent? (cs : List Char) : Option Int × List Char :=
  match cs with
  | c :: rest =>
    if c = 'e' ∨ c = 'E' then
      let (negative, body) := Text.splitSign rest
      let ds := body.takeWhile Char.isDigit
      if ds.isEmpty then (none, cs)
      else (some (Text.withSign negative (Text.ofDigits (digitsOf ds))), body.dropWhile Char.isDigit)
    else (none, cs)
  | [] => (none, cs)

/-- A number with a fraction or an exponent is a float, any other an integer. -/
def number (limit : Option Nat) (cs : List Char) : Except Fault (Json × List Char) :=
  let (negative, body) := match cs with
    | '-' :: rest => (true, rest)
    | _ => (false, cs)
  match wholeDigits body with
  | none => .error .value
  | some (whole, rest) =>
    let (fraction, rest) := fractionDigits rest
    let (exponent, rest) := exponent? rest
    if fraction.isEmpty && exponent.isNone then
      if limit.any (· < whole.length) then .error (.longInteger whole.length)
      else .ok (.int (Text.withSign negative (Text.ofDigits (digitsOf whole))), rest)
    else
      let digits := Text.ofDigits (digitsOf (whole ++ fraction))
      .ok (.float (.ofDecimal negative digits (exponent.getD 0 - fraction.length)), rest)

def word? (w : String) (cs : List Char) : Option (List Char) :=
  if w.toList.isPrefixOf cs then some (cs.drop w.length) else none

def scalar (limit : Option Nat) (cs : List Char) : Except Fault (Json × List Char) :=
  match word? "null" cs with
  | some rest => .ok (.null, rest)
  | none => match word? "true" cs with
  | some rest => .ok (.bool true, rest)
  | none => match word? "false" cs with
  | some rest => .ok (.bool false, rest)
  | none => match word? "NaN" cs with
  | some rest => .ok (.float .nan, rest)
  | none => match word? "Infinity" cs with
  | some rest => .ok (.float (.infinity false), rest)
  | none => match word? "-Infinity" cs with
  | some rest => .ok (.float (.infinity true), rest)
  | none => number limit cs

mutual

/-- Reads one value. The fuel bounds the calls, of which a text has at most two for a character; the
room bounds the arrays and objects within each other. -/
def readValue (limit : Option Nat) : Nat → Nat → List Char → Except Fault (Json × List Char)
  | 0, _, _ => .error .value
  | fuel + 1, room, cs =>
    match cs with
    | '"' :: rest => do
      let (s, tail) ← stringBody rest
      return (.string (String.ofList s), tail)
    | '[' :: rest =>
      if room = 0 then .error .tooDeep
      else match skipSpace rest with
      | ']' :: tail => .ok (.array [], tail)
      | inner => do
        let (items, tail) ← readItems limit fuel (room - 1) inner
        return (.array items, tail)
    | c :: rest =>
      if c = '\x7b' then
        if room = 0 then .error .tooDeep
        else match skipSpace rest with
        | d :: tail =>
          if d = '\x7d' then .ok (.object [], tail)
          else do
            let (entries, tail) ← readEntries limit fuel (room - 1) [] (d :: tail)
            return (.object entries, tail)
        | [] => .error .propertyName
      else scalar limit cs
    | [] => .error .value

/-- The items of an array up to its closing bracket. -/
def readItems (limit : Option Nat) :
    Nat → Nat → List Char → Except Fault (List Json × List Char)
  | 0, _, _ => .error .value
  | fuel + 1, room, cs => do
    let (item, rest) ← readValue limit fuel room cs
    match skipSpace rest with
    | ']' :: tail => return ([item], tail)
    | ',' :: tail =>
      let (items, tail) ← readItems limit fuel room (skipSpace tail)
      return (item :: items, tail)
    | _ => .error .comma

/-- The entries of an object up to its closing brace, added to those read before. -/
def readEntries (limit : Option Nat) :
    Nat → Nat → List (String × Json) → List Char →
      Except Fault (List (String × Json) × List Char)
  | 0, _, _, _ => .error .value
  | fuel + 1, room, entries, cs =>
    match cs with
    | '"' :: rest => do
      let (key, rest) ← stringBody rest
      match skipSpace rest with
      | ':' :: rest =>
        let (value, rest) ← readValue limit fuel room (skipSpace rest)
        let entries := Entries.set (String.ofList key) value entries
        match skipSpace rest with
        | ',' :: tail => readEntries limit fuel room entries (skipSpace tail)
        | c :: tail => if c = '\x7d' then return (entries, tail) else .error .comma
        | [] => .error .comma
      | _ => .error .colon
    | _ => .error .propertyName

end

def readWithin (limits : Limits) (s : String) : Except Fault Json :=
  match s.toList with
  | c :: rest =>
    if c.toNat = 0xfeff then .error .byteOrderMark
    else do
      let room := limits.depth.getD (rest.length + 1)
      let (j, tail) ← readValue limits.digits (2 * rest.length + 4) room (skipSpace (c :: rest))
      if (skipSpace tail).isEmpty then return j else .error .extraData
  | [] => .error .value

def read [Room] (s : String) : Except Fault Json := readWithin .standard s

end Json
end FieldPlan
