import FieldPlan.Text.Integer
import FieldPlan.Yaml.Cursor
import FieldPlan.Yaml.Fault
/-!
# Moments

Dates, and dates with a time of day: `2024-02-29`, `2024-02-29 12:30:00.5 +01:00`.
-/
namespace FieldPlan.Yaml

/-- A time of day, with its distance in minutes from universal time if that is known. -/
structure TimeOfDay where
  hour : Nat
  minute : Nat
  second : Nat
  microsecond : Nat
  offset : Option Int
  deriving DecidableEq, Repr

/-- A date, with a time of day if one is given. -/
structure Moment where
  year : Nat
  month : Nat
  day : Nat
  time : Option TimeOfDay
  deriving DecidableEq, Repr

namespace Moment

/-- A number of at least `least` and at most `most` digits. -/
def digits? (least most : Nat) (cs : List Char) : Option (Nat × List Char) :=
  let ds := (cs.take most).takeWhile Char.isDigit
  if least ≤ ds.length then
    some (Text.ofDigits (ds.map fun d => d.toNat - '0'.toNat), cs.drop ds.length)
  else none

/-- The rest of a text behind a character. -/
def behind? (c : Char) : List Char → Option (List Char)
  | d :: rest => if c = d then some rest else none
  | [] => none

/-- The microseconds of digits behind a point; further digits are dropped. -/
def microseconds (ds : List Char) : Nat :=
  let ds := ds.take 6
  Text.ofDigits (ds.map fun d => d.toNat - '0'.toNat) * Nat.pow 10 (6 - ds.length)

/-- A fraction of a second, or nothing. -/
def fraction (cs : List Char) : Nat × List Char :=
  match cs with
  | '.' :: rest => (microseconds (rest.takeWhile Char.isDigit), rest.dropWhile Char.isDigit)
  | _ => (0, cs)

/-- The distance from universal time at the end of a text, if it is given; a `Z` means none. -/
def offset? (cs : List Char) : Option (Option Int) :=
  match cs.dropWhile isBlank with
  | [] => if cs.isEmpty then some none else none
  | ['Z'] => some (some 0)
  | sign :: rest =>
    if sign = '+' || sign = '-' then do
      let (hours, rest) ← digits? 1 2 rest
      let minutes ← match rest with
        | [] => some 0
        | _ => do
          let (minutes, rest) ← digits? 2 2 (← behind? ':' rest)
          if rest.isEmpty then some minutes else none
      return some (Text.withSign (sign = '-') (60 * hours + minutes))
    else none

/-- The place where a time of day starts, behind a letter or blanks. -/
def timeStart? : List Char → Option (List Char)
  | c :: rest =>
    if c = 'T' || c = 't' then some rest
    else if isBlank c then some (rest.dropWhile isBlank)
    else none
  | [] => none

def time? (cs : List Char) : Option TimeOfDay := do
  let (hour, rest) ← digits? 1 2 (← timeStart? cs)
  let (minute, rest) ← digits? 2 2 (← behind? ':' rest)
  let (second, rest) ← digits? 2 2 (← behind? ':' rest)
  let (microsecond, rest) := fraction rest
  return ⟨hour, minute, second, microsecond, ← offset? rest⟩

/-- The parts of a moment; they need not make one. -/
def parts? (cs : List Char) : Option Moment := do
  let (year, rest) ← digits? 4 4 cs
  let (month, rest) ← digits? 1 2 (← behind? '-' rest)
  let (day, rest) ← digits? 1 2 (← behind? '-' rest)
  if rest.isEmpty then return ⟨year, month, day, none⟩
  else return ⟨year, month, day, some (← time? rest)⟩

/-- A plain scalar is a moment; a date alone has two digits for month and day. -/
def isMoment (cs : List Char) : Bool :=
  (parts? cs).any fun m => m.time.isSome || cs.length = 10

def isLeap (year : Nat) : Bool := year % 4 = 0 && (year % 100 != 0 || year % 400 = 0)

def daysIn (year month : Nat) : Nat :=
  if month = 2 then if isLeap year then 29 else 28
  else if [4, 6, 9, 11].contains month then 30 else 31

/-- The first of a moment's parts that is out of its range. -/
def rangeFault? (m : Moment) : Option RangeFault :=
  let t := m.time.getD ⟨0, 0, 0, 0, none⟩
  let offset := t.offset.getD 0
  if 1440 ≤ offset.natAbs then some (.offset offset)
  else if m.year = 0 then some (.year m.year)
  else if m.month < 1 || 12 < m.month then some .month
  else if m.day < 1 || daysIn m.year m.month < m.day then some .day
  else if 23 < t.hour then some .hour
  else if 59 < t.minute then some .minute
  else if 59 < t.second then some .second
  else none

def read (cs : List Char) : Except Fault Moment :=
  match parts? cs with
  | none => .error .notMoment
  | some m =>
    match m.rangeFault? with
    | some e => .error (.range e)
    | none => .ok m

end Moment
end FieldPlan.Yaml
