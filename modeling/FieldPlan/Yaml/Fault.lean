import FieldPlan.Text.Integer
import FieldPlan.Text.Quoted
/-!
# Faults of documents

Why a text is no document, by where it fails: its characters, its tokens, the order of the tokens,
the names of its nodes, or what the nodes stand for.
-/
namespace FieldPlan.Yaml

/-- A token cannot be read. -/
inductive TokenFault where
  /-- no token starts with this character -/
  | noToken
  /-- what begins a line of a mapping has no colon -/
  | missingColon
  /-- an entry, a key or a value cannot stand here -/
  | misplaced
  | unclosedQuote
  /-- a document is marked inside a quoted text -/
  | markerInQuote
  | escape
  | directive
  | label
  | tag
  | header
  deriving DecidableEq, Repr

/-- The tokens do not follow each other as in a document. -/
inductive OrderFault where
  | missingNode
  | unclosedBlock
  | unclosedFlow
  | missingMarker
  | repeatedVersion
  | unknownVersion
  | repeatedHandle
  | unknownHandle
  deriving DecidableEq, Repr

/-- Nodes are named, or follow each other, in a way that makes no tree. -/
inductive NameFault where
  | unknownAlias
  | repeatedAnchor
  | secondDocument
  deriving DecidableEq, Repr

/-- A node stands for no value. -/
inductive NodeFault where
  | unknownTag
  /-- a tag for another kind of node -/
  | wrongKind
  | collectionAsKey
  | unmergeable
  | notPair
  | base64
  deriving DecidableEq, Repr

/-- A text is not the number or the moment its tag announces. -/
inductive RangeFault where
  | integer (base : Nat) (text : List Char)
  | longInteger (digits : Nat)
  | float (text : List Char)
  /-- a distance from universal time of a day or more, in minutes -/
  | offset (minutes : Int)
  | year (n : Nat)
  | month
  | day
  | hour
  | minute
  | second
  /-- an escape names no code point -/
  | codePoint
  deriving DecidableEq, Repr

/-- A text as a literal of at most two hundred characters. -/
def shortLiteral (cs : List Char) : String :=
  String.ofList ((Text.quoted (String.ofList cs)).toList.take 200)

/-- A duration of minutes by whole days and the seconds beyond them. -/
def durationText (minutes : Int) : String :=
  let days := minutes / 1440
  let seconds := minutes % 1440 * 60
  let rest := if seconds = 0 then "" else s!", seconds={seconds}"
  s!"datetime.timedelta(days={days}" ++ rest ++ ")"

def RangeFault.message : RangeFault → String
  | integer base cs => s!"invalid literal for int() with base {base}: " ++ shortLiteral cs
  | longInteger n => s!"Exceeds the limit ({Text.maxIntegerDigits} digits) for integer string " ++
      s!"conversion: value has {n} digits; use sys.set_int_max_str_digits() to increase the limit"
  | float cs => "could not convert string to float: " ++ Text.quoted (String.ofList cs)
  | offset minutes => "offset must be a timedelta strictly between -timedelta(hours=24) and " ++
      "timedelta(hours=24), not " ++ durationText minutes ++ "."
  | year n => s!"year {n} is out of range"
  | month => "month must be in 1..12"
  | day => "day is out of range for month"
  | hour => "hour must be in 0..23"
  | minute => "minute must be in 0..59"
  | second => "second must be in 0..59"
  | codePoint => "chr() arg not in range(0x110000)"

inductive Fault where
  /-- a character that no document holds -/
  | character
  | token (cause : TokenFault)
  | order (cause : OrderFault)
  | name (cause : NameFault)
  | node (cause : NodeFault)
  | range (cause : RangeFault)
  /-- an escape of a number beyond thirty-one bits -/
  | escapeTooLarge
  /-- a number without digits -/
  | noDigits
  /-- a word that is no flag -/
  | unknownFlag
  | notMoment
  /-- collections within each other beyond the limit -/
  | tooDeep
  deriving DecidableEq, Repr

end FieldPlan.Yaml
