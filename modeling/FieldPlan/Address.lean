import FieldPlan.Number.Spelled
import FieldPlan.Text.FormEncoded
import FieldPlan.Text.Quoted
/-!
# Addresses of shared stores

An address has a scheme, a host with a port if one is given, and arguments in its query. It is
checked when a store is opened, in this order: the scheme, the brackets around the host, the
arguments, the port, and the number of connections.
-/
namespace FieldPlan.Address

/-- Why an address opens no store. -/
inductive Fault where
  | scheme
  /-- a bracket around the host has no partner -/
  | bracket
  /-- brackets stand around something that is no address of a host -/
  | host (name : String)
  /-- brackets stand around four numbers -/
  | shortHost
  /-- brackets stand around a name of a version to come that has no such form -/
  | futureHost
  | argument (name : String)
  | port (text : String)
  | portRange
  | poolSize
  deriving DecidableEq, Repr

def Fault.message : Fault → String
  | scheme =>
    "Redis URL must specify one of the following schemes (redis://, rediss://, unix://)"
  | bracket => "Invalid IPv6 URL"
  | host name => Text.quoted name ++ " does not appear to be an IPv4 or IPv6 address"
  | shortHost => "An IPv4 address cannot be in brackets"
  | futureHost => "IPvFuture address is invalid"
  | argument name => s!"Invalid value for \x60{name}\x60 in connection URL."
  | port text => "Port could not be cast to integer value as " ++ Text.quoted text
  | portRange => "Port out of range 0-65535"
  | poolSize => "\"max_connections\" must be a positive integer"

/-- The schemes, and whether hosts of the scheme have ports. -/
def schemes : List (String × Bool) := [("redis://", true), ("rediss://", true), ("unix://", false)]

/-- An address cut into its parts. -/
structure Parts where
  hasPort : Bool
  /-- the host with its user and its port -/
  authority : List Char
  query : List Char

/-- Tabs and line breaks do not count. The query ends at a number sign. -/
def parts? (address : String) : Option Parts := do
  let cs := address.toList
  let (scheme, hasPort) ← schemes.find? fun s => s.1.toList.isPrefixOf cs
  let cs := (cs.drop scheme.length).filter fun c => c != '\t' && c != '\n' && c != '\r'
  let isMark (c : Char) : Bool := c = '/' || c = '?' || c = '#'
  let (rest, _) := Text.cutChars '#' (cs.dropWhile (!isMark ·))
  return ⟨hasPort, cs.takeWhile (!isMark ·), ((Text.cutChars '?' rest).2).getD []⟩

/-- Four numbers below 256, each written without needless zeros. -/
def isShortHost (cs : List Char) : Bool :=
  let groups := Text.splitChars '.' cs
  groups.length = 4 && groups.all fun g =>
    !g.isEmpty && g.length ≤ 3 && g.all Char.isDigit && (g.length = 1 || g.head? != some '0') &&
      Text.ofDigits (g.map fun c => c.toNat - '0'.toNat) < 256

/-- One to four hexadecimal digits. -/
def isHexGroup (cs : List Char) : Bool :=
  !cs.isEmpty && cs.length ≤ 4 && cs.all fun c => (Text.FormEncoded.hexValue? c).isSome

/-- The groups of a host between colons; four numbers at the end count as two groups. -/
def hostGroups (cs : List Char) : Option (List (List Char)) :=
  let groups := Text.splitChars ':' cs
  match groups.getLast? with
  | some last =>
    if last.contains '.' then
      if isShortHost last then some (groups.dropLast ++ [['0'], ['0']]) else none
    else some groups
  | none => none

/-- Groups on one side of the gap; the outermost may be empty only if it is alone. -/
def isSide (groups : List (List Char)) : Bool := groups = [[]] || groups.all isHexGroup

/-- Eight groups, or fewer with one gap that stands for those left out. -/
def isLongHost (cs : List Char) : Bool :=
  let (address, zone) := Text.cutChars '%' cs
  let zoneFits := zone.all fun z => !z.isEmpty && !z.contains '%'
  zoneFits && (hostGroups address).any fun groups =>
    let inner := groups.drop 1 |>.dropLast
    match inner.findIdx? (·.isEmpty) with
    | none => groups.length = 8 && groups.all isHexGroup
    | some i =>
      let before := groups.take (i + 1)
      let after := groups.drop (i + 2)
      let count := ((before ++ after).filter (!·.isEmpty)).length
      3 ≤ groups.length && isSide before && isSide after && count ≤ 7

/-- A version in hexadecimal digits behind a letter, a point, and more. -/
def isFutureHost (cs : List Char) : Bool :=
  match Text.cutChars '.' (cs.drop 1) with
  | (version, some (_ :: _)) =>
    !version.isEmpty && version.all fun c => (Text.FormEncoded.hexValue? c).isSome
  | _ => false

/-- Brackets stand in pairs, around the long form of a host. -/
def checkBrackets (authority : List Char) : Except Fault Unit :=
  match authority.contains '[', authority.contains ']' with
  | false, false => .ok ()
  | true, true =>
    let inside := (Text.cutChars ']' (((Text.cutChars '[' authority).2).getD [])).1
    if inside.head? = some 'v' then
      if isFutureHost inside then .ok () else .error .futureHost
    else if isShortHost inside then .error .shortHost
    else if isLongHost inside then .ok ()
    else .error (.host (String.ofList inside))
  | _, _ => .error .bracket

/-- The host and the port behind the user. -/
def hostInfo (authority : List Char) : List Char :=
  (authority.reverse.takeWhile (· != '@')).reverse

/-- The text of the port, if there is one. -/
def portText? (authority : List Char) : Option (List Char) :=
  let info := hostInfo authority
  let behind := match Text.cutChars '[' info with
    | (_, some inside) => ((Text.cutChars ']' inside).2).getD []
    | (_, none) => info
  ((Text.cutChars ':' behind).2).filter (!·.isEmpty)

def checkPort (authority : List Char) : Except Fault Unit :=
  match portText? authority with
  | none => .ok ()
  | some cs =>
    if !cs.all Char.isDigit then .error (.port (String.ofList cs))
    else if 65535 < Text.ofDigits (cs.map fun c => c.toNat - '0'.toNat) then .error .portRange
    else .ok ()

/-- The arguments of a query that have a value, each name once with its first value. -/
def arguments (query : List Char) : List (String × List Char) :=
  let parts := (Text.splitChars '&' query).filterMap fun part =>
    match Text.cutChars '=' part with
    | (name, some (c :: value)) =>
      let text := Text.FormEncoded.component (c :: value)
      some (Text.FormEncoded.component name, Text.FormEncoded.unescape text.toList)
    | _ => none
  parts.eraseDupsBy fun a b => a.1 == b.1

def integerArguments : List String := ["db", "max_connections", "health_check_interval"]

def numberArguments : List String := ["socket_timeout", "socket_connect_timeout", "timeout"]

def isArgument (name : String) (value : List Char) : Bool :=
  if integerArguments.contains name then (Text.readInteger (String.ofList value)).isSome
  else if numberArguments.contains name then (Binary64.spelled? value).isSome
  else true

/-- Whether a store can be opened at an address. -/
def check (address : String) : Except Fault Unit := do
  match parts? address with
  | none => .error .scheme
  | some p =>
    checkBrackets p.authority
    let arguments := arguments p.query
    match arguments.find? fun a => !isArgument a.1 a.2 with
    | some (name, _) => .error (.argument name)
    | none =>
      if p.hasPort then checkPort p.authority
      let connections := (arguments.lookup "max_connections").bind fun value =>
        Text.readInteger (String.ofList value)
      if connections.any (· < 0) then .error .poolSize

end FieldPlan.Address
