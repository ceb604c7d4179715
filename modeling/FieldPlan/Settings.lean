import FieldPlan.Address
import FieldPlan.Json.Reader
import FieldPlan.Validation
/-!
# Settings

The choices that resolution, planning, caching and reading of requests depend on, with the bounds
that every settings value keeps, and how settings are read from data and from the environment.
-/
namespace FieldPlan

inductive FieldOrder where
  | declaration
  | requested
  deriving DecidableEq, Repr, Inhabited

def FieldOrder.name : FieldOrder → String
  | declaration => "declaration"
  | requested => "requested"

def FieldOrder.ofName? (s : String) : Option FieldOrder :=
  [declaration, requested].find? fun o => o.name == s

structure Settings where
  /-- the namespace of all cache keys -/
  keyPrefix : String := "resourcekit"
  /-- lifetime of entries in the shared store, in seconds -/
  storeLifetime : Option Int := none
  /-- address of the shared store -/
  storeAddress : Option String := none
  memoCapacity : Nat := 1024
  /-- lifetime of memoized entries; that of the shared store if not given -/
  memoLifetime : Option Int := none
  /-- fields that every resource shows -/
  fixedFields : List String := ["id"]
  /-- the most segments a relation path may have -/
  maxDepth : Nat := 5
  order : FieldOrder := .declaration
  defaultLimit : Nat := 25
  maxLimit : Nat := 100
  one_le_memoCapacity : 1 ≤ memoCapacity := by decide
  one_le_maxDepth : 1 ≤ maxDepth := by decide
  one_le_defaultLimit : 1 ≤ defaultLimit := by decide
  defaultLimit_le_maxLimit : defaultLimit ≤ maxLimit := by decide

instance : Inhabited Settings := ⟨{}⟩

namespace Settings

open Validation

/-- Settings as read, before the limits are compared. -/
structure Draft where
  keyPrefix : String
  storeLifetime : Option Int
  storeAddress : Option String
  memoCapacity : Int
  memoLifetime : Option Int
  fixedFields : List String
  maxDepth : Int
  order : FieldOrder
  defaultLimit : Int
  maxLimit : Int

/-- Reads every member; each fault is reported under the name of its member. -/
def Draft.read (entries : List (String × Json)) : Checked Draft :=
  let default : Settings := {}
  Checked.and (.ok Draft.mk)
      (member entries "cache_prefix" (some default.keyPrefix) text)
    |>.and (member entries "cache_ttl" (some none) (nullable integer))
    |>.and (member entries "redis_url" (some none) (nullable text))
    |>.and (member entries "memo_maxsize" (some (default.memoCapacity : Int)) (integerFrom 1))
    |>.and (member entries "memo_ttl" (some none) (nullable integer))
    |>.and (member entries "fixed_fields" (some default.fixedFields) (list text))
    |>.and (member entries "max_nesting_depth" (some (default.maxDepth : Int)) (integerFrom 1))
    |>.and (member entries "field_ordering" (some default.order)
      (word .enumeration FieldOrder.ofName?))
    |>.and (member entries "default_limit" (some (default.defaultLimit : Int)) (integerFrom 1))
    |>.and (member entries "max_limit" (some (default.maxLimit : Int)) (integerFrom 1))

/-- The settings of a draft that keeps the bounds. -/
def Draft.settings? (d : Draft) : Option Settings :=
  if h : 1 ≤ d.memoCapacity.toNat ∧ 1 ≤ d.maxDepth.toNat ∧ 1 ≤ d.defaultLimit.toNat ∧
      d.defaultLimit.toNat ≤ d.maxLimit.toNat then
    some {
      keyPrefix := d.keyPrefix
      storeLifetime := d.storeLifetime
      storeAddress := d.storeAddress
      memoCapacity := d.memoCapacity.toNat
      memoLifetime := d.memoLifetime
      fixedFields := d.fixedFields
      maxDepth := d.maxDepth.toNat
      order := d.order
      defaultLimit := d.defaultLimit.toNat
      maxLimit := d.maxLimit.toNat
      one_le_memoCapacity := h.1
      one_le_maxDepth := h.2.1
      one_le_defaultLimit := h.2.2.1
      defaultLimit_le_maxLimit := h.2.2.2 }
  else none

/-- Reads settings; the limits are compared once every member has been read. -/
def read (entries : List (String × Json)) : Checked Settings :=
  Draft.read entries >>= fun d =>
    match d.settings? with
    | some s => .ok s
    | none => .fault .condition

/-- The names of the members, and whether their environment variable holds JSON. -/
def members : List (String × Bool) := [
  ("cache_prefix", false), ("cache_ttl", false), ("redis_url", false), ("memo_maxsize", false),
  ("memo_ttl", false), ("fixed_fields", true), ("max_nesting_depth", false),
  ("field_ordering", false), ("default_limit", false), ("max_limit", false)]

/-- A variable that should hold JSON does not. -/
structure UnreadableVariable where
  member : String
  deriving Repr

/-- The value of a variable, whose name counts in any case; the last one set wins. -/
def lookUp? (environment : List (String × String)) (member : String) : Option String :=
  environment.reverse.findSome? fun (name, value) =>
    if Text.lower name = "resourcekit_" ++ member then some value else none

/-- The members that the environment sets; a variable that holds null sets none. -/
def ofEnvironment [Room] (environment : List (String × String)) :
    Except UnreadableVariable (List (String × Json)) :=
  members.foldr (fun (name, isJson) rest =>
    match lookUp? environment name with
    | none => rest
    | some value =>
      if isJson then
        match Json.read value with
        | .ok .null => rest
        | .ok j => rest.map ((name, j) :: ·)
        | .error _ => .error ⟨name⟩
      else rest.map ((name, .string value) :: ·)) (.ok [])

/-- Data wins over the environment, which wins over the defaults. -/
def layered (data environment : List (String × Json)) : List (String × Json) :=
  data ++ environment.filter fun e => (data.lookup e.1).isNone

/-- Whether a shared store is used; an empty address counts as none. -/
def sharesStore (s : Settings) : Except Address.Fault Bool :=
  match s.storeAddress.filter (· != "") with
  | none => .ok false
  | some address => (Address.check address).map fun _ => true

/-- The lifetime of memoized entries that is in force; none when entries never expire. -/
def effectiveMemoLifetime (given inherited : Option Int) : Option Int := given <|> inherited

end Settings
end FieldPlan
