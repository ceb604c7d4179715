import FieldPlan.Digest
import FieldPlan.Json.Writer
/-!
# Signatures

A short text that stands for a payload inside a cache key: the digest of its canonical JSON text,
so that objects which differ in the order of their entries share one signature.
-/
namespace FieldPlan

/-- The digest of a payload's canonical text. -/
def signature (payload : Json) : String := Digest.md5 payload.canonicalText

/-- The signature of any payload, which has one if its integers have a text. -/
def signature? (payload : Json) : Except String String := do
  payload.checkDigits
  return signature payload

/-- Names without repetition, each where it stands first. -/
def unique (names : List String) : List String := names.eraseDups

/-- Names in ascending order of their code points. -/
def sortNames (names : List String) : List String := names.mergeSort fun a b => a ≤ b

/-- A list of names as it enters a signature: without repetition, and sorted unless the order
matters. No list at all stays apart from an empty one. -/
def namesPayload (keepOrder : Bool) (names : Option (List String)) : Option (List String) :=
  names.map fun ns => if keepOrder then unique ns else sortNames (unique ns)

end FieldPlan
