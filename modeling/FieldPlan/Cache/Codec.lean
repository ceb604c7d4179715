import FieldPlan.Json.Reader
import FieldPlan.Json.Writer
/-!
# Codecs

How a value is written to the text that a backend keeps, and read back from it. Writing may fail
with a cause; reading fails without one.
-/
namespace FieldPlan.Cache

structure Codec (ν : Type) where
  encode : ν → Except String String
  decode : String → Option ν

/-- A codec through JSON text: a value is turned into data before writing and from data after
reading. Data with an integer too long to be shown is not written. -/
def Codec.json [Room] {ν : Type} (dump : ν → Except String Json) (load : Json → Option ν) : Codec ν where
  encode v := do
    let j ← dump v
    j.checkDigits
    return j.storedText
  decode text := (Json.read text).toOption.bind load

end FieldPlan.Cache
