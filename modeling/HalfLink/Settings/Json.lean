import HalfLink.Json
import HalfLink.Settings

/-! The JSON form of the settings: an object in which fields may be missing and others may stand, or
an array of the fields in order of which the last may be missing. -/
namespace HalfLink.Settings

def ticks? (j : Json) : Option (Ticks 32) := (j.natBelow? 0x100000000).map (BitVec.ofNat 32)

def byte? (j : Json) : Option UInt8 := (j.natBelow? 256).map UInt8.ofNat

/-- A field of an object: `default` if it is missing, and no value if it is repeated. -/
def field? {α : Type} (members : List (Option String × Json)) (key : String)
    (value? : Json → Option α) (default : α) : Option α :=
  match members.filter (·.1 == some key) with
  | [] => some default
  | [(_, v)] => value? v
  | _ => none

/-- An element of an array, `default` behind its end. -/
def element? {α : Type} (items : List Json) (i : Nat) (value? : Json → Option α) (default : α) :
    Option α :=
  match items[i]? with
  | none => some default
  | some v => value? v

def ofJson? : Json → Option Settings
  | .object members =>
    if members.all (·.1.isSome) then do
      let responseTimeout ← field? members "response_timeout" ticks? ({} : Settings).responseTimeout
      let maxErrors ← field? members "max_connection_errors" byte? ({} : Settings).maxErrors
      let retryInterval ←
        field? members "connection_check_timeout" ticks? ({} : Settings).retryInterval
      return ⟨responseTimeout, maxErrors, retryInterval⟩
    else none
  | .array items =>
    if items.length ≤ 3 then do
      let responseTimeout ← element? items 0 ticks? ({} : Settings).responseTimeout
      let maxErrors ← element? items 1 byte? ({} : Settings).maxErrors
      let retryInterval ← element? items 2 ticks? ({} : Settings).retryInterval
      return ⟨responseTimeout, maxErrors, retryInterval⟩
    else none
  | _ => none

def parseJson? (s : String) : Option Settings := (Json.parse? s).bind ofJson?

end HalfLink.Settings
