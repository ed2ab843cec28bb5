import HalfLink.Toml.Time
import HalfLink.Toml.Value

/-! Times in the form of tables. A table whose first key is the tag of times stands for the time
that the tag's value spells; the rest of such a table is not looked at. A tag further behind is a
key like any other. -/
namespace HalfLink.Toml

/-- The key that makes a table a time when it comes first. -/
def timeTag : String := "$__toml_private_datetime"

/-- The time that the value of a tag spells. -/
def tagged? : Value → Option Value
  | .string s => if isTimestamp s.toList then some (.datetime s) else none
  | _ => none

mutual

/-- The value with its tagged tables as times; none if the value of a tag is not a time. -/
def Value.untag? : Value → Option Value
  | .array items => (untagItems? items).map .array
  | .table [] => some (.table [])
  | .table ((key, v) :: rest) =>
    if key = timeTag then tagged? v
    else do
      let first ← v.untag?
      return .table ((key, first) :: (← untagEntries? rest))
  | v => some v

def untagItems? : List Value → Option (List Value)
  | [] => some []
  | v :: rest => do
    let first ← v.untag?
    return first :: (← untagItems? rest)

def untagEntries? : List (String × Value) → Option (List (String × Value))
  | [] => some []
  | (key, v) :: rest => do
    let first ← v.untag?
    return (key, first) :: (← untagEntries? rest)

end

end HalfLink.Toml
