/-! TOML values. Floats and times keep their spelling. -/
namespace HalfLink.Toml

inductive Value
  | string (s : String)
  | integer (i : Int)
  | float (spelling : String)
  | boolean (b : Bool)
  | datetime (spelling : String)
  | array (items : List Value)
  | table (entries : List (String × Value))
deriving Repr

/-- The entry of a table; a value of another kind has none. -/
def Value.get? : Value → String → Option Value
  | .table entries, key => entries.lookup key
  | _, _ => none

end HalfLink.Toml
