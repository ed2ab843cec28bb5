import HalfLink.Text.Reader

/-! JSON values and a strict reader of them. Numbers keep their spelling. A string with half of a
surrogate pair has no text, which matters only where the text is asked for. -/
namespace HalfLink

inductive Json
  | null
  | bool (b : Bool)
  | number (spelling : String)
  | string (text : Option String)
  | array (items : List Json)
  | object (members : List (Option String × Json))
deriving Repr

namespace Json

open Text Text.Reader

def isBlank (c : Char) : Bool := c == ' ' || c == '\t' || c == '\n' || c == '\r'

def blanks : Reader Unit := skip isBlank

def isDigit : Char → Bool := isDigitOf 10

def digits : Reader (List Char) := do
  let ds ← chars isDigit
  if ds.isEmpty then failure else return ds

def oneOf? (cs : List Char) : Reader (List Char) := do
  match ← peek with
  | some c => if cs.contains c then discard next; return [c] else return []
  | none => return []

def readNumber : Reader Json := do
  let sign ← oneOf? ['-']
  let whole ← digits
  if whole.length > 1 && whole.head? == some '0' then failure
  let point ← oneOf? ['.']
  let fraction ← if point.isEmpty then pure [] else digits
  let mark ← oneOf? ['e', 'E']
  let direction ← if mark.isEmpty then pure [] else oneOf? ['+', '-']
  let exponent ← if mark.isEmpty then pure [] else digits
  return .number <| String.ofList <|
    sign ++ whole ++ point ++ fraction ++ mark ++ direction ++ exponent

def isHighHalf (n : Nat) : Bool := 0xD800 ≤ n && n < 0xDC00

def isLowHalf (n : Nat) : Bool := 0xDC00 ≤ n && n < 0xE000

/-- The low half of a pair, if that stands next. -/
def lowHalf? : Reader (Option Nat) := fun cs =>
  match (do text "\\u"; hexDigits 4 : Reader Nat) cs with
  | some (low, rest) => if isLowHalf low then some (some low, rest) else some (none, cs)
  | none => some (none, cs)

/-- The character of an escape; none for half of a pair. -/
def escape : Reader (Option Char) := do
  match ← next with
  | '"' => return some '"'
  | '\\' => return some '\\'
  | '/' => return some '/'
  | 'b' => return some '\x08'
  | 'f' => return some '\x0c'
  | 'n' => return some '\n'
  | 'r' => return some '\r'
  | 't' => return some '\t'
  | 'u' => do
    let n ← hexDigits 4
    if isHighHalf n then
      match ← lowHalf? with
      | some low => return charOf? (0x10000 + (n - 0xD800) * 0x400 + (low - 0xDC00))
      | none => return none
    else return charOf? n
  | _ => failure

/-- The text of a string behind its opening quote. -/
def stringBody : Reader (Option String) := do
  let cs ← many do
    match ← next with
    | '"' => return none
    | '\\' => return some (← escape)
    | c => if c.toNat < 0x20 then failure else return some (some c)
  return (cs.mapM id).map String.ofList

def items {α : Type} (close : Char) (item : Reader α) : Reader (List α) := do
  blanks
  if (← peek) == some close then
    discard next
    return []
  let first ← item
  let more ← many do
    blanks
    let c ← next
    if c == close then return none
    else if c == ',' then return some (← item)
    else failure
  return first :: more

def member (value : Reader Json) : Reader (Option String × Json) := do
  blanks
  char '"'
  let key ← stringBody
  blanks
  char ':'
  return (key, ← value)

/-- A value with at most `depth` levels of nesting. -/
def value : Nat → Reader Json
  | 0 => failure
  | depth + 1 => do
    blanks
    match ← peek with
    | some 'n' => text "null"; return .null
    | some 't' => text "true"; return .bool true
    | some 'f' => text "false"; return .bool false
    | some '"' => discard next; return .string (← stringBody)
    | some '[' => discard next; return .array (← items ']' (value depth))
    | some '{' => discard next; return .object (← items '}' (member (value depth)))
    | _ => readNumber

def parse? (s : String) : Option Json :=
  (do let v ← value (s.length + 1); blanks; return v : Reader Json).all? s

/-- A number below `bound` that is spelled as an integer without a sign. -/
def natBelow? (bound : Nat) : Json → Option Nat
  | .number spelling =>
    let cs := spelling.toList
    if cs.all isDigit then some (numberOf 10 cs) |>.filter (· < bound) else none
  | _ => none

end Json

end HalfLink
