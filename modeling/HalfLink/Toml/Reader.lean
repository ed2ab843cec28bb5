import HalfLink.Toml.Scalar
import HalfLink.Toml.Tree

/-! The reader of TOML documents. -/
namespace HalfLink.Toml

open Text Text.Reader

def isBlank (c : Char) : Bool := c == ' ' || c == '\t'

/-- A character that may stand in comments and strings. -/
def isPlain (c : Char) : Bool := c == '\t' || (0x20 ≤ c.toNat && c.toNat != 0x7F)

def blanks : Reader Unit := skip isBlank

def newline : Reader Unit := do
  match ← next with
  | '\n' => return ()
  | '\r' => char '\n'
  | _ => failure

/-- Takes a newline unless the text is at its end. -/
def lineEnd : Reader Unit := do
  if (← peek).isSome then newline

def comment : Reader Unit := do
  if (← peek) == some '#' then skip isPlain

/-- Takes what may stand behind a value or a header. -/
def trailing : Reader Unit := do
  blanks
  comment
  lineEnd

/-- Takes blanks, comments and newlines. -/
def padding : Reader Unit := do
  discard <| many do
    blanks
    match ← peek with
    | some '#' => comment; newline; return some ()
    | some '\n' | some '\r' => newline; return some ()
    | _ => return none

/-- Takes `s` if it stands next. -/
def text? (s : String) : Reader Bool := fun cs =>
  if s.toList.isPrefixOf cs then some (true, cs.drop s.length) else some (false, cs)

/-! ### Strings -/

def codePoint (digits : Nat) : Reader Char := do
  match charOf? (← hexDigits digits) with
  | some c => return c
  | none => failure

def escape : Reader Char := do
  match ← next with
  | 'b' => return '\x08'
  | 't' => return '\t'
  | 'n' => return '\n'
  | 'f' => return '\x0c'
  | 'r' => return '\r'
  | '"' => return '"'
  | '\\' => return '\\'
  | 'u' => codePoint 4
  | 'U' => codePoint 8
  | _ => failure

/-- A one-line string behind its opening quote. -/
def quoted (quote : Char) : Reader String := do
  let cs ← many do
    let c ← next
    if c == quote then return none
    else if c == '\\' && quote == '"' then return some (← escape)
    else if isPlain c then return some c
    else failure
  return String.ofList cs

/-- Takes the newline behind a backslash at the end of a line, and all blanks and newlines behind
it; takes nothing where the backslash does not end its line. -/
def lineContinuation? : Reader Bool := fun cs =>
  match (do blanks; newline : Reader Unit) cs with
  | some (_, rest) => (do discard <| many blankLine?; blanks; return true : Reader Bool) rest
  | none => some (false, cs)
where
  /-- A newline behind blanks, if one stands next. -/
  blankLine? : Reader (Option Unit) := do
    blanks
    match ← peek with
    | some '\n' | some '\r' => newline; return some ()
    | _ => return none

/-- A string of several lines behind its opening quotes. Up to two more quotes may stand in front of
the closing ones. -/
def block (quote : Char) : Nat → Reader (List Char)
  | 0 => failure
  | fuel + 1 => do
    match ← peek with
    | none => failure
    | some c =>
      if c == quote then
        let quotes ← chars (· == quote)
        if quotes.length < 3 then return quotes ++ (← block quote fuel)
        else if quotes.length ≤ 5 then return quotes.drop 3
        else failure
      else if c == '\\' && quote == '"' then
        discard next
        if ← lineContinuation? then block quote fuel
        else
          let c ← escape
          return c :: (← block quote fuel)
      else if c == '\n' || c == '\r' then
        newline
        return '\n' :: (← block quote fuel)
      else if isPlain c then
        discard next
        return c :: (← block quote fuel)
      else failure

def string (quote : Char) : Reader String := do
  if ← text? (String.ofList [quote, quote, quote]) then
    if (← peek) == some '\n' || (← peek) == some '\r' then newline
    return String.ofList (← block quote ((← get).length + 1))
  else
    char quote
    quoted quote

/-! ### Keys -/

def isBare (c : Char) : Bool :=
  isDecimal c || ('a' ≤ c && c ≤ 'z') || ('A' ≤ c && c ≤ 'Z') || c == '_' || c == '-'

def simpleKey : Reader String := do
  match ← peek with
  | some '"' => discard next; quoted '"'
  | some '\'' => discard next; quoted '\''
  | _ =>
    let cs ← chars isBare
    if cs.isEmpty then failure else return String.ofList cs

/-- Nesting of values and parts of keys stay below this number. -/
def depthLimit : Nat := 80

/-- A dotted key: the path to its table, and the last part. -/
def key : Reader (List String × String) := do
  blanks
  let first ← simpleKey
  blanks
  let more ← many do
    if (← peek) == some '.' then
      discard next
      blanks
      let part ← simpleKey
      blanks
      return some part
    else return none
  let parts := first :: more
  if parts.length < depthLimit then return (parts.dropLast, parts.getLastD first) else failure

/-! ### Values -/

def isScalarChar (c : Char) : Bool :=
  isBare c || c == '+' || c == '.' || c == ':'

/-- The time behind a date and a blank, if one stands there. -/
def spacedTime? (date : List Char) : Reader (List Char) := fun cs =>
  match cs with
  | ' ' :: rest =>
    let time := rest.takeWhile isScalarChar
    if isDate date && isOffsetTime time then some (' ' :: time, rest.dropWhile isScalarChar)
    else some ([], cs)
  | _ => some ([], cs)

def scalar : Reader Value := do
  let cs ← chars isScalarChar
  let time ← spacedTime? cs
  match scalar? (cs ++ time) with
  | some v => return v
  | none => failure

/-- An array behind its opening bracket; a comma may stand behind the last item. -/
def array (item : Reader Value) : Reader Value := do
  let first? ← element
  match first? with
  | none => return .array []
  | some first =>
    let more ← many do
      padding
      let c ← next
      if c == ']' then return none
      else if c == ',' then element
      else failure
    return .array (first :: more)
where
  /-- The next item, or none once the closing bracket is taken. -/
  element : Reader (Option Value) := do
    padding
    if (← peek) == some ']' then
      discard next
      return none
    else return some (← item)

def keyValue (value : Reader Value) : Reader ((List String × String) × Value) := do
  let k ← key
  char '='
  blanks
  return (k, ← value)

/-- A table on one line behind its opening brace. -/
def inlineTable (value : Reader Value) : Reader Value := do
  blanks
  if (← peek) == some '}' then
    discard next
    return .table []
  let first ← keyValue value
  let more ← many do
    blanks
    let c ← next
    if c == '}' then return none
    else if c == ',' then return some (← keyValue value)
    else failure
  let table? := (first :: more).foldlM (fun (t : Table) (k, v) => t.insert? k.1 k.2 v)
    (.empty .declared)
  match table? with
  | some t => return t.toValue
  | none => failure

/-- A value with at most `depth` levels of arrays and tables. -/
def value : Nat → Reader Value
  | 0 => do
    match ← peek with
    | some '"' => return .string (← string '"')
    | some '\'' => return .string (← string '\'')
    | _ => scalar
  | depth + 1 => do
    match ← peek with
    | some '"' => return .string (← string '"')
    | some '\'' => return .string (← string '\'')
    | some '[' => discard next; array (value depth)
    | some '{' => discard next; inlineTable (value depth)
    | _ => scalar

/-! ### Documents -/

/-- One line, or one value that takes several. -/
inductive Item
  | blank
  | header (key : List String × String)
  | repeatedHeader (key : List String × String)
  | entry (key : List String × String) (v : Value)

def header : Reader Item := do
  char '['
  if (← peek) == some '[' then
    discard next
    let k ← key
    text "]]"
    trailing
    return .repeatedHeader k
  else
    let k ← key
    char ']'
    trailing
    return .header k

/-- The next item; none at the end of the text. -/
def item : Reader (Option Item) := do
  blanks
  match ← peek with
  | none => return none
  | some '#' => comment; lineEnd; return some .blank
  | some '\n' | some '\r' => newline; return some .blank
  | some '[' => return some (← header)
  | _ =>
    let (k, v) ← keyValue (value (depthLimit - 1))
    trailing
    return some (.entry k v)

/-- A document and the path of the table that entries go to. -/
structure Document where
  root : Table := .empty .declared
  current : List String := []

def Document.add? (d : Document) : Item → Option Document
  | .blank => some d
  | .header (path, key) => return ⟨← d.root.declare? path key, path ++ [key]⟩
  | .repeatedHeader (path, key) => return ⟨← d.root.append? path key, path ++ [key]⟩
  | .entry (path, key) v => do
    let root ← d.root.modifyAt? .implied (fun t => t.insert? path key v) d.current
    return { d with root }

def document : Reader Value := do
  if (← peek) == some '\uFEFF' then discard next
  let items ← many item
  match items.foldlM Document.add? ({} : Document) with
  | some d => return d.root.toValue
  | none => failure

def parse? (s : String) : Option Value := document.all? s

end HalfLink.Toml
