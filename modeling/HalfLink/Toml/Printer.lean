import HalfLink.Toml.Value

/-! Tables written as documents. Plain entries come first, and then a section with a header for each
table and for each table of a list of tables; a table among other values of a list is written in
braces, with its entries in their order. -/
namespace HalfLink.Toml

def hexDigit (n : Nat) : Char := "0123456789ABCDEF".toList.getD n '0'

def escaped (c : Char) : List Char :=
  if c = '"' ∨ c = '\\' then ['\\', c]
  else if c.toNat < 0x20 ∨ c.toNat = 0x7F then
    ['\\', 'u', '0', '0', hexDigit (c.toNat / 16), hexDigit (c.toNat % 16)]
  else [c]

def quotedText (s : String) : String := "\"" ++ String.ofList (s.toList.flatMap escaped) ++ "\""

/-- A path of keys with dots between them. -/
def pathText (path : List String) : String := ".".intercalate (path.map quotedText)

/-- Whether a document gives the value sections of its own. -/
def Value.hasSections : Value → Bool
  | .table _ => true
  | .array items => !items.isEmpty && items.all fun
    | .table _ => true
    | _ => false
  | _ => false

mutual

/-- A value behind its key. -/
def Value.inlineText : Value → String
  | .string s => quotedText s
  | .integer i => toString i
  | .float spelling | .datetime spelling => spelling
  | .boolean b => if b then "true" else "false"
  | .array items => "[" ++ ", ".intercalate (inlineItems items) ++ "]"
  | .table entries => ("".push '{' ++ ", ".intercalate (inlineEntries entries)).push '}'

def inlineItems : List Value → List String
  | [] => []
  | v :: rest => v.inlineText :: inlineItems rest

def inlineEntries : List (String × Value) → List String
  | [] => []
  | (key, v) :: rest => (quotedText key ++ " = " ++ v.inlineText) :: inlineEntries rest

end

/-- The lines of the entries that have no sections. -/
def plainLines (entries : List (String × Value)) : List String :=
  inlineEntries (entries.filter (!·.2.hasSections))

mutual

/-- The sections of the value at a path. -/
def Value.sections (path : List String) : Value → List String
  | .table entries =>
    ("[" ++ pathText path ++ "]") :: plainLines entries ++ entrySections path entries
  | .array items => itemSections path items
  | _ => []

def itemSections (path : List String) : List Value → List String
  | [] => []
  | .table entries :: rest =>
    ("[[" ++ pathText path ++ "]]") :: plainLines entries ++ entrySections path entries ++
      itemSections path rest
  | _ :: rest => itemSections path rest

def entrySections (path : List String) : List (String × Value) → List String
  | [] => []
  | (key, v) :: rest =>
    (if v.hasSections then v.sections (path ++ [key]) else []) ++ entrySections path rest

end

/-- The text of a document with the given entries. -/
def documentText (entries : List (String × Value)) : String :=
  String.join ((plainLines entries ++ entrySections [] entries).map (· ++ "\n"))

end HalfLink.Toml
