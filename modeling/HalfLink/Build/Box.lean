/-! Boxes around messages, with widths counted in characters. -/
namespace HalfLink.Build

/-- Width of the text column of a box. -/
def boxTextWidth : Nat := 64

def boxRule (left right : String) : String := left ++ "".pushn '═' 66 ++ right

def boxTop : String := boxRule "╔" "╗"

def boxMiddle : String := boxRule "╠" "╣"

def boxBottom : String := boxRule "╚" "╝"

def pad (width : Nat) (s : String) : String := s.pushn ' ' (width - s.length)

/-- A line of the box's own words, which end at its right side. -/
def boxTitle (s : String) : String := "║  " ++ pad boxTextWidth s ++ "║"

/-- A line of a foreign message, which ends one column further right. -/
def boxLine (s : String) : String := "║  " ++ pad boxTextWidth s ++ " ║"

def boxItem (s : String) : String := "║  • " ++ pad 62 s ++ " ║"

/-- A box with empty lines around it. -/
def box (lines : List String) : String := "\n" ++ "\n".intercalate lines ++ "\n"

def fitLine (s : String) : String :=
  if s.length ≤ boxTextWidth then s
  else String.ofList (s.toList.take (boxTextWidth - 3)) ++ "..."

/-- The lines of a text. A carriage return before a newline belongs to it, and behind the last
newline there is a line only if it is not empty. -/
def linesOf (s : String) : List String :=
  let pieces := s.toList.splitOn '\n'
  let closed := pieces.dropLast.map fun cs => if cs.getLast? = some '\r' then cs.dropLast else cs
  let last := pieces.getLastD []
  (closed ++ if last.isEmpty then [] else [last]).map String.ofList

def boxMessage (s : String) : String :=
  "\n".intercalate ((linesOf s).map fun line => boxLine (fitLine line))

end HalfLink.Build
