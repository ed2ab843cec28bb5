/-! Readers of text: a reader takes a value from the front of a list of characters, or fails. -/
namespace HalfLink.Text

abbrev Reader := StateT (List Char) Option

namespace Reader

def peek : Reader (Option Char) := return (← get).head?

def next : Reader Char
  | [] => none
  | c :: rest => some (c, rest)

def satisfy (p : Char → Bool) : Reader Char := do
  let c ← next
  if p c then return c else failure

def char (c : Char) : Reader Unit := discard (satisfy (· == c))

def text (s : String) : Reader Unit := s.toList.forM char

/-- Takes the longest run of characters that satisfy `p`. -/
def chars (p : Char → Bool) : Reader (List Char) := fun cs => some (cs.takeWhile p, cs.dropWhile p)

def skip (p : Char → Bool) : Reader Unit := discard (chars p)

/-- Takes items until `item` gives none, at most `n` of them. -/
def collect {α : Type} (item : Reader (Option α)) : Nat → Reader (List α)
  | 0 => failure
  | n + 1 => do
    match ← item with
    | none => return []
    | some a => return a :: (← collect item n)

/-- Takes items until `item` gives none. Each takes at least one character. -/
def many {α : Type} (item : Reader (Option α)) : Reader (List α) := do
  collect item ((← get).length + 1)

/-- The value of a reader that takes the whole text. -/
def all? {α : Type} (r : Reader α) (s : String) : Option α :=
  match r s.toList with
  | some (a, []) => some a
  | _ => none

end Reader

def digitValue? (base : Nat) (c : Char) : Option Nat :=
  let value? :=
    if '0' ≤ c ∧ c ≤ '9' then some (c.toNat - 48)
    else if 'a' ≤ c ∧ c ≤ 'f' then some (c.toNat - 87)
    else if 'A' ≤ c ∧ c ≤ 'F' then some (c.toNat - 55)
    else none
  value?.filter (· < base)

def isDigitOf (base : Nat) (c : Char) : Bool := (digitValue? base c).isSome

/-- The number that digits stand for, highest first. -/
def numberOf (base : Nat) (digits : List Char) : Nat :=
  digits.foldl (fun n c => n * base + (digitValue? base c).getD 0) 0

def hexDigits (n : Nat) : Reader Nat := do
  let mut value := 0
  for _ in List.range n do
    let c ← Reader.satisfy (isDigitOf 16)
    value := value * 16 + (digitValue? 16 c).getD 0
  return value

/-- The character of a code point that is one. -/
def charOf? (n : Nat) : Option Char := if n.isValidChar then some (Char.ofNat n) else none

end HalfLink.Text
