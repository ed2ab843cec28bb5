import HalfLink.Toml.Time
import HalfLink.Toml.Value

/-! Numbers, truth values and times without quotes, each told from its spelling as a whole. -/
namespace HalfLink.Toml

open Text

/-- The digits of groups that single underscores join. -/
def joinedDigits? (base : Nat) (cs : List Char) : Option (List Char) :=
  let groups := cs.splitOn '_'
  if groups.all fun g => !g.isEmpty && g.all (isDigitOf base) then some groups.flatten else none

/-- Decimal digits without a needless zero in front. -/
def wholeDigits? (cs : List Char) : Option (List Char) := do
  let ds ← joinedDigits? 10 cs
  if ds.head? = some '0' ∧ cs.length ≠ 1 then none else some ds

/-- Splits off a sign; true for minus. -/
def splitSign : List Char → Bool × List Char
  | '-' :: rest => (true, rest)
  | '+' :: rest => (false, rest)
  | cs => (false, cs)

/-- An integer of 64 bits, decimal with a sign or in another base without one. -/
def integer? (cs : List Char) : Option Int :=
  let value? : Option Int := match cs with
    | '0' :: 'x' :: ds => (joinedDigits? 16 ds).map fun ds => (numberOf 16 ds : Int)
    | '0' :: 'o' :: ds => (joinedDigits? 8 ds).map fun ds => (numberOf 8 ds : Int)
    | '0' :: 'b' :: ds => (joinedDigits? 2 ds).map fun ds => (numberOf 2 ds : Int)
    | _ =>
      let (minus, ds) := splitSign cs
      (wholeDigits? ds).map fun ds => if minus then -(numberOf 10 ds : Int) else numberOf 10 ds
  value?.filter fun i => decide (-0x8000000000000000 ≤ i ∧ i < 0x8000000000000000)

/-- Whether digits · 10 ^ exponent is at or over the point from which it is nearest to infinity
among the double-precision numbers. -/
def overflows (digits : List Char) (exponent : Int) : Bool :=
  let m := numberOf 10 digits
  let places := (toString m).length + exponent
  if m = 0 ∨ places < 300 then false
  else if 320 < places then true
  else
    let bound := (1 <<< 1024) - (1 <<< 970)
    if 0 ≤ exponent then bound ≤ m * Nat.pow 10 exponent.toNat
    else bound * Nat.pow 10 (-exponent).toNat ≤ m

/-- Whether the text is a float: with a fraction, an exponent or both, or a name. -/
def isFloat (cs : List Char) : Bool :=
  let (minus, body) := splitSign cs
  if body = "inf".toList ∨ body = "nan".toList then true
  else
    let isMark c := c == 'e' || c == 'E'
    let mantissa := body.takeWhile (!isMark ·)
    let exponent := body.dropWhile (!isMark ·)
    let whole := mantissa.takeWhile (· != '.')
    let fraction := mantissa.dropWhile (· != '.')
    let digits? := do
      let ds ← wholeDigits? whole
      let more ← if fraction.isEmpty then some [] else joinedDigits? 10 fraction.tail
      let (down, ps) := splitSign exponent.tail
      let power ← if exponent.isEmpty then some [] else joinedDigits? 10 ps
      let e : Int := if down then -(numberOf 10 power : Int) else numberOf 10 power
      some (ds ++ more, e - more.length)
    match digits? with
    | none => false
    | some (digits, e) =>
      !(fraction.isEmpty && exponent.isEmpty) && (minus || !overflows digits e)

/-- The value of a text without quotes or brackets. -/
def scalar? (cs : List Char) : Option Value :=
  if cs = "true".toList then some (.boolean true)
  else if cs = "false".toList then some (.boolean false)
  else if isTimestamp cs then some (.datetime (String.ofList cs))
  else if isFloat cs then some (.float (String.ofList cs))
  else (integer? cs).map .integer

end HalfLink.Toml
