import HalfLink.Buffer

/-! The packed binary form of values: integers in groups of seven bits with the lowest group first,
signed ones folded so that small magnitudes stay short, lengths before their elements, and no
separators. A reader gives back the bytes behind the value and does not look at them. -/
namespace HalfLink.Packed

inductive Error
  | unexpectedEnd
  | badVarint
  | badBool
  | badOption
  | badText
  | unknownVariant
deriving DecidableEq, Repr

/-- Reads a value from the front of a byte string. -/
abbrev Reader (α : Type) := StateT Bytes (Except Error) α

structure Codec (α : Type) where
  encode : α → Bytes
  decode : Reader α

/-- Decodes a value from the front of `bytes`. -/
def Codec.read {α : Type} (c : Codec α) (bytes : Bytes) : Except Error α :=
  (c.decode bytes).map Prod.fst

/-- What is encoded is read back. -/
def Codec.Faithful {α : Type} (c : Codec α) : Prop := ∀ a, c.read (c.encode a) = .ok a

def byte : Reader UInt8
  | [] => .error .unexpectedEnd
  | b :: rest => .ok (b, rest)

def take (n : Nat) : Reader Bytes := fun bytes =>
  if bytes.length < n then .error .unexpectedEnd else .ok (bytes.take n, bytes.drop n)

/-! ### Variable-length integers -/

/-- Groups of seven bits, lowest first; the top bit of a byte says that more follow. -/
def writeVarint (n : Nat) : Bytes :=
  if n < 128 then [UInt8.ofNat n] else UInt8.ofNat (n % 128 + 128) :: writeVarint (n / 128)

/-- Reads at most `groups` groups, the last of which is at most `largestTop`. Needless groups of
zeros are accepted. -/
def readGroups (largestTop : Nat) : Nat → Reader Nat
  | 0, _ => .error .badVarint
  | _ + 1, [] => .error .unexpectedEnd
  | groups + 1, b :: rest =>
    if b.toNat < 128 then
      if groups = 0 ∧ largestTop < b.toNat then .error .badVarint else .ok (b.toNat, rest)
    else do
      let (high, rest) ← readGroups largestTop groups rest
      return (b.toNat - 128 + 128 * high, rest)

def readVarint (bits : Nat) : Reader Nat := readGroups ((1 <<< (bits % 7)) - 1) ((bits + 6) / 7)

/-- Folds the sign into the lowest bit. -/
def fold (i : Int) : Nat := if 0 ≤ i then 2 * i.toNat else 2 * (-i).toNat - 1

def unfold (n : Nat) : Int := if n % 2 = 0 then (n / 2 : Int) else -(n / 2 : Int) - 1

/-! ### Codecs -/

def unit : Codec Unit := ⟨fun _ => [], pure ()⟩

def u8 : Codec UInt8 := ⟨fun n => [n], byte⟩

def u16 : Codec UInt16 :=
  ⟨fun n => writeVarint n.toNat, return UInt16.ofNat (← readVarint 16)⟩

def u32 : Codec UInt32 :=
  ⟨fun n => writeVarint n.toNat, return UInt32.ofNat (← readVarint 32)⟩

def u64 : Codec UInt64 :=
  ⟨fun n => writeVarint n.toNat, return UInt64.ofNat (← readVarint 64)⟩

def i8 : Codec Int8 := ⟨fun n => [n.toUInt8], return (← byte).toInt8⟩

def i16 : Codec Int16 :=
  ⟨fun n => writeVarint (fold n.toInt), return Int16.ofInt (unfold (← readVarint 16))⟩

def i32 : Codec Int32 :=
  ⟨fun n => writeVarint (fold n.toInt), return Int32.ofInt (unfold (← readVarint 32))⟩

def bool : Codec Bool where
  encode b := [if b then 1 else 0]
  decode := do
    match ← byte with
    | 0 => return false
    | 1 => return true
    | _ => throw .badBool

def option {α : Type} (c : Codec α) : Codec (Option α) where
  encode
    | none => [0]
    | some a => 1 :: c.encode a
  decode := do
    match ← byte with
    | 0 => return none
    | 1 => return some (← c.decode)
    | _ => throw .badOption

def pair {α β : Type} (a : Codec α) (b : Codec β) : Codec (α × β) where
  encode x := a.encode x.1 ++ b.encode x.2
  decode := do
    let x ← a.decode
    let y ← b.decode
    return (x, y)

/-- A codec for a type that is the same as a coded one. -/
def via {α β : Type} (c : Codec α) (into : α → β) (out : β → α) : Codec β :=
  ⟨fun b => c.encode (out b), into <$> c.decode⟩

/-- A length and as many bytes. -/
def bytes : Codec Bytes where
  encode bs := writeVarint bs.length ++ bs
  decode := do take (← readVarint 64)

/-- Text as the length and bytes of its UTF-8 form. -/
def text : Codec String where
  encode s := bytes.encode s.toUTF8.data.toList
  decode := do
    match String.fromUTF8? (← bytes.decode).toByteArray with
    | some s => return s
    | none => throw .badText

end HalfLink.Packed
