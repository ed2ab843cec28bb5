/-! Byte strings, and byte buffers of a fixed capacity. `push` drops a byte that does not fit;
`append` takes all of its bytes or none. -/
namespace HalfLink

abbrev Bytes := List UInt8

/-- Overwrites the bytes of `target` from position `i` on with `bytes`. -/
def Bytes.splice (target : Bytes) (i : Nat) (bytes : Bytes) : Bytes :=
  target.take i ++ bytes ++ target.drop (i + bytes.length)

@[ext] structure Buffer (capacity : Nat) where
  toList : Bytes
  length_le : toList.length ≤ capacity
deriving DecidableEq, Repr

namespace Buffer

variable {n : Nat}

def empty : Buffer n := ⟨[], Nat.zero_le n⟩

instance : Inhabited (Buffer n) := ⟨empty⟩

def size (b : Buffer n) : Nat := b.toList.length

def ofList? (bytes : Bytes) : Option (Buffer n) :=
  if h : bytes.length ≤ n then some ⟨bytes, h⟩ else none

/-- Appends one byte, or drops it when the buffer is full. -/
def push (b : Buffer n) (byte : UInt8) : Buffer n :=
  if h : b.size < n then ⟨b.toList ++ [byte], by simp only [List.length_append]; exact h⟩ else b

/-- Pushes bytes one by one: what is over the capacity is dropped. -/
def pushAll (b : Buffer n) (bytes : Bytes) : Buffer n := bytes.foldl push b

/-- Appends all bytes, or none of them when they do not fit. -/
def append (b : Buffer n) (bytes : Bytes) : Buffer n :=
  if h : b.size + bytes.length ≤ n then ⟨b.toList ++ bytes, by rw [List.length_append]; exact h⟩
  else b

@[simp] theorem size_empty : (empty : Buffer n).size = 0 := rfl

theorem size_push_le (b : Buffer n) (byte : UInt8) : (b.push byte).size ≤ b.size + 1 := by
  unfold push
  split <;> simp [size]

theorem size_append_le (b : Buffer n) (bytes : Bytes) :
    (b.append bytes).size ≤ b.size + bytes.length := by
  unfold append
  split <;> simp [size]

theorem toList_push (b : Buffer n) (byte : UInt8) (h : b.size < n) :
    (b.push byte).toList = b.toList ++ [byte] := by
  simp [push, h]

theorem pushAll_concat (b : Buffer n) (bytes : Bytes) (byte : UInt8) :
    b.pushAll (bytes ++ [byte]) = (b.pushAll bytes).push byte := by
  simp [pushAll]

theorem toList_pushAll (b : Buffer n) (bytes : Bytes) (h : b.size + bytes.length ≤ n) :
    (b.pushAll bytes).toList = b.toList ++ bytes := by
  induction bytes generalizing b with
  | nil => simp [pushAll]
  | cons byte rest ih =>
    simp only [List.length_cons] at h
    have hpush := b.toList_push byte (by omega)
    have hsize := b.size_push_le byte
    have hrest := ih (b.push byte) (by omega)
    rwa [hpush, List.append_assoc] at hrest

theorem toList_append (b : Buffer n) (bytes : Bytes) (h : b.size + bytes.length ≤ n) :
    (b.append bytes).toList = b.toList ++ bytes := by
  simp [append, h]

end Buffer

end HalfLink
