import HalfLink.Buffer

/-! What a call needs of the line between the halves: it transmits one frame at a time and
hands out what has arrived, never waiting for more. -/
namespace HalfLink

inductive LinkError
  | bus
  /-- The write is larger than the link can carry. -/
  | oversized
deriving DecidableEq, Repr

/-- A line to the other half, as a part of the world `σ`. -/
class Link (σ : Type) where
  write : Bytes → σ → Except LinkError Unit × σ
  /-- Takes at most `limit` of the bytes that have arrived; none means that nothing is there yet. -/
  read (limit : Nat) : σ → Except LinkError Bytes × σ
  /-- A bound on what can still be read if nothing is written. -/
  backlog : σ → Nat
  length_read_le : ∀ {limit w bytes w'}, read limit w = (.ok bytes, w') → bytes.length ≤ limit
  backlog_read_lt : ∀ {limit w bytes w'},
    read limit w = (.ok bytes, w') → bytes ≠ [] → backlog w' < backlog w

end HalfLink
