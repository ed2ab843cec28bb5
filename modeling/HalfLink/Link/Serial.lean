import HalfLink.Frame.Basic
import HalfLink.Link.Basic
import HalfLink.Time.Clock

/-! Serial ports, and the link over one. -/
namespace HalfLink

/-- A failure of the port, whatever its cause. -/
inductive SerialFault
  | failed
deriving DecidableEq, Repr

/-- A serial port, as a part of the world `σ`. -/
class SerialPort (σ : Type) where
  /-- Sends all bytes, or fails. -/
  transmit : Bytes → σ → Except SerialFault Unit × σ
  flush : σ → Except SerialFault Unit × σ
  ready : σ → Except SerialFault Bool × σ
  /-- Takes at most `limit` of the waiting bytes. -/
  receive (limit : Nat) : σ → Except SerialFault Bytes × σ
  /-- A bound on what can still be received if nothing is sent. -/
  waiting : σ → Nat
  waiting_ready_le : ∀ {w answer w'}, ready w = (answer, w') → waiting w' ≤ waiting w
  length_receive_le : ∀ {limit w bytes w'},
    receive limit w = (.ok bytes, w') → bytes.length ≤ limit
  waiting_receive_lt : ∀ {limit w bytes w'},
    receive limit w = (.ok bytes, w') → bytes ≠ [] → waiting w' < waiting w

/-- A world whose link is its serial port. -/
structure SerialLink (σ : Type) where
  port : σ
deriving DecidableEq, Repr

namespace SerialLink

variable {σ : Type} [SerialPort σ]

/-- Sends and flushes; more than the largest frame is refused before anything is sent. -/
def write (bytes : Bytes) (w : SerialLink σ) : Except LinkError Unit × SerialLink σ :=
  if maxFrameSize < bytes.length then (.error .oversized, w)
  else
    match SerialPort.transmit bytes w.port with
    | (.error _, port) => (.error .bus, ⟨port⟩)
    | (.ok _, port) =>
      match SerialPort.flush port with
      | (.error _, port) => (.error .bus, ⟨port⟩)
      | (.ok _, port) => (.ok (), ⟨port⟩)

/-- Takes what is waiting. With no room for a byte the port is not asked. -/
def read (limit : Nat) (w : SerialLink σ) : Except LinkError Bytes × SerialLink σ :=
  if limit = 0 then (.ok [], w)
  else
    match SerialPort.ready w.port with
    | (.error _, port) => (.error .bus, ⟨port⟩)
    | (.ok false, port) => (.ok [], ⟨port⟩)
    | (.ok true, port) =>
      match SerialPort.receive limit port with
      | (.error _, port) => (.error .bus, ⟨port⟩)
      | (.ok bytes, port) => (.ok bytes, ⟨port⟩)

theorem read_ok {limit : Nat} {w w' : SerialLink σ} {bytes : Bytes}
    (h : read limit w = (.ok bytes, w')) :
    bytes = [] ∨ ∃ port, SerialPort.ready w.port = (.ok true, port) ∧
      SerialPort.receive limit port = (.ok bytes, w'.port) := by
  unfold read at h
  split at h
  · simp_all
  · split at h
    · simp at h
    · simp_all
    · rename_i port hready
      split at h
      · simp at h
      · rename_i received port' hreceive
        obtain ⟨rfl, rfl⟩ : received = bytes ∧ (⟨port'⟩ : SerialLink σ) = w' := by simpa using h
        exact .inr ⟨port, hready, hreceive⟩

instance : Link (SerialLink σ) where
  write := write
  read := read
  backlog w := SerialPort.waiting w.port
  length_read_le h := by
    rcases read_ok h with rfl | ⟨port, _, hreceive⟩
    · exact Nat.zero_le _
    · exact SerialPort.length_receive_le hreceive
  backlog_read_lt h hne := by
    rcases read_ok h with rfl | ⟨port, hready, hreceive⟩
    · exact absurd rfl hne
    · exact Nat.lt_of_lt_of_le (SerialPort.waiting_receive_lt hreceive hne)
        (SerialPort.waiting_ready_le hready)

instance [TickSource σ] : TickSource (SerialLink σ) where
  readTicks w := readTicks w.port
  writeTicks ticks w := ⟨writeTicks ticks w.port⟩

end SerialLink

end HalfLink
