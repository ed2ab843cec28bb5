import HalfLink.Bench.Peer
import HalfLink.Link.Serial

/-! The bench's world: one clock, the near half's port, and what hangs at the far end of the line.
-/
namespace HalfLink.Bench

inductive Far
  | nothing
  | peer (peer : Peer)
  | port (port : Port)

/-- The bytes that the far end has queued up for the near port. -/
def Far.queued : Far → Nat
  | .peer p => Bench.queued p.queue
  | _ => 0

structure Board where
  clock : Ticks 32 := 0
  near : Port := {}
  far : Far := .nothing

namespace Board

/-- The same world from the far port's side. -/
def swap (b : Board) : Board :=
  match b.far with
  | .port p => { b with near := p, far := .port b.near }
  | _ => b

/-- The reports that the peer was passed. -/
def ingested (b : Board) : List Bytes :=
  match b.far with
  | .peer p => p.device.ingested
  | _ => []

/-- Forgets the writes and the reports so far, to show those of one step only. -/
def clearRecords (b : Board) : Board where
  clock := b.clock
  near := { b.near with written := [] }
  far := match b.far with
    | .nothing => .nothing
    | .peer p => .peer { p with device := p.device.forgetReports }
    | .port p => .port { p with written := [] }

def clearWrites (b : Board) : Board := { b with near := { b.near with written := [] } }

def carry (b : Board) (bytes : Bytes) : Board :=
  match b.far with
  | .nothing => b
  | .peer p => { b with far := .peer (p.hear bytes) }
  | .port p => { b with far := .port (p.arrive bytes) }

def transmit (bytes : Bytes) (b : Board) : Except SerialFault Unit × Board :=
  match b.near.send bytes with
  | (none, near) => (.error .failed, { b with near })
  | (some out, near) => (.ok (), { b with near }.carry out)

def flush (b : Board) : Except SerialFault Unit × Board :=
  let near := { b.near with flushes := b.near.flushes + 1, flushFails := false }
  (if b.near.flushFails then .error .failed else .ok (), { b with near })

/-- Lets the clock of the near port run, and the peer release what is due. -/
def pass (b : Board) : Board :=
  let b := { b with clock := b.clock + b.near.tick }
  match b.far with
  | .peer p =>
    let (bytes, p) := p.release
    { b with near := b.near.arrive bytes, far := .peer p }
  | _ => b

def ready (b : Board) : Except SerialFault Bool × Board :=
  let b := b.pass
  match b.near.look with
  | (none, near) => (.error .failed, { b with near })
  | (some there, near) => (.ok there, { b with near })

def receive (limit : Nat) (b : Board) : Except SerialFault Bytes × Board :=
  match b.near.receive limit with
  | (none, near) => (.error .failed, { b with near })
  | (some bytes, near) => (.ok bytes, { b with near })

def waiting (b : Board) : Nat := arriving b.near.inbox + b.far.queued

theorem arriving_append (a b : List Arrival) : arriving (a ++ b) = arriving a + arriving b := by
  induction a with
  | nil => simp [arriving]
  | cons x rest ih => cases x <;> simp [arriving, ih, Nat.add_assoc]

theorem arriving_arrive (p : Port) (bytes : Bytes) :
    arriving (p.arrive bytes).inbox = arriving p.inbox + bytes.length := by
  unfold Port.arrive
  split <;> simp_all [arriving_append, arriving]

theorem waiting_pass (b : Board) : b.pass.waiting = b.waiting := by
  obtain ⟨clock, near, far⟩ := b
  cases far with
  | nothing => rfl
  | port p => rfl
  | peer p =>
    have := p.release_queued
    simp only [pass, waiting, arriving_arrive, Far.queued]
    omega

theorem waiting_ready_le {b b' : Board} {answer : Except SerialFault Bool}
    (h : b.ready = (answer, b')) : b'.waiting ≤ b.waiting := by
  rw [← waiting_pass b]
  have hlook := b.pass.near.look_arriving_le
  unfold ready at h
  dsimp only at h
  split at h <;> rename_i heq <;> rw [heq] at hlook <;> injection h with _ hb <;> subst hb <;>
    exact Nat.add_le_add_right hlook _

theorem length_receive_le {limit : Nat} {b b' : Board} {bytes : Bytes}
    (h : b.receive limit = (.ok bytes, b')) : bytes.length ≤ limit := by
  unfold receive at h
  split at h
  · simp at h
  · rename_i heq
    injection h with hbytes _
    injection hbytes with hbytes
    subst hbytes
    exact Port.length_receive_le heq

theorem waiting_receive_lt {limit : Nat} {b b' : Board} {bytes : Bytes}
    (h : b.receive limit = (.ok bytes, b')) (hne : bytes ≠ []) : b'.waiting < b.waiting := by
  unfold receive at h
  split at h
  · simp at h
  · rename_i heq
    injection h with hbytes hb
    injection hbytes with hbytes
    subst hbytes hb
    exact Nat.add_lt_add_right (Port.receive_arriving_lt heq hne) _

instance : SerialPort Board where
  transmit := transmit
  flush := flush
  ready := ready
  receive := receive
  waiting := waiting
  waiting_ready_le := waiting_ready_le
  length_receive_le := length_receive_le
  waiting_receive_lt := waiting_receive_lt

instance : TickSource Board where
  readTicks b := b.clock
  writeTicks ticks b := { b with clock := ticks }

end Board

def Board.addReplies (b : Board) (fates : List Fate) : Board :=
  match b.far with
  | .peer p => { b with far := .peer { p with replies := p.replies ++ fates } }
  | _ => b

/-- A world of the bench as either half sees it. -/
abbrev World := SerialLink Board

/-- What a script does to the world between the operations of the halves. -/
inductive Event
  | arrive (arrival : Arrival)
  | fates (fates : List Fate)
  | advance (n : Ticks 32)
  | setClock (ticks : Ticks 32)
deriving DecidableEq, Repr

def Board.happen (b : Board) : Event → Board
  | .arrive (.bytes bytes) => { b with near := b.near.arrive bytes }
  | .arrive arrival => { b with near := { b.near with inbox := b.near.inbox ++ [arrival] } }
  | .fates fates => { b with near := { b.near with fates := b.near.fates ++ fates } }
  | .advance n => { b with clock := b.clock + n }
  | .setClock ticks => { b with clock := ticks }

end HalfLink.Bench
