import HalfLink.Frame.Basic
import HalfLink.Time.Ticks

/-! A scripted serial port: what arrives and what becomes of each write is laid down beforehand. -/
namespace HalfLink.Bench

/-- What the next read of a port comes upon. -/
inductive Arrival
  | bytes (bytes : Bytes)
  /-- One read finds nothing. -/
  | gap
  /-- Asking whether something is there fails. -/
  | readyFault
  /-- Taking what is there fails. -/
  | receiveFault
deriving DecidableEq, Repr

inductive Fate
  | intact
  | refused
  /-- The bytes go out, and the flush after them fails. -/
  | unflushed
  | lost
  | doubled
  | dropped (i : Nat)
  | flipped (i : Nat) (mask : UInt8)
  | inserted (i : Nat) (bytes : Bytes)
deriving DecidableEq, Repr

/-- The bytes that go out instead of the written ones. -/
def Fate.apply (bytes : Bytes) : Fate → Bytes
  | .intact | .refused | .unflushed => bytes
  | .lost => []
  | .doubled => bytes ++ bytes
  | .dropped i => bytes.eraseIdx i
  | .flipped i mask => bytes.modify i (· ^^^ mask)
  | .inserted i more => bytes.take i ++ more ++ bytes.drop i

/-- The fate of the next write and those after it; a write without one is intact. -/
def Fate.next : List Fate → Fate × List Fate
  | [] => (.intact, [])
  | fate :: rest => (fate, rest)

structure Port where
  /-- Ticks that pass with every look for arrivals. -/
  tick : Ticks 32 := 0
  /-- The most bytes of one read, if there is such a bound. -/
  chunk : Option Nat := none
  /-- Whether the port hears what it sends. -/
  echo : Bool := false
  inbox : List Arrival := []
  fates : List Fate := []
  /-- The writes that were not refused, as they were written. -/
  written : List Bytes := []
  flushes : Nat := 0
  flushFails : Bool := false
deriving DecidableEq, Repr

def arriving : List Arrival → Nat
  | [] => 0
  | .bytes bytes :: rest => bytes.length + arriving rest
  | _ :: rest => arriving rest

namespace Port

def arrive (p : Port) (bytes : Bytes) : Port :=
  if bytes = [] then p else { p with inbox := p.inbox ++ [.bytes bytes] }

/-- Takes a write. The bytes that went out are none when the port refused it. -/
def send (p : Port) (bytes : Bytes) : Option Bytes × Port :=
  match Fate.next p.fates with
  | (.refused, fates) => (none, { p with fates })
  | (fate, fates) =>
    let out := fate.apply bytes
    let sent := { p with
      fates
      written := p.written ++ [bytes]
      flushFails := decide (fate = .unflushed) }
    (some out, if p.echo then sent.arrive out else sent)

/-- Looks for the next arrival: none means a failure, else whether bytes can be asked for. -/
def look (p : Port) : Option Bool × Port :=
  match p.inbox with
  | [] => (some false, p)
  | .gap :: rest => (some false, { p with inbox := rest })
  | .readyFault :: rest => (none, { p with inbox := rest })
  | .bytes _ :: _ | .receiveFault :: _ => (some true, p)

/-- The most bytes that a read with room for `limit` takes. -/
def room (p : Port) (limit : Nat) : Nat :=
  match p.chunk with
  | some most => min limit most
  | none => limit

theorem room_le (p : Port) (limit : Nat) : p.room limit ≤ limit := by
  unfold room
  split <;> omega

/-- Takes bytes of the first arrival; none means a failure. A read never spans two arrivals. -/
def receive (p : Port) (limit : Nat) : Option Bytes × Port :=
  match p.inbox with
  | .bytes bytes :: rest =>
    let n := p.room limit
    (some (bytes.take n),
      { p with inbox := if bytes.length ≤ n then rest else .bytes (bytes.drop n) :: rest })
  | .receiveFault :: rest => (none, { p with inbox := rest })
  | _ => (some [], p)

theorem look_arriving_le (p : Port) : arriving p.look.2.inbox ≤ arriving p.inbox := by
  unfold look
  split <;> simp_all [arriving]

theorem length_receive_le {p p' : Port} {limit : Nat} {bytes : Bytes}
    (h : p.receive limit = (some bytes, p')) : bytes.length ≤ limit := by
  unfold receive at h
  split at h
  · injection h with hbytes _
    injection hbytes with hbytes
    subst hbytes
    have := p.room_le limit
    simp only [List.length_take]
    omega
  · simp at h
  · injection h with hbytes _
    injection hbytes with hbytes
    subst hbytes
    exact Nat.zero_le _

theorem receive_arriving_lt {p p' : Port} {limit : Nat} {bytes : Bytes}
    (h : p.receive limit = (some bytes, p')) (hne : bytes ≠ []) :
    arriving p'.inbox < arriving p.inbox := by
  unfold receive at h
  split at h
  · rename_i waiting rest hinbox
    injection h with hbytes hport
    injection hbytes with hbytes
    rw [← hport, hinbox]
    have hpos : 0 < bytes.length := List.length_pos_iff.2 hne
    rw [← hbytes, List.length_take] at hpos
    dsimp only
    split <;> simp only [arriving, List.length_drop] <;> omega
  · simp at h
  · injection h with hbytes _
    injection hbytes with hbytes
    exact absurd hbytes.symm hne

end Port

end HalfLink.Bench
