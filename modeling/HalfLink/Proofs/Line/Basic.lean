import HalfLink.Proofs.Call.Handling
import HalfLink.Proofs.Call.Seeking
import HalfLink.Proofs.Call.Starting

/-! Two halves on a line that keeps its bytes in order, and loses, alters and doubles none. How many
bytes a read gets is laid down from outside, so that bytes may be late and may be cut into reads
anywhere. -/
namespace HalfLink

/-- One direction of the line. -/
@[ext] structure Channel where
  read : Bytes := []
  pending : Bytes := []
deriving DecidableEq, Repr

namespace Channel

/-- All bytes that were put on the line. -/
def written (c : Channel) : Bytes := c.read ++ c.pending

def put (c : Channel) (bytes : Bytes) : Channel := { c with pending := c.pending ++ bytes }

def take (c : Channel) (n : Nat) : Channel := ⟨c.read ++ c.pending.take n, c.pending.drop n⟩

@[simp] theorem read_put (c : Channel) (bytes : Bytes) : (c.put bytes).read = c.read := rfl

@[simp] theorem written_put (c : Channel) (bytes : Bytes) :
    (c.put bytes).written = c.written ++ bytes := by
  simp [written, put]

@[simp] theorem put_nil (c : Channel) : c.put [] = c := by
  simp [put]

theorem put_put (c : Channel) (a b : Bytes) : (c.put a).put b = c.put (a ++ b) := by
  simp [put]

theorem read_prefix (c : Channel) : c.read <+: c.written := List.prefix_append _ _

end Channel

/-- The line as one half has it before it. -/
structure LineEnd where
  clock : Ticks 32
  inbound : Channel
  outbound : Channel
  /-- How many bytes the line lets through to each of the coming reads; to those beyond, none. -/
  grants : List Nat
deriving DecidableEq, Repr

namespace LineEnd

/-- An end at which nothing arrives. -/
def silent (clock : Ticks 32) : LineEnd := ⟨clock, {}, {}, []⟩

def read (limit : Nat) (w : LineEnd) : Except LinkError Bytes × LineEnd :=
  match w.grants with
  | [] => (.ok [], w)
  | n :: grants =>
    (.ok (w.inbound.pending.take (min limit n)),
      { w with inbound := w.inbound.take (min limit n), grants })

/-- A read never fails, and gives some of the bytes that are on their way. -/
theorem read_cases (limit : Nat) (w : LineEnd) :
    ∃ bytes w', w.read limit = (.ok bytes, w') ∧ bytes.length ≤ limit ∧
      w.inbound.pending = bytes ++ w'.inbound.pending ∧
      w'.inbound.read = w.inbound.read ++ bytes ∧ w'.outbound = w.outbound ∧
      w'.clock = w.clock := by
  unfold read
  split
  · exact ⟨[], w, rfl, Nat.zero_le _, by simp⟩
  · refine ⟨_, _, rfl, ?_, (List.take_append_drop _ _).symm, rfl, rfl, rfl⟩
    rw [List.length_take]
    omega

theorem read_ok {limit : Nat} {w w' : LineEnd} {bytes : Bytes}
    (h : w.read limit = (.ok bytes, w')) :
    bytes.length ≤ limit ∧ w.inbound.pending = bytes ++ w'.inbound.pending ∧
      w'.inbound.read = w.inbound.read ++ bytes ∧ w'.outbound = w.outbound ∧
      w'.clock = w.clock := by
  obtain ⟨bytes', w'', hread, hrest⟩ := read_cases limit w
  obtain ⟨hbytes, rfl⟩ := Prod.mk.inj (hread.symm.trans h)
  obtain rfl := Except.ok.inj hbytes
  exact hrest

instance : Link LineEnd where
  write bytes w := (.ok (), { w with outbound := w.outbound.put bytes })
  read := read
  backlog w := w.inbound.pending.length
  length_read_le h := (read_ok h).1
  backlog_read_lt h hne := by
    rw [(read_ok h).2.1, List.length_append]
    have := List.length_pos_iff.mpr hne
    omega

instance : TickSource LineEnd where
  readTicks w := w.clock
  writeTicks ticks w := { w with clock := ticks }

end LineEnd

/-- Two halves and the line between them. -/
structure Halves (τ : Type) where
  caller : Caller
  callee : Callee τ
  requests : Channel := {}
  responses : Channel := {}
  asked : List Query := []
  /-- How many bytes of responses had been read when the last of them went out. -/
  mark : Nat := 0

/-- What can happen to the halves. The time of a start or poll is any tick value, so any wait can
time out. -/
inductive Move
  | start (now : Ticks 32) (id : TransactionId) (request : Bytes)
  | poll (now : Ticks 32) (grants : List Nat) (response : Bytes)
  | abandon
  /-- A poll of the callee, in at most `reads` reads. -/
  | serve (grants : List Nat) (reads : Nat)

namespace Halves

variable {τ : Type}

def fresh (c : Caller) (d : Directory τ) (device : τ) : Halves τ where
  caller := c
  callee := { directory := d, device }

/-- The line before the caller. -/
def near (h : Halves τ) (now : Ticks 32) (grants : List Nat) : LineEnd :=
  ⟨now, h.responses, h.requests, grants⟩

/-- The line before the callee. -/
def far (h : Halves τ) (grants : List Nat) : LineEnd := ⟨0, h.requests, h.responses, grants⟩

def poll (h : Halves τ) (now : Ticks 32) (grants : List Nat) (response : Bytes) :
    Caller.Polled LineEnd :=
  h.caller.poll response (h.near now grants)

def step (h : Halves τ) : Move → Halves τ
  | .start now id request =>
    match h.caller.start id request (h.near now []), (Buffer.ofList? request : Option Payload) with
    | (.ok _, caller, w), some payload =>
      { h with
        caller
        requests := w.outbound
        asked := h.asked ++ [(id, payload)]
        mark := h.responses.read.length }
    | (_, caller, w), _ => { h with caller, requests := w.outbound }
  | .poll now grants response =>
    let p := h.poll now grants response
    { h with caller := p.caller, responses := p.world.inbound }
  | .abandon => { h with caller := h.caller.abandon }
  | .serve grants reads =>
    let (_, callee, w) := h.callee.poll (h.far grants) reads
    { h with callee, requests := w.inbound, responses := w.outbound }

def run (h : Halves τ) (moves : List Move) : Halves τ := moves.foldl step h

end Halves

end HalfLink
