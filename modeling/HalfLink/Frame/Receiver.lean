import HalfLink.Frame.Parser

/-! The receiver with its state in seven fields that exist at every stage. A field that the stage has
no use for holds what was last written to it, so it is `restart` that keeps an earlier frame out of the
next one. `Parser.receiver` gives the fields of a parser, and a step from them does what the parser
does. -/
namespace HalfLink

/-- What the next byte of the stream is taken for. -/
inductive Receiver.Stage
  | start
  | length
  | kind
  | id
  | seq
  | payload
  | checksum
deriving DecidableEq, Repr

structure Receiver where
  stage : Receiver.Stage := .start
  /-- The bytes after the start byte of the frame in progress. -/
  raw : Buffer maxFrameSize := .empty
  /-- The payload as far as it has come. -/
  buffer : Payload := .empty
  expectedLength : UInt8 := 0
  kind : Kind := .request
  id : UInt8 := 0
  seq : UInt8 := 0
deriving DecidableEq, Repr

namespace Receiver

def fresh : Receiver := {}

def isIdle (r : Receiver) : Bool := r.stage = .start

/-- Gives up the frame in progress. Its bytes are kept, for the search. -/
def restart (r : Receiver) : Receiver :=
  { r with stage := .start, buffer := .empty, expectedLength := 0, kind := .request, id := 0, seq := 0 }

def reset (r : Receiver) : Receiver := { r with raw := .empty }.restart

/-- Takes one byte behind a start byte; it is already among those kept. -/
def accept (r : Receiver) (byte : UInt8) : Except FrameError (Option Frame) × Receiver :=
  match r.stage with
  | .start => (.ok none, r)
  | .length =>
    if maxPayloadSize < byte.toNat then (.error .invalidFrame, r.restart)
    else (.ok none, { r with expectedLength := byte, stage := .kind })
  | .kind =>
    match Kind.ofByte? byte with
    | some kind => (.ok none, { r with kind, stage := .id })
    | none => (.error .invalidFrame, r.restart)
  | .id => (.ok none, { r with id := byte, stage := .seq })
  | .seq =>
    let stage := if r.expectedLength = 0 then .checksum else .payload
    (.ok none, { r with seq := byte, buffer := .empty, stage })
  | .payload =>
    let buffer := r.buffer.push byte
    let stage := if buffer.size = r.expectedLength.toNat then .checksum else .payload
    (.ok none, { r with buffer, stage })
  | .checksum =>
    if byte = Frame.checksum r.expectedLength r.kind.toByte r.id r.seq r.buffer.toList then
      (.ok (some ⟨r.kind, ⟨r.id⟩, r.seq, r.buffer⟩), r.reset)
    else (.error .invalidChecksum, r.restart)

/-- Takes one byte without searching again after an error. -/
def step (r : Receiver) (byte : UInt8) : Except FrameError (Option Frame) × Receiver :=
  if r.stage = .start then
    (.ok none, if byte = frameStart then { r with raw := .empty, stage := .length } else r)
  else { r with raw := r.raw.push byte }.accept byte

/-- A second look at bytes that were taken before. -/
structure Replay where
  receiver : Receiver
  found : Option Frame
  /-- The bytes behind the one that made a frame invalid, if one did. -/
  unread : Option Bytes

/-- Steps through bytes up to an invalid frame or their end, keeping the first frame found. -/
def replay (r : Receiver) (found : Option Frame) : Bytes → Replay
  | [] => ⟨r, found, none⟩
  | byte :: rest =>
    match r.step byte with
    | (.ok frame?, r') => replay r' (found <|> frame?) rest
    | (.error _, r') => ⟨r', found, some rest⟩

end Receiver

namespace Parser

open Receiver (fresh)

/-- The fields of a parser. Those that its phase does not know are as `restart` leaves them. -/
def receiver (p : Parser) : Receiver :=
  match p.phase with
  | .hunting => { raw := p.raw }
  | .length => { stage := .length, raw := p.raw }
  | .kind length => { stage := .kind, raw := p.raw, expectedLength := length }
  | .id length kind => { stage := .id, raw := p.raw, expectedLength := length, kind }
  | .seq length kind id => { stage := .seq, raw := p.raw, expectedLength := length, kind, id }
  | .payload h received => ⟨.payload, p.raw, received, h.length, h.kind, h.id, h.seq⟩
  | .checksum h received => ⟨.checksum, p.raw, received, h.length, h.kind, h.id, h.seq⟩

/-- A parser stands for its fields. -/
instance : Coe Parser Receiver := ⟨receiver⟩

@[simp] theorem raw_receiver (p : Parser) : p.receiver.raw = p.raw := by
  obtain ⟨phase, raw⟩ := p
  cases phase <;> rfl

@[simp] theorem receiver_idle : idle.receiver = fresh := rfl

@[simp] theorem isIdle_receiver (p : Parser) : p.receiver.isIdle = p.isIdle := by
  obtain ⟨phase, raw⟩ := p
  cases phase <;> rfl

theorem receiver_step (p : Parser) (byte : UInt8) :
    p.receiver.step byte = ((p.step byte).1, (p.step byte).2.receiver) := by
  obtain ⟨phase, raw⟩ := p
  cases phase with
  | hunting =>
    by_cases hbyte : byte = frameStart <;> simp [receiver, Receiver.step, step, await, hbyte]
  | length =>
    by_cases hlength : maxPayloadSize < byte.toNat <;>
      simp [receiver, Receiver.step, Receiver.accept, Receiver.restart, step, reject, await, hlength]
  | kind length =>
    cases hkind : Kind.ofByte? byte <;>
      simp [receiver, Receiver.step, Receiver.accept, Receiver.restart, step, reject, await, hkind]
  | id length kind => rfl
  | seq length kind id =>
    by_cases hzero : length = 0 <;>
      simp [receiver, Receiver.step, Receiver.accept, step, await, afterHeader, hzero]
  | payload h received =>
    by_cases hfull : (received.push byte).size = h.length.toNat <;>
      simp [receiver, Receiver.step, Receiver.accept, step, await, afterPayload, hfull]
  | checksum h received =>
    by_cases hsum : byte = Frame.checksum h.length h.kind.toByte h.id h.seq received.toList <;>
      simp [receiver, Receiver.step, Receiver.accept, Receiver.restart, Receiver.reset, step, reject,
        idle, hsum]

/-- The parts of a second look from the fields of a parser. -/
def Replay.receiver (look : Replay) : Receiver.Replay :=
  ⟨look.parser.receiver, look.found, look.unread⟩

theorem receiver_replay (p : Parser) (found : Option Frame) (bytes : Bytes) :
    p.receiver.replay found bytes = (p.replay found bytes).receiver := by
  induction bytes generalizing p found with
  | nil => rfl
  | cons byte rest ih =>
    rw [Receiver.replay, replay, receiver_step]
    obtain ⟨answer, p'⟩ := p.step byte
    cases answer with
    | error e => rfl
    | ok frame? => exact ih p' _

end Parser

namespace Receiver

/-- A reset leaves nothing of what the receiver was fed. -/
@[simp] theorem reset_eq (r : Receiver) : r.reset = fresh := rfl

theorem replay_reset_lt (r : Receiver) (found : Option Frame) (bytes rest : Bytes)
    (h : (r.reset.replay found bytes).unread = some rest) :
    (r.reset.replay found bytes).receiver.raw.size + rest.length < bytes.length := by
  rw [reset_eq, ← Parser.receiver_idle, Parser.receiver_replay] at h ⊢
  rw [Parser.Replay.receiver, Parser.raw_receiver]
  exact Parser.replay_idle_lt found bytes rest h

/-- Reads pending bytes from each later start byte, until what is left is not invalid. -/
def search (r : Receiver) (pending : Buffer maxFrameSize) (found : Option Frame) :
    Option Frame × Receiver :=
  match _h : r.reset.replay found (pending.toList.dropWhile (· != frameStart)) with
  | ⟨r', found', none⟩ => (found', r')
  | ⟨r', found', some rest⟩ => { r' with raw := .empty }.search (r'.raw.append rest) found'
termination_by pending.size
decreasing_by
  have hlt := replay_reset_lt _ _ _ rest (congrArg Replay.unread _h)
  rw [_h] at hlt
  have happ := r'.raw.size_append_le rest
  have hdrop := (List.dropWhile_sublist (l := pending.toList) (· != frameStart)).length_le
  exact Nat.lt_of_le_of_lt happ (Nat.lt_of_lt_of_le hlt hdrop)

/-- Searches the bytes that are kept of a rejected frame. -/
def rescan (r : Receiver) : Option Frame × Receiver := { r with raw := .empty }.search r.raw none

/-- Takes one byte: gives a frame when it completes one, and an error when it makes the frame in
progress invalid and the bytes of that frame hold no other. -/
def feed (r : Receiver) (byte : UInt8) : Except FrameError (Option Frame) × Receiver :=
  match r.step byte with
  | (.ok frame?, r') => (.ok frame?, r')
  | (.error e, r') =>
    match r'.rescan with
    | (some frame, r'') => (.ok (some frame), r'')
    | (none, r'') => (.error e, r'')

def feedAll (r : Receiver) : Bytes → List (Except FrameError (Option Frame)) × Receiver
  | [] => ([], r)
  | byte :: rest =>
    let (result, r') := r.feed byte
    let (results, r'') := feedAll r' rest
    (result :: results, r'')

/-- Feeds bytes up to the first frame or error; the bytes behind it are not taken. -/
def feedBytes (r : Receiver) : Bytes → Except FrameError (Option Frame) × Receiver
  | [] => (.ok none, r)
  | byte :: rest =>
    match r.feed byte with
    | (.ok none, r') => feedBytes r' rest
    | answer => answer

end Receiver

end HalfLink
