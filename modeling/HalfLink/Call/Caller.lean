import HalfLink.Frame.Parser
import HalfLink.Link.Basic
import HalfLink.Link.Health
import HalfLink.Time.Clock

/-! The calling half. One transaction is in flight at a time: a request goes out, and the caller
waits for the response with its id and number until the deadline. `start` and `poll` never wait;
`send` is the waiting form, bounded by a number of polls. Link and clock are parts of the world `σ`,
which every operation takes and gives back. -/
namespace HalfLink

def readSize : Nat := 64

inductive Failure
  /-- The request is larger than a payload; nothing was sent. -/
  | payloadTooLarge
  /-- The response did not fit the caller's buffer, which is untouched. -/
  | responseTooLarge
  /-- No answer before the deadline. -/
  | timeout
  | busy
  | idle
  /-- The link is down and the next attempt is not due. -/
  | disconnected
  /-- The link refused the write. -/
  | link
  /-- A typed request does not fit a payload. -/
  | encode
  /-- A typed response cannot be read. -/
  | decode
deriving DecidableEq, Repr

/-- Feeds bytes up to the first frame that answers request number `seq` of `id`. -/
def Parser.seek (id : TransactionId) (seq : UInt8) (p : Parser) : Bytes → Option Frame × Parser
  | [] => (none, p)
  | byte :: rest =>
    match p.feed byte with
    | (.ok (some frame), p') =>
      if frame.answers id seq then (some frame, p') else seek id seq p' rest
    | (_, p') => seek id seq p' rest

inductive Caller.State
  | idle
  /-- Request number `seq` of `id` is out, and the wait for its response ends at `deadline`. -/
  | awaiting (id : TransactionId) (seq : UInt8) (deadline : Ticks 32)
deriving DecidableEq, Repr

structure Caller where
  settings : Settings
  health : Health
  parser : Parser
  state : Caller.State
  nextSeq : UInt8
deriving DecidableEq, Repr

namespace Caller

/-- A fresh caller, for settings whose deadlines resolve. -/
def ofSettings (s : Settings) : Except SettingsError Caller :=
  match s.check with
  | .error e => .error e
  | .ok _ => .ok ⟨s, .ofSettings s, .idle, .idle, 0⟩

def isBusy (c : Caller) : Bool :=
  match c.state with
  | .idle => false
  | .awaiting .. => true

def isConnected (c : Caller) : Bool := c.health.isConnected

/-- Forgets the transaction in flight. A late response to it has an old number and is ignored. -/
def abandon (c : Caller) : Caller := { c with state := .idle, parser := .idle }

variable {σ : Type} [Link σ] [TickSource σ]

/-- Writes request number `seq`, whose bytes are `wire`, and waits for its response from then on.
What is left of an earlier one in the parser is dropped. -/
def transmit (c : Caller) (now : Ticks 32) (id : TransactionId) (seq : UInt8) (wire : Bytes)
    (w : σ) : Except Failure Unit × Caller × σ :=
  let c := { c with parser := .idle }
  match Link.write wire w with
  | (.error _, w) => (.error .link, { c with health := c.health.recordFailure now }, w)
  | (.ok _, w) =>
    let deadline := Ticks.offset now c.settings.responseTimeout
    (.ok (), { c with state := .awaiting id seq deadline }, w)

/-- Sends a request. A request that is too large is refused before it counts as an attempt. -/
def start (c : Caller) (id : TransactionId) (request : Bytes) (w : σ) :
    Except Failure Unit × Caller × σ :=
  if c.isBusy then (.error .busy, c, w)
  else if maxPayloadSize < request.length then (.error .payloadTooLarge, c, w)
  else
    let now := readTicks w
    match c.health.attempt now with
    | (false, health) => (.error .disconnected, { c with health }, w)
    | (true, health) =>
      let numbered := { c with health, nextSeq := c.nextSeq + 1 }
      match Frame.request id c.nextSeq request with
      | .error _ => (.error .payloadTooLarge, numbered, w)
      | .ok frame =>
        match frame.toBuffer with
        | .error _ => (.error .payloadTooLarge, numbered, w)
        | .ok wire => numbered.transmit now id c.nextSeq wire.toList w

structure Polled (σ : Type) where
  /-- The length of the response, or the failure; none while the transaction is in flight. -/
  outcome : Option (Except Failure Nat)
  response : Bytes
  caller : Caller
  world : σ

/-- Reads what has arrived, up to the answer to request number `seq` of `id`. What stands behind the
answer in the same read is lost. -/
def drain (id : TransactionId) (seq : UInt8) (p : Parser) (w : σ) : Option Frame × Parser × σ :=
  match _h : Link.read readSize w with
  | (.error _, w') => (none, p, w')
  | (.ok [], w') => (none, p, w')
  | (.ok (byte :: rest), w') =>
    match p.seek id seq (byte :: rest) with
    | (some frame, p') => (some frame, p', w')
    | (none, p') => drain id seq p' w'
termination_by Link.backlog w
decreasing_by exact Link.backlog_read_lt _h (List.cons_ne_nil _ _)

def complete (c : Caller) (frame : Frame) (response : Bytes) (w : σ) : Polled σ :=
  let c := { c with state := .idle, health := c.health.recordSuccess }
  if response.length < frame.payload.size then
    ⟨some (.error .responseTooLarge), response, c, w⟩
  else ⟨some (.ok frame.payload.size), response.splice 0 frame.payload.toList, c, w⟩

/-- Ends the transaction if its deadline has come. -/
def checkDeadline (c : Caller) (deadline : Ticks 32) (response : Bytes) (w : σ) : Polled σ :=
  let now := readTicks w
  if Ticks.expired now deadline then
    ⟨some (.error .timeout), response,
      { c with state := .idle, parser := .idle, health := c.health.recordFailure now }, w⟩
  else ⟨none, response, c, w⟩

/-- Advances the transaction in flight. An answer that has arrived counts even after the deadline.
-/
def poll (c : Caller) (response : Bytes) (w : σ) : Polled σ :=
  match c.state with
  | .idle => ⟨some (.error .idle), response, c, w⟩
  | .awaiting id seq deadline =>
    match drain id seq c.parser w with
    | (some frame, p, w) => { c with parser := p }.complete frame response w
    | (none, p, w) => { c with parser := p }.checkDeadline deadline response w

/-- Polls until the transaction ends, at most `polls` times. -/
def wait (c : Caller) (response : Bytes) (w : σ) : Nat → Polled σ
  | 0 => ⟨none, response, c, w⟩
  | polls + 1 =>
    let p := c.poll response w
    match p.outcome with
    | some _ => p
    | none => p.caller.wait p.response p.world polls

def exchange (polls : Nat) (c : Caller) (id : TransactionId) (request response : Bytes) (w : σ) :
    Polled σ :=
  match c.start id request w with
  | (.error e, c, w) => ⟨some (.error e), response, c, w⟩
  | (.ok _, c, w) => c.wait response w polls

/-- A buffer that any response fits. -/
def scratch : Bytes := List.replicate maxPayloadSize 0

/-- Sends a request and waits for its response. A transaction in flight is driven to its end first,
and its response goes nowhere. The outcome is none only when one of the two did not end within
`polls` polls. -/
def send (polls : Nat) (c : Caller) (id : TransactionId) (request response : Bytes) (w : σ) :
    Polled σ :=
  if c.isBusy then
    let settled := c.wait scratch w polls
    match settled.outcome with
    | none => ⟨none, response, settled.caller, settled.world⟩
    | some _ => settled.caller.exchange polls id request response settled.world
  else c.exchange polls id request response w

/-- Sends a request and waits for its acknowledgement, whose payload goes nowhere. -/
def notify (polls : Nat) (c : Caller) (id : TransactionId) (request : Bytes) (w : σ) :
    Option (Except Failure Unit) × Caller × σ :=
  let p := c.send polls id request scratch w
  (p.outcome.map (·.map fun _ => ()), p.caller, p.world)

end Caller

end HalfLink
