import HalfLink.Call.Caller

/-! One caller shared by several calls, which advance in turns. A call holds the caller from the
turn that takes it until the call ends or is dropped, and polls the link once per turn; the others
wait. -/
namespace HalfLink

structure SharedCaller where
  caller : Caller
  held : Bool := false
deriving DecidableEq, Repr

namespace SharedCaller

def isConnected (s : SharedCaller) : Bool := s.caller.isConnected

end SharedCaller

inductive Call.Stage
  | waiting
  | holding
  | ended
deriving DecidableEq, Repr

/-- A request and the buffer for its response, and how far the transaction is. -/
structure Call where
  id : TransactionId
  request : Bytes
  response : Bytes
  stage : Call.Stage := .waiting
deriving DecidableEq, Repr

namespace Call

/-- A call for the acknowledgement of a request only. -/
def notify (id : TransactionId) (request : Bytes) : Call := ⟨id, request, Caller.scratch, .waiting⟩

/-- Drops a call: the caller becomes free, and a transaction in flight stays behind. -/
def drop (c : Call) (s : SharedCaller) : SharedCaller :=
  match c.stage with
  | .holding => { s with held := false }
  | .waiting | .ended => s

structure Turn (σ : Type) where
  /-- The call's result in the turn that ends it. -/
  outcome : Option (Except Failure Nat)
  call : Call
  shared : SharedCaller
  world : σ

variable {σ : Type} [Link σ] [TickSource σ]

/-- A turn of the call that holds the caller. -/
def advance (c : Call) (caller : Caller) (w : σ) : Turn σ :=
  let p := caller.poll c.response w
  match p.outcome with
  | some result =>
    ⟨some result, { c with response := p.response, stage := .ended }, ⟨p.caller, false⟩, p.world⟩
  | none => ⟨none, { c with response := p.response, stage := .holding }, ⟨p.caller, true⟩, p.world⟩

/-- Takes the caller, forgets what a dropped call left in flight, and sends the request. -/
def acquire (c : Call) (caller : Caller) (w : σ) : Turn σ :=
  match (if caller.isBusy then caller.abandon else caller).start c.id c.request w with
  | (.error e, caller, w) => ⟨some (.error e), { c with stage := .ended }, ⟨caller, false⟩, w⟩
  | (.ok _, caller, w) => c.advance caller w

def poll (c : Call) (s : SharedCaller) (w : σ) : Turn σ :=
  match c.stage with
  | .ended => ⟨none, c, s, w⟩
  | .holding => c.advance s.caller w
  | .waiting => if s.held then ⟨none, c, s, w⟩ else c.acquire s.caller w

end Call

end HalfLink
