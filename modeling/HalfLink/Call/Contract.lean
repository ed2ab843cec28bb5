import HalfLink.Call.Callee
import HalfLink.Packed

/-! Typed transactions: a contract fixes an id and the packed forms of request and response. -/
namespace HalfLink

structure Contract (α β : Type) where
  id : TransactionId
  request : Packed.Codec α
  response : Packed.Codec β

namespace Contract

variable {α β σ τ : Type}

/-- The handler of the answering half. A request that cannot be read, or a reply that does not fit a
payload, leaves the response as it is. -/
def serve (c : Contract α β) (f : α → τ → β × τ) : Handler τ := fun request response device =>
  match c.request.read request with
  | .error _ => (response, device)
  | .ok a =>
    let (reply, device) := f a device
    match (Buffer.ofList? (c.response.encode reply) : Option Payload) with
    | some bytes => (response.append bytes.toList, device)
    | none => (response, device)

def entry (c : Contract α β) (f : α → τ → β × τ) : Directory.Entry τ := ⟨c.id, c.serve f⟩

/-- The reply in a response of `n` bytes at the front of `response`. -/
def readReply (c : Contract α β) (response : Bytes) (n : Nat) : Except Failure β :=
  match c.response.read (response.take n) with
  | .ok reply => .ok reply
  | .error _ => .error .decode

def send [Link σ] [TickSource σ] (polls : Nat) (c : Contract α β) (caller : Caller) (request : α)
    (w : σ) : Option (Except Failure β) × Caller × σ :=
  match (Buffer.ofList? (c.request.encode request) : Option Payload) with
  | none => (some (.error .encode), caller, w)
  | some wire =>
    let p := caller.send polls c.id wire.toList Caller.scratch w
    match p.outcome with
    | none => (none, p.caller, p.world)
    | some (.error e) => (some (.error e), p.caller, p.world)
    | some (.ok n) => (some (c.readReply p.response n), p.caller, p.world)

end Contract

end HalfLink
