import HalfLink.Call.Caller
import HalfLink.Call.Directory

/-! The answering half: it finds the requests in what has arrived, hands each to its handler and
writes the handler's response back under the request's id and number. An id without a handler gets
no answer. -/
namespace HalfLink

variable {τ : Type}

/-- Serves one frame: the response to send, if any, and the device's state afterwards. -/
def Directory.respond (d : Directory τ) (frame : Frame) (device : τ) : Option Frame × τ :=
  match frame.kind with
  | .response => (none, device)
  | .request =>
    match d.lookup frame.id with
    | none => (none, device)
    | some handler =>
      let (payload, device) := handler frame.payload.toList .empty device
      (some (.response frame.id frame.seq payload), device)

structure Callee (τ : Type) where
  directory : Directory τ
  device : τ
  parser : Parser := .idle

namespace Callee

variable {σ : Type} [Link σ]

/-- Serves one frame and writes the response; true when a response went out. -/
def answer (c : Callee τ) (frame : Frame) (w : σ) : Bool × Callee τ × σ :=
  match c.directory.respond frame c.device with
  | (none, device) => (false, { c with device }, w)
  | (some response, device) =>
    match response.toBuffer with
    | .error _ => (false, { c with device }, w)
    | .ok wire =>
      match Link.write wire.toList w with
      | (.error _, w) => (false, { c with device }, w)
      | (.ok _, w) => (true, { c with device }, w)

/-- Feeds bytes and serves the frames among them; counts the responses that went out. -/
def serve (c : Callee τ) (w : σ) : Bytes → Nat × Callee τ × σ
  | [] => (0, c, w)
  | byte :: rest =>
    match c.parser.feed byte with
    | (.ok (some frame), p) =>
      let (sent, c, w) := { c with parser := p }.answer frame w
      let (answered, c, w) := c.serve w rest
      ((if sent then 1 else 0) + answered, c, w)
    | (_, p) => { c with parser := p }.serve w rest

/-- Serves what has arrived, in at most `reads` reads; counts the requests answered. Where responses
are heard again there need be no end to what arrives. -/
def poll (c : Callee τ) (w : σ) : Nat → Nat × Callee τ × σ
  | 0 => (0, c, w)
  | reads + 1 =>
    match Link.read readSize w with
    | (.error _, w) => (0, c, w)
    | (.ok [], w) => (0, c, w)
    | (.ok (byte :: rest), w) =>
      let (answered, c, w) := c.serve w (byte :: rest)
      let (more, c, w) := c.poll w reads
      (answered + more, c, w)

end Callee

end HalfLink
