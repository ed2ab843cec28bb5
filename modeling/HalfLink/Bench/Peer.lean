import HalfLink.Bench.Device
import HalfLink.Bench.Port

/-! A far half that answers at once and delivers late: its responses queue up, and each read of the
near half brings the first of them one step closer. -/
namespace HalfLink.Bench

structure Peer where
  directory : Directory Device
  device : Device := {}
  parser : Parser := .idle
  /-- Reads of the near half that a response waits for. -/
  delay : Nat := 0
  replies : List Fate := []
  queue : List (Nat × Bytes) := []

def queued : List (Nat × Bytes) → Nat
  | [] => 0
  | (_, bytes) :: rest => bytes.length + queued rest

namespace Peer

def serve (p : Peer) (frame : Frame) : Peer :=
  match p.directory.respond frame p.device with
  | (none, device) => { p with device }
  | (some response, device) =>
    let (fate, replies) := Fate.next p.replies
    { p with device, replies, queue := p.queue ++ [(p.delay, fate.apply response.encode)] }

/-- Takes the bytes of a write. Errors of the parser go by unseen. -/
def hear (p : Peer) : Bytes → Peer
  | [] => p
  | byte :: rest =>
    match p.parser.feed byte with
    | (.ok (some frame), parser) => ({ p with parser }.serve frame).hear rest
    | (_, parser) => { p with parser }.hear rest

/-- Brings the first response one step closer and gives its bytes once it is there. -/
def release (p : Peer) : Bytes × Peer :=
  match p.queue with
  | [] => ([], p)
  | (steps, bytes) :: rest =>
    if steps ≤ 1 then (bytes, { p with queue := rest })
    else ([], { p with queue := (steps - 1, bytes) :: rest })

theorem release_queued (p : Peer) :
    p.release.1.length + queued p.release.2.queue = queued p.queue := by
  unfold release
  split
  · simp_all
  · split <;> simp_all [queued]

end Peer

end HalfLink.Bench
