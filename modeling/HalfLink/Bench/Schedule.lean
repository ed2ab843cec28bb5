import HalfLink.Bench.Session

/-! Several calls of one shared caller, each with a round in which it starts and one in which it is
dropped, given turns round by round. -/
namespace HalfLink.Bench

inductive Job
  | send (call : Call)
  | notify (call : Call)
  /-- A report that is forwarded, or the failure that keeps it from being one. -/
  | forward (call : Except Failure Call)
  | isConnected

/-- A job and the rounds of its life. -/
structure Client where
  job : Job
  start : Nat := 0
  cancel : Option Nat := none
  finished : Bool := false

inductive Outcome
  | response (result : Except Failure Nat) (buffer : Bytes)
  | done (result : Except Failure Unit)
  | connected (answer : Bool)
  | cancelled

/-- A turn that ended its job or wrote to the port. -/
structure Record where
  round : Nat
  client : Nat
  written : List Bytes
  outcome : Option Outcome
  clock : Ticks 32

structure Schedule where
  shared : SharedCaller
  world : World
  clients : List Client
  records : List Record := []

/-- What one turn of a job leaves behind. -/
structure JobTurn where
  outcome : Option Outcome
  job : Job
  shared : SharedCaller
  world : World

def Job.poll (s : SharedCaller) (w : World) : Job → JobTurn
  | .send call =>
    let t := call.poll s w
    ⟨t.outcome.map fun result => .response result t.call.response, .send t.call, t.shared, t.world⟩
  | .notify call =>
    let t := call.poll s w
    ⟨t.outcome.map fun result => .done (result.map fun _ => ()), .notify t.call, t.shared, t.world⟩
  | .forward (.error e) => ⟨some (.done (.error e)), .forward (.error e), s, w⟩
  | .forward (.ok call) =>
    let t := call.poll s w
    ⟨t.outcome.map fun result => .done (result.map fun _ => ()), .forward (.ok t.call), t.shared,
      t.world⟩
  | .isConnected =>
    ⟨if s.held then none else some (.connected s.isConnected), .isConnected, s, w⟩

def Job.drop (s : SharedCaller) : Job → SharedCaller
  | .send call | .notify call | .forward (.ok call) => call.drop s
  | .forward (.error _) | .isConnected => s

namespace Schedule

def turn (round : Nat) (s : Schedule) (index : Nat) : Schedule :=
  match s.clients[index]? with
  | none => s
  | some client =>
    if client.finished || decide (round < client.start) then s
    else if client.cancel.any (· ≤ round) then
      { s with
        shared := client.job.drop s.shared
        clients := s.clients.set index { client with finished := true }
        records := s.records ++ [⟨round, index, [], some .cancelled, s.world.port.clock⟩] }
    else
      let t := client.job.poll s.shared ⟨s.world.port.clearWrites⟩
      let written := t.world.port.near.written
      let record := ⟨round, index, written, t.outcome, t.world.port.clock⟩
      { s with
        shared := t.shared
        world := t.world
        clients := s.clients.set index { client with job := t.job, finished := t.outcome.isSome }
        records := if t.outcome.isSome || !written.isEmpty then s.records ++ [record]
          else s.records }

def round (s : Schedule) (n : Nat) : Schedule :=
  (List.range s.clients.length).foldl (turn n) s

def run (s : Schedule) (rounds : Nat) : Schedule := (List.range rounds).foldl round s

end Schedule

end HalfLink.Bench
