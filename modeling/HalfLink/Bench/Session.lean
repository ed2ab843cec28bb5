import HalfLink.Bench.Board

/-! Sessions on the bench: scripts of operations of either half, or of both ends of one line,
between events of the world. -/
namespace HalfLink.Bench

/-- Runs steps one after the other and keeps what each showed, with the state after it. -/
def play {ρ α β : Type} (step : ρ → α → β × ρ) (s : ρ) : List α → List (β × ρ)
  | [] => []
  | a :: rest =>
    let (shown, s) := step s a
    (shown, s) :: play step s rest

/-- A buffer for a response before the call. -/
def blank (n : Nat) : Bytes := List.replicate n 0xEE

/-- Polls of one whole turn of the tick counter: with time passing at every poll no wait is longer.
-/
def wholeTurn : Nat := 0x100000000

/-! ### The link alone -/

inductive LinkStep
  | event (e : Event)
  | write (bytes : Bytes)
  | read (size : Nat)
  /-- Takes the port out of its link and makes a new link of it. -/
  | reopen
deriving DecidableEq, Repr

inductive LinkShown
  | nothing
  | written (result : Except LinkError Unit)
  | filled (result : Except LinkError Nat) (buffer : Bytes)

def linkStep (w : World) (step : LinkStep) : LinkShown × World :=
  let w : World := ⟨w.port.clearRecords⟩
  match step with
  | .event e => (.nothing, ⟨w.port.happen e⟩)
  | .write bytes =>
    let (result, w) := Link.write bytes w
    (.written result, w)
  | .read size =>
    match Link.read size w with
    | (.ok bytes, w) => (.filled (.ok bytes.length) ((blank size).splice 0 bytes), w)
    | (.error e, w) => (.filled (.error e) (blank size), w)
  | .reopen => (.nothing, w)

/-! ### The calling end -/

inductive TypedRequest
  | layer (bias : UInt8)
  | blob (data : Bytes)
  | mixed (m : Mixed)
  | ping
deriving DecidableEq, Repr

inductive TypedReply
  | layer (s : LayerState)
  | blob (data : Bytes)
  | mixed (m : Mixed)
  | ping (n : UInt32)
deriving DecidableEq, Repr

def TypedRequest.send (request : TypedRequest) (c : Caller) (w : World) :
    Option (Except Failure TypedReply) × Caller × World :=
  match request with
  | .layer bias =>
    let (reply, rest) := layerContract.send wholeTurn c bias w
    (reply.map (·.map .layer), rest)
  | .blob data =>
    let (reply, rest) := blobContract.send wholeTurn c data w
    (reply.map (·.map .blob), rest)
  | .mixed m =>
    let (reply, rest) := mixedContract.send wholeTurn c m w
    (reply.map (·.map .mixed), rest)
  | .ping =>
    let (reply, rest) := pingContract.send wholeTurn c () w
    (reply.map (·.map .ping), rest)

inductive Act
  | start (id : TransactionId) (request : Bytes)
  | poll (size : Nat)
  | send (id : TransactionId) (request : Bytes) (size : Nat)
  | notify (id : TransactionId) (request : Bytes)
  | forward (report : Bytes)
  | typed (request : TypedRequest)
  | abandon
  | settings
  /-- Starts afresh with the same settings and the same world. -/
  | rebuild
deriving DecidableEq, Repr

inductive Shown
  | nothing
  | done (outcome : Option (Except Failure Unit))
  | filled (outcome : Option (Except Failure Nat)) (buffer : Bytes)
  | replied (outcome : Option (Except Failure TypedReply))
  | settings (s : Settings)

def Act.run (c : Caller) (w : World) : Act → Shown × Caller × World
  | .start id request =>
    let (result, rest) := c.start id request w
    (.done (some result), rest)
  | .poll size =>
    let p := c.poll (blank size) w
    (.filled p.outcome p.response, p.caller, p.world)
  | .send id request size =>
    let p := c.send wholeTurn id request (blank size) w
    (.filled p.outcome p.response, p.caller, p.world)
  | .notify id request =>
    let (outcome, rest) := c.notify wholeTurn id request w
    (.done outcome, rest)
  | .forward report =>
    let (outcome, rest) := Report.forward wholeTurn c report w
    (.done outcome, rest)
  | .typed request =>
    let (outcome, rest) := request.send c w
    (.replied outcome, rest)
  | .abandon => (.nothing, c.abandon, w)
  | .settings => (.settings c.settings, c, w)
  | .rebuild =>
    match Caller.ofSettings c.settings with
    | .ok fresh => (.nothing, fresh, w)
    | .error _ => (.nothing, c, w)

structure CallingEnd where
  caller : Caller
  world : World

inductive CallingStep
  | act (a : Act)
  | event (e : Event)
  | replies (fates : List Fate)
deriving DecidableEq, Repr

def CallingEnd.step (s : CallingEnd) (step : CallingStep) : Shown × CallingEnd :=
  let board := s.world.port.clearRecords
  match step with
  | .act a =>
    let (shown, caller, world) := a.run s.caller ⟨board⟩
    (shown, ⟨caller, world⟩)
  | .event e => (.nothing, ⟨s.caller, ⟨board.happen e⟩⟩)
  | .replies fates => (.nothing, ⟨s.caller, ⟨board.addReplies fates⟩⟩)

/-! ### The answering end -/

/-- Reads of one poll: more than any script of arrivals holds, unless the port hears itself for
ever. -/
def manyReads : Nat := 0x100000000

structure AnsweringEnd where
  callee : Callee Device
  world : World

inductive AnsweringStep
  | poll
  | event (e : Event)
deriving DecidableEq, Repr

/-- Shows the number of requests that a poll answered. -/
def AnsweringEnd.step (s : AnsweringEnd) (step : AnsweringStep) : Option Nat × AnsweringEnd :=
  let callee := { s.callee with device := s.callee.device.forgetReports }
  let world : World := ⟨s.world.port.clearRecords⟩
  match step with
  | .poll =>
    let (answered, callee, world) := callee.poll world manyReads
    (some answered, ⟨callee, world⟩)
  | .event e => (none, ⟨callee, ⟨world.port.happen e⟩⟩)

/-! ### Both ends of one line -/

structure Wire where
  caller : Caller
  callee : Callee Device
  /-- The caller's port is the near one. -/
  board : Board

inductive WireStep
  | calling (step : CallingStep)
  | answering (step : AnsweringStep)
deriving DecidableEq, Repr

inductive WireShown
  | calling (shown : Shown)
  | answering (answered : Option Nat)

def Wire.step (s : Wire) : WireStep → WireShown × Wire
  | .calling step =>
    let (shown, near) := CallingEnd.step ⟨s.caller, ⟨s.board⟩⟩ step
    let callee := { s.callee with device := s.callee.device.forgetReports }
    (.calling shown, ⟨near.caller, callee, near.world.port⟩)
  | .answering step =>
    let (answered, far) := AnsweringEnd.step ⟨s.callee, ⟨s.board.swap⟩⟩ step
    (.answering answered, ⟨s.caller, far.callee, far.world.port.swap⟩)

end HalfLink.Bench
