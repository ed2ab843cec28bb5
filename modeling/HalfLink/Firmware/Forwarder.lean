import HalfLink.Firmware.Log
import HalfLink.Call.Report

/-! The task that forwards the host's reports: one transaction per report, in the order of the
channel. It tells when the link goes down and when it comes back. -/
namespace HalfLink.Firmware

def reportChannelSize : Nat := 4

/-- Puts a report behind those that wait, if there is room. -/
def enqueue? (reports : List RawReport) (report : RawReport) : Option (List RawReport) :=
  if reports.length < reportChannelSize then some (reports ++ [report]) else none

inductive Forwarder.Stage
  | unstarted
  | receiving
  /-- A report is under way since tick `since` of the fast counter. -/
  | sending (since : Ticks 32) (call : Call)
  /-- The report is done with and the link's state is to be looked at. -/
  | checking
deriving DecidableEq, Repr

structure Forwarder where
  stage : Forwarder.Stage := .unstarted
  /-- The state of the link that was told last. -/
  connected : Bool := true
deriving DecidableEq, Repr

/-- The task with all that its turns touch. -/
structure Forwarding (σ : Type) where
  task : Forwarder
  reports : List RawReport
  shared : SharedCaller
  world : σ
  log : List LogRecord := []

/-- How the end of a report's transaction is told. -/
def outcomeRecord (elapsed : Ticks 32) : Except Failure Nat → LogRecord
  | .ok _ => ⟨.trace, "Report forwarded in {} us", [toString elapsed.toNat]⟩
  | .error .disconnected => ⟨.trace, "Slave offline, report dropped", []⟩
  | .error e => ⟨.warn, "Report forward failed: {}", [failureName e]⟩

def linkRecord (connected : Bool) : LogRecord :=
  if connected then ⟨.info, "Link to slave restored", []⟩ else ⟨.warn, "Link to slave lost", []⟩

namespace Forwarding

variable {σ : Type}

def say (f : Forwarding σ) (record : LogRecord) : Forwarding σ :=
  { f with log := f.log ++ [record] }

def enter (f : Forwarding σ) (stage : Forwarder.Stage) : Forwarding σ :=
  { f with task := { f.task with stage } }

/-- Looks at the link's state and tells a change; false when another call holds the caller. -/
def check (f : Forwarding σ) : Bool × Forwarding σ :=
  if f.shared.held then (false, f.enter .checking)
  else
    let connected := f.shared.isConnected
    if connected = f.task.connected then (true, f.enter .receiving)
    else (true, ({ f with task := ⟨.receiving, connected⟩ }).say (linkRecord connected))

variable [Link σ] [TickSource σ]

/-- A turn of the call for the report under way; true when the task can go on to the next report. -/
def advance (f : Forwarding σ) (fast since : Ticks 32) (call : Call) : Bool × Forwarding σ :=
  let t := call.poll f.shared f.world
  let f := { f with shared := t.shared, world := t.world }
  match t.outcome with
  | none => (false, f.enter (.sending since t.call))
  | some result => (f.say (outcomeRecord (Ticks.diff fast since) result)).check

/-- Begins with the next report; true when it is done with at once. -/
def begin (f : Forwarding σ) (fast : Ticks 32) (report : RawReport) : Bool × Forwarding σ :=
  match Report.call report.toList with
  | .ok call => f.advance fast fast call
  | .error e => (f.say (outcomeRecord 0 (.error e))).check

/-- Forwards reports until one has to wait for the link or none is left. -/
def receive (f : Forwarding σ) (fast : Ticks 32) : List RawReport → Forwarding σ
  | [] => { f with reports := [] }
  | report :: rest =>
    match f.begin fast report with
    | (true, f) => f.receive fast rest
    | (false, f) => { f with reports := rest }

/-- Goes on to the next reports if the one before is done with. -/
def goOn (fast : Ticks 32) : Bool × Forwarding σ → Forwarding σ
  | (true, f) => f.receive fast f.reports
  | (false, f) => f

/-- One turn of the task while the fast counter shows `fast`. -/
def poll (f : Forwarding σ) (fast : Ticks 32) : Forwarding σ :=
  match f.task.stage with
  | .unstarted =>
    goOn fast (true, (f.say ⟨.info, "Forward task started", []⟩).enter .receiving)
  | .receiving => goOn fast (true, f)
  | .sending since call => goOn fast (f.advance fast since call)
  | .checking => goOn fast f.check

end Forwarding

end HalfLink.Firmware
