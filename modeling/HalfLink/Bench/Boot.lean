import HalfLink.Bench.Session
import HalfLink.Firmware.Forwarder
import HalfLink.Firmware.Listener
import HalfLink.Firmware.Ticker

/-! The firmware on the bench, from a fresh boot: its three tasks, its channel and signal, and its
clocks. The board's clock is the coarse counter. -/
namespace HalfLink.Bench

open Firmware

structure Boot where
  fast : DriverClock := {}
  ticker : Ticker := {}
  listener : Listener := {}
  signal : Option RawReport := none
  forwarding : Forwarding World

inductive BootStep
  | hostReport (report : RawReport)
  | signalReport (report : RawReport)
  /-- Rounds in each of which the time advances and every task has one turn. -/
  | run (rounds micros : Nat)
  | sleep (micros : Nat)
  | readFast
  | writeFast (ticks : Ticks 32)
  | event (e : Event)
deriving DecidableEq, Repr

inductive BootShown
  | nothing
  | queued (taken : Bool)
  | ticks (n : Ticks 32)
deriving DecidableEq, Repr

namespace Boot

def start (caller : Caller) (board : Board) : Boot where
  forwarding := { task := {}, reports := [], shared := { caller }, world := ⟨board⟩ }

def board (b : Boot) : Board := b.forwarding.world.port

def mapBoard (b : Boot) (f : Board → Board) : Boot :=
  { b with forwarding := { b.forwarding with world := ⟨f b.board⟩ } }

def say (b : Boot) (records : List LogRecord) : Boot :=
  { b with forwarding := { b.forwarding with log := b.forwarding.log ++ records } }

def sleep (b : Boot) (micros : Nat) : Boot := { b with fast := b.fast.advance micros }

def pollTicker (b : Boot) : Boot :=
  let (ticks, log, ticker) := b.ticker.poll b.fast.micros
  (({ b with ticker }).say log).mapBoard fun board =>
    { board with clock := board.clock + BitVec.ofNat 32 ticks }

def pollForwarder (b : Boot) : Boot :=
  { b with forwarding := b.forwarding.poll (readTicks b.fast) }

def pollListener (b : Boot) : Boot :=
  let (log, listener) := b.listener.poll b.signal
  ({ b with listener, signal := none }).say log

def round (b : Boot) (micros : Nat) : Boot := (b.sleep micros).pollTicker.pollForwarder.pollListener

def rounds (b : Boot) (micros : Nat) : Nat → Boot
  | 0 => b
  | n + 1 => (b.round micros).rounds micros n

def run (b : Boot) : BootStep → BootShown × Boot
  | .hostReport report =>
    match enqueue? b.forwarding.reports report with
    | some reports => (.queued true, { b with forwarding := { b.forwarding with reports } })
    | none => (.queued false, b)
  | .signalReport report => (.nothing, { b with signal := some report })
  | .run rounds micros => (.nothing, b.rounds micros rounds)
  | .sleep micros => (.nothing, b.sleep micros)
  | .readFast => (.ticks (readTicks b.fast), b)
  | .writeFast ticks => (.nothing, { b with fast := writeTicks ticks b.fast })
  | .event e => (.nothing, b.mapBoard (·.happen e))

def clearRecords (b : Boot) : Boot :=
  let quiet := b.mapBoard (·.clearRecords)
  { quiet with forwarding := { quiet.forwarding with log := [] } }

def step (b : Boot) (s : BootStep) : BootShown × Boot := b.clearRecords.run s

end Boot

end HalfLink.Bench
