import HalfLink.Time.Clock
import HalfLink.Firmware.Log

/-! The task that advances the coarse counter once per millisecond of the driver's clock. -/
namespace HalfLink.Firmware

def tickInterval : Nat := 1000

/-- The tick task: no expiry is set before its first turn. -/
structure Ticker where
  next : Option Nat := none
deriving DecidableEq, Repr

/-- One turn at `now` microseconds: the number of expiries since the last one, which come one
interval after the other whenever the turn happens. -/
def Ticker.poll (t : Ticker) (now : Nat) : Nat × List LogRecord × Ticker :=
  match t.next with
  | none => (0, [⟨.info, "Tick task started", []⟩], ⟨some (now + tickInterval)⟩)
  | some next =>
    if now < next then (0, [], t)
    else
      let ticks := (now - next) / tickInterval + 1
      (ticks, [], ⟨some (next + ticks * tickInterval)⟩)

end HalfLink.Firmware
