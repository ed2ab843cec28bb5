import HalfLink.Settings

/-! Health of the link: it is down after a number of failures in a row, and while it is down one
attempt is let through per retry interval. -/
namespace HalfLink

structure Health where
  errors : UInt8
  /-- Failures before the link is down; 0 means never. -/
  maxErrors : UInt8
  retryInterval : Ticks 32
  /-- Tick of the last attempt while down, or of the failure that took the link down. -/
  lastRetry : Ticks 32
deriving DecidableEq, Repr

namespace Health

def ofSettings (s : Settings) : Health := ⟨0, s.maxErrors, s.retryInterval, 0⟩

def isConnected (h : Health) : Bool := decide (h.maxErrors = 0 ∨ h.errors < h.maxErrors)

/-- Whether a transaction may go on the wire at `now`. An attempt while down starts a new interval.
-/
def attempt (h : Health) (now : Ticks 32) : Bool × Health :=
  if h.isConnected then (true, h)
  else if h.retryInterval ≤ Ticks.diff now h.lastRetry then (true, { h with lastRetry := now })
  else (false, h)

def recordSuccess (h : Health) : Health := { h with errors := 0 }

/-- One more error, up to the largest count that matters. -/
def nextErrors (h : Health) : UInt8 :=
  let errors := if h.errors = 255 then 255 else h.errors + 1
  if h.maxErrors = 0 then errors else min errors h.maxErrors

def recordFailure (h : Health) (now : Ticks 32) : Health :=
  let failed := { h with errors := h.nextErrors }
  if h.isConnected && !failed.isConnected then { failed with lastRetry := now } else failed

end Health

end HalfLink
