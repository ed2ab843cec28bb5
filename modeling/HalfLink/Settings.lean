import HalfLink.Time.Ticks

/-! Timing of transactions and of the link's health. Times are in coarse ticks. -/
namespace HalfLink

structure Settings where
  responseTimeout : Ticks 32 := 20
  /-- Failures in a row before the link counts as down; 0 means never. -/
  maxErrors : UInt8 := 10
  /-- Ticks between attempts while the link is down. -/
  retryInterval : Ticks 32 := 500
deriving DecidableEq, Repr

inductive SettingsError
  | timeoutOutOfRange
deriving DecidableEq, Repr

namespace Settings

/-- Deadlines resolve only when they lie less than half the tick range ahead. -/
def check (s : Settings) : Except SettingsError Unit :=
  if s.responseTimeout = 0 ∨ Ticks.half 32 ≤ s.responseTimeout then .error .timeoutOutOfRange
  else if Ticks.half 32 ≤ s.retryInterval then .error .timeoutOutOfRange
  else .ok ()

end Settings

end HalfLink
