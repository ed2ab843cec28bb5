import HalfLink.Time.Clock

/-! Timers: views of a tick source in every width, and a slot for one saved tick. -/
namespace HalfLink

/-- A tick source with one saved tick. -/
structure Timer (σ : Type) where
  source : σ
  saved : Ticks 32 := 0
deriving DecidableEq, Repr

namespace Timer

variable {σ : Type} [TickSource σ] {w : Nat}

def read (t : Timer σ) (w : Nat) : Ticks w := Ticks.view w (readTicks t.source)

/-- Ticks since `past`, in the width of `past`. -/
def elapsed (t : Timer σ) (past : Ticks w) : Ticks w := Ticks.diff (t.read w) past

/-- The deadline `after` ticks from now. -/
def deadline (t : Timer σ) (after : Ticks 32) : Ticks 32 := Ticks.offset (t.read 32) after

def hasExpired (t : Timer σ) (deadline : Ticks 32) : Bool := Ticks.expired (t.read 32) deadline

def clear (t : Timer σ) : Timer σ := { t with source := writeTicks 0 t.source }

def save (t : Timer σ) : Timer σ := { t with saved := readTicks t.source }

/-- Goes back to the saved tick: the time since the save is not counted. -/
def restore (t : Timer σ) : Timer σ := { t with source := writeTicks t.saved t.source }

end Timer

/-- The two timers of one half: a coarse one for timeouts and a fast one for latencies. -/
structure TimerPair (κ φ : Type) where
  coarse : Timer κ
  fast : Timer φ
deriving DecidableEq, Repr

namespace TimerPair

variable {κ φ : Type} [TickSource κ] [TickSource φ]

def ofSources (coarse : κ) (fast : φ) : TimerPair κ φ := ⟨⟨coarse, 0⟩, ⟨fast, 0⟩⟩

def readFast (c : TimerPair κ φ) : Ticks 32 := c.fast.read 32

def elapsedFast (c : TimerPair κ φ) (last : Ticks 32) : Ticks 32 := c.fast.elapsed last

def save (c : TimerPair κ φ) : TimerPair κ φ := ⟨c.coarse.save, c.fast.save⟩

def restore (c : TimerPair κ φ) : TimerPair κ φ := ⟨c.coarse.restore, c.fast.restore⟩

end TimerPair

end HalfLink
