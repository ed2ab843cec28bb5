import HalfLink.Frame.Receiver
import HalfLink.Link.Health
import HalfLink.Time.Timer

/-! Scripts of single parts: a parser, a timer, a pair of timers, the health of a link. -/
namespace HalfLink.Bench

/-! ### Parser -/

inductive ParserStep
  | feed (bytes : Bytes)
  | feedBytes (bytes : Bytes)
  | reset
deriving DecidableEq, Repr

inductive ParserShown
  | nothing
  /-- The bytes, by their index, that completed a frame or failed. -/
  | events (events : List (Nat × Except FrameError Frame))
  | first (result : Except FrameError (Option Frame))

/-- The results that are not silent, with their index. -/
def eventsOf (results : List (Except FrameError (Option Frame))) :
    List (Nat × Except FrameError Frame) :=
  results.zipIdx.filterMap fun
    | (.ok none, _) => none
    | (.ok (some frame), i) => some (i, .ok frame)
    | (.error e, i) => some (i, .error e)

def parserStep (r : Receiver) : ParserStep → ParserShown × Receiver
  | .feed bytes =>
    let (results, r) := r.feedAll bytes
    (.events (eventsOf results), r)
  | .feedBytes bytes =>
    let (result, r) := r.feedBytes bytes
    (.first result, r)
  | .reset => (.nothing, r.reset)

/-! ### Timers -/

inductive Reading
  | nothing
  | ticks (n : Nat)
  | flag (b : Bool)
  | both (a b : Reading)
deriving DecidableEq, Repr

def Reading.ofTicks {w : Nat} (t : Ticks w) : Reading := .ticks t.toNat

inductive TimerStep
  | advance (n : Ticks 32)
  | write (ticks : Ticks 32)
  | clear
  | save
  | restore
  | read (w : Nat)
  | elapsed (w : Nat) (past : Ticks w)
  | deadline (after : Ticks 32)
  | hasExpired (deadline : Ticks 32)

def timerStep (t : Timer Counter) : TimerStep → Reading × Timer Counter
  | .advance n => (.nothing, { t with source := t.source.advance n })
  | .write ticks => (.nothing, { t with source := writeTicks ticks t.source })
  | .clear => (.nothing, t.clear)
  | .save => (.nothing, t.save)
  | .restore => (.nothing, t.restore)
  | .read w => (.ofTicks (t.read w), t)
  | .elapsed _ past => (.ofTicks (t.elapsed past), t)
  | .deadline after => (.ofTicks (t.deadline after), t)
  | .hasExpired deadline => (.flag (t.hasExpired deadline), t)

inductive PairStep
  | advanceCoarse (n : Ticks 32)
  | advanceFast (n : Ticks 32)
  | save
  | restore
  | clearCoarse
  | clearFast
  | readFast
  | elapsedFast (last : Ticks 32)
  | readCoarse
  | readFast16
  /-- One step on each timer alone, and then a new pair over the same counters. -/
  | apart (coarse fast : TimerStep)

def pairStep (c : TimerPair Counter Counter) : PairStep → Reading × TimerPair Counter Counter
  | .advanceCoarse n =>
    (.nothing, { c with coarse := { c.coarse with source := c.coarse.source.advance n } })
  | .advanceFast n =>
    (.nothing, { c with fast := { c.fast with source := c.fast.source.advance n } })
  | .save => (.nothing, c.save)
  | .restore => (.nothing, c.restore)
  | .clearCoarse => (.nothing, { c with coarse := c.coarse.clear })
  | .clearFast => (.nothing, { c with fast := c.fast.clear })
  | .readFast => (.ofTicks c.readFast, c)
  | .elapsedFast last => (.ofTicks (c.elapsedFast last), c)
  | .readCoarse => (.ofTicks (c.coarse.read 16), c)
  | .readFast16 => (.ofTicks (c.fast.read 16), c)
  | .apart coarse fast =>
    let (a, coarse) := timerStep c.coarse coarse
    let (b, fast) := timerStep c.fast fast
    (.both a b, .ofSources coarse.source fast.source)

/-! ### Health -/

inductive HealthStep
  | attempt (now : Ticks 32)
  | success
  | failure (now : Ticks 32) (times : Nat)
deriving DecidableEq, Repr

def failures (h : Health) (now : Ticks 32) : Nat → Health
  | 0 => h
  | n + 1 => failures (h.recordFailure now) now n

def healthStep (h : Health) : HealthStep → Reading × Health
  | .attempt now =>
    let (go, h) := h.attempt now
    (.flag go, h)
  | .success => (.nothing, h.recordSuccess)
  | .failure now times => (.nothing, failures h now times)

end HalfLink.Bench
