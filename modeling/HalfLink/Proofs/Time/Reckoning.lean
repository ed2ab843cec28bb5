import HalfLink.Proofs.Time.Basic
import HalfLink.Time.Timer

/-! Timers over counters, against a clock that never wraps. Whatever is done to a timer, it shows the
time of that clock in every width, and tells durations and deadlines as they are on it. -/
namespace HalfLink

/-- What can happen to a timer over a counter. -/
inductive TimerEvent
  | tick
  | advance (n : Ticks 32)
  | write (ticks : Ticks 32)
  | clear
  | save
  | restore
deriving DecidableEq, Repr

namespace Timer

def after (t : Timer Counter) : TimerEvent → Timer Counter
  | .tick => { t with source := t.source.tick }
  | .advance n => { t with source := t.source.advance n }
  | .write ticks => { t with source := writeTicks ticks t.source }
  | .clear => t.clear
  | .save => t.save
  | .restore => t.restore

def run (t : Timer Counter) (events : List TimerEvent) : Timer Counter := events.foldl after t

end Timer

/-- A clock that never wraps, and the time that was saved last. -/
structure Reckoning where
  time : Nat
  saved : Nat := 0
deriving DecidableEq, Repr

namespace Reckoning

def after (r : Reckoning) : TimerEvent → Reckoning
  | .tick => { r with time := r.time + 1 }
  | .advance n => { r with time := r.time + n.toNat }
  | .write ticks => { r with time := ticks.toNat }
  | .clear => { r with time := 0 }
  | .save => { r with saved := r.time }
  | .restore => { r with time := r.saved }

def run (r : Reckoning) (events : List TimerEvent) : Reckoning := events.foldl after r

/-- The timer that shows the time of the clock. -/
def timer (r : Reckoning) : Timer Counter := ⟨⟨BitVec.ofNat 32 r.time⟩, BitVec.ofNat 32 r.saved⟩

/-- The clock that begins at what a counter shows. -/
def ofCounter (c : Counter) : Reckoning := ⟨c.count.toNat, 0⟩

theorem timer_ofCounter (c : Counter) : (ofCounter c).timer = ⟨c, 0⟩ := by
  rw [timer, ofCounter, BitVec.ofNat_toNat, BitVec.setWidth_eq]
  rfl

theorem timer_after (r : Reckoning) (event : TimerEvent) :
    (r.after event).timer = r.timer.after event := by
  cases event with
  | tick => rw [timer, after, BitVec.ofNat_add]; rfl
  | advance n =>
    rw [timer, after, BitVec.ofNat_add, BitVec.ofNat_toNat, BitVec.setWidth_eq]
    rfl
  | write ticks =>
    rw [timer, after, BitVec.ofNat_toNat, BitVec.setWidth_eq]
    rfl
  | clear => rfl
  | save => rfl
  | restore => rfl

theorem timer_run (r : Reckoning) (events : List TimerEvent) :
    (r.run events).timer = r.timer.run events := by
  induction events generalizing r with
  | nil => rfl
  | cons event events ih =>
    have hrest := ih (r.after event)
    rw [timer_after] at hrest
    exact hrest

theorem read_timer (r : Reckoning) {w : Nat} (hw : w ≤ 32) :
    r.timer.read w = BitVec.ofNat w r.time :=
  Ticks.view_ofNat hw r.time

end Reckoning

/-- A timer tells the time `now` in every width, and how far it is from the time `past` that a timer
told before. -/
structure Timer.Tells (past : Nat) (before : Timer Counter) (now : Nat) (t : Timer Counter) :
    Prop where
  reads : ∀ w ≤ 32, (t.read w).toNat = now % 2 ^ w
  elapsed : ∀ w ≤ 32,
    ((t.elapsed (before.read w)).toNat : ℤ) = ((now : ℤ) - past) % 2 ^ w
  deadline : ∀ w ≤ 32, ∀ after : Nat,
    Ticks.offset (before.read w) (BitVec.ofNat w after) = BitVec.ofNat w (past + after)
  /-- Half of the largest tick is one less than half the range. -/
  expired : ∀ w ≤ 32, ∀ after : Nat,
    Ticks.expired (t.read w) (BitVec.ofNat w (past + after)) = true ↔
      ((now : ℤ) - past - after) % 2 ^ w < 2 ^ (w - 1) - 1

theorem Reckoning.tells_timer (before r : Reckoning) :
    Timer.Tells before.time before.timer r.time r.timer where
  reads w hw := by rw [r.read_timer hw, BitVec.toNat_ofNat]
  elapsed w hw := by
    rw [Timer.elapsed, r.read_timer hw, before.read_timer hw, Ticks.toNat_diff_ofNat]
  deadline w hw after := by rw [before.read_timer hw, Ticks.offset_ofNat]
  expired w hw after := by
    rw [r.read_timer hw, Ticks.expired_ofNat, Nat.cast_add, sub_add_eq_sub_sub]

namespace Timer

theorem run_append (t : Timer Counter) (events more : List TimerEvent) :
    t.run (events ++ more) = (t.run events).run more :=
  List.foldl_append

theorem saved_after (t : Timer Counter) {event : TimerEvent} (h : event ≠ .save) :
    (t.after event).saved = t.saved := by
  cases event with
  | save => exact absurd rfl h
  | _ => rfl

theorem saved_run (t : Timer Counter) {events : List TimerEvent} (h : .save ∉ events) :
    (t.run events).saved = t.saved := by
  induction events generalizing t with
  | nil => rfl
  | cons event events ih =>
    have hevent : event ≠ .save := Ne.symm (List.ne_of_not_mem_cons h)
    exact (ih (t.after event) (List.not_mem_of_not_mem_cons h)).trans (t.saved_after hevent)

/-- Nothing that happens between a save and a restore is left behind the restore. -/
theorem restore_run_save (t : Timer Counter) {suspended : List TimerEvent}
    (h : .save ∉ suspended) : (t.save.run suspended).restore = t.save := by
  have hsaved : (t.save.run suspended).saved = t.source.count := saved_run t.save h
  rw [restore, hsaved]
  rfl

end Timer

/-- What can happen to a pair of timers: something to one of them, or to both at once. -/
inductive PairEvent
  | coarse (event : TimerEvent)
  | fast (event : TimerEvent)
  | save
  | restore
deriving DecidableEq, Repr

namespace PairEvent

/-- What the coarse timer sees of it. -/
def coarse? : PairEvent → Option TimerEvent
  | .coarse event => some event
  | .fast _ => none
  | .save => some .save
  | .restore => some .restore

/-- What the fast timer sees of it. -/
def fast? : PairEvent → Option TimerEvent
  | .coarse _ => none
  | .fast event => some event
  | .save => some .save
  | .restore => some .restore

end PairEvent

namespace TimerPair

def after (c : TimerPair Counter Counter) : PairEvent → TimerPair Counter Counter
  | .coarse event => { c with coarse := c.coarse.after event }
  | .fast event => { c with fast := c.fast.after event }
  | .save => c.save
  | .restore => c.restore

def run (c : TimerPair Counter Counter) (events : List PairEvent) : TimerPair Counter Counter :=
  events.foldl after c

theorem coarse_run (c : TimerPair Counter Counter) (events : List PairEvent) :
    (c.run events).coarse = c.coarse.run (events.filterMap PairEvent.coarse?) := by
  induction events generalizing c with
  | nil => rfl
  | cons event events ih => cases event <;> exact ih _

theorem fast_run (c : TimerPair Counter Counter) (events : List PairEvent) :
    (c.run events).fast = c.fast.run (events.filterMap PairEvent.fast?) := by
  induction events generalizing c with
  | nil => rfl
  | cons event events ih => cases event <;> exact ih _

end TimerPair

namespace Timer

/-- Two timers that began as one each tell the time of the clock that never wraps. -/
theorem tells_run (c : Counter) (before events : List TimerEvent) :
    Tells ((Reckoning.ofCounter c).run before).time (run ⟨c, 0⟩ before)
      ((Reckoning.ofCounter c).run events).time (run ⟨c, 0⟩ events) := by
  have htells := ((Reckoning.ofCounter c).run before).tells_timer ((Reckoning.ofCounter c).run events)
  rwa [Reckoning.timer_run, Reckoning.timer_run, Reckoning.timer_ofCounter] at htells

/-- Whatever happens to a timer, it tells the time of the clock that never wraps. What happens between
a save and a restore is as if it had not been, and each timer of a pair goes by a clock of its own. -/
theorem run_tells :
    (∀ (c : Counter) (events more : List TimerEvent),
      let clock := Reckoning.ofCounter c
      let t : Timer Counter := ⟨c, 0⟩
      Tells (clock.run events).time (t.run events)
        (clock.run (events ++ more)).time (t.run (events ++ more))) ∧
    (∀ (t : Timer Counter) (suspended more : List TimerEvent), .save ∉ suspended →
      t.run (.save :: suspended ++ .restore :: more) = t.run (.save :: more)) ∧
    ∀ (coarse fast : Counter) (events more : List PairEvent),
      let coarseClock := Reckoning.ofCounter coarse
      let fastClock := Reckoning.ofCounter fast
      let pair := TimerPair.ofSources coarse fast
      Tells (coarseClock.run (events.filterMap PairEvent.coarse?)).time (pair.run events).coarse
        (coarseClock.run ((events ++ more).filterMap PairEvent.coarse?)).time
        (pair.run (events ++ more)).coarse ∧
      Tells (fastClock.run (events.filterMap PairEvent.fast?)).time (pair.run events).fast
        (fastClock.run ((events ++ more).filterMap PairEvent.fast?)).time
        (pair.run (events ++ more)).fast := by
  refine ⟨fun c events more => tells_run c events (events ++ more), ?_, ?_⟩
  · intro t suspended more hunsaved
    have hrestore := congrArg (run · more) (t.restore_run_save hunsaved)
    rw [run_append]
    exact hrestore
  · intro coarse fast events more coarseClock fastClock pair
    constructor
    · rw [TimerPair.coarse_run, TimerPair.coarse_run]
      exact tells_run coarse _ _
    · rw [TimerPair.fast_run, TimerPair.fast_run]
      exact tells_run fast _ _

/-- A timer that is suspended just before its counter wraps, and one that goes back to a time before
the one it told. -/
theorem suspended_before_wrap :
    let t : Timer Counter := ⟨⟨BitVec.ofNat 32 (2 ^ 32 - 3)⟩, 0⟩
    let suspended : List TimerEvent := [.advance 5000, .clear, .write 7, .restore]
    (.save ∉ suspended ∧ t.run (.save :: suspended ++ [.restore, .advance 20]) =
      t.run [.save, .advance 20]) ∧
    (16 ≤ 32 ∧ (((t.run [.restore]).elapsed (t.read 16)).toNat : ℤ) = (0 - (2 ^ 32 - 3)) % 2 ^ 16 ∧
      (Ticks.expired ((t.run [.restore]).read 16) (BitVec.ofNat 16 (2 ^ 32 - 3 + 2)) = true ↔
        ((0 : ℤ) - (2 ^ 32 - 3) - 2) % 2 ^ 16 < 2 ^ 15 - 1)) := by
  intro t suspended
  obtain ⟨htells, hsuspended, -⟩ := run_tells
  have hunsaved : .save ∉ suspended := by decide
  have hback := htells ⟨BitVec.ofNat 32 (2 ^ 32 - 3)⟩ [] [.restore]
  exact ⟨⟨hunsaved, hsuspended t suspended [.advance 20] hunsaved⟩, by decide,
    hback.elapsed 16 (by decide), hback.expired 16 (by decide) 2⟩

end Timer

end HalfLink
