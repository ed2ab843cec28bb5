import HalfLink.Proofs.Call.Handling
import HalfLink.Proofs.Call.Starting

/-! The starts, polls and abandonments of which all that a caller does is made, and all that each of
them can come to. -/
namespace HalfLink.Caller

variable {σ : Type} [Link σ]

/-- What a read keeps, a drain keeps. -/
theorem drain_kept {P : σ → Prop} (hread : ∀ w, P w → P (Link.read readSize w).2) (id : TransactionId)
    (seq : UInt8) (p : Parser) {w : σ} (h : P w) : P (drain id seq p w).2.2 := by
  fun_induction drain id seq p w with
  | case1 p w e w' hr => simpa only [hr] using hread w h
  | case2 p w w' hr => simpa only [hr] using hread w h
  | case3 p w byte rest w' hr f p' hseek => simpa only [hr] using hread w h
  | case4 p w byte rest w' hr p' hseek ih => exact ih (by simpa only [hr] using hread w h)

theorem poll_kept [TickSource σ] {P : σ → Prop} (hread : ∀ w, P w → P (Link.read readSize w).2)
    (c : Caller) (response : Bytes) {w : σ} (h : P w) : P (c.poll response w).world := by
  unfold poll
  split
  · exact h
  · rename_i id seq deadline hstate
    have hdrain := drain_kept hread id seq c.parser h
    split <;> rename_i hd <;> rw [hd] at hdrain
    · rw [complete]
      dsimp only
      split <;> exact hdrain
    · rw [checkDeadline]
      dsimp only
      split <;> exact hdrain

/-- What every operation of a caller is made of. -/
inductive Act
  | start (id : TransactionId) (request : Bytes)
  | poll (response : Bytes)
  | abandon
deriving DecidableEq, Repr

/-- An act with the state in which it is done. -/
structure Deed (σ : Type) where
  caller : Caller
  world : σ
  act : Act

namespace Deed

variable [TickSource σ]

/-- How a start that does not succeed ends its transaction. -/
def refusal : Except Failure Unit → Option (Except Failure Nat)
  | .ok _ => none
  | .error e => some (.error e)

/-- Does the act: how it ends or refuses a transaction, if it does, and the state afterwards. -/
def run (d : Deed σ) : Option (Except Failure Nat) × Caller × σ :=
  match d.act with
  | .start id request =>
    let (result, state) := d.caller.start id request d.world
    (refusal result, state)
  | .poll response =>
    let p := d.caller.poll response d.world
    (p.outcome, p.caller, p.world)
  | .abandon => (none, d.caller.abandon, d.world)

def outcome (d : Deed σ) : Option (Except Failure Nat) := d.run.1

/-- The caller after the act. -/
def next (d : Deed σ) : Caller := d.run.2.1

/-- The world after the act. -/
def left (d : Deed σ) : σ := d.run.2.2

/-- What the clock shows when the act reads it: at once for a start, at the end for a poll. -/
def tick (d : Deed σ) : Ticks 32 :=
  match d.act with
  | .poll _ => readTicks d.left
  | .start _ _ | .abandon => readTicks d.world

/-- The request of a start that passes the checks: the caller is free, the request is small enough and
the link's health lets it through. -/
def query? (d : Deed σ) : Option Query :=
  match d.act with
  | .start id request =>
    if d.caller.isBusy then none
    else
      match (Buffer.ofList? request : Option Payload) with
      | none => none
      | some payload =>
        if (d.caller.health.attempt (readTicks d.world)).1 then some (id, payload) else none
  | .poll _ | .abandon => none

/-- The frame in which a request goes out. -/
def frame (d : Deed σ) (q : Query) : Frame := ⟨.request, q.1, d.caller.nextSeq, q.2⟩

/-- All that an act can come to. -/
inductive Comes (d : Deed σ) : Prop
  | refused (e : Failure)
      (refusal : e = .busy ∨ e = .payloadTooLarge ∨ e = .disconnected ∨ e = .idle)
      (query : d.query? = none) (outcome : d.outcome = some (.error e)) (next : d.next = d.caller)
      (left : d.left = d.world)
  | sent (q : Query) (health : Health) (query : d.query? = some q)
      (attempt : d.caller.health.attempt d.tick = (true, health)) (outcome : d.outcome = none)
      (next : d.next =
        { d.caller with
          health
          parser := .idle
          state := .awaiting q.1 d.caller.nextSeq
            (Ticks.offset d.tick d.caller.settings.responseTimeout)
          nextSeq := d.caller.nextSeq + 1 })
      (left : Link.write (d.frame q).encode d.world = (.ok (), d.left))
  | unsent (q : Query) (health : Health) (e : LinkError) (query : d.query? = some q)
      (attempt : d.caller.health.attempt d.tick = (true, health))
      (outcome : d.outcome = some (.error .link))
      (next : d.next =
        { d.caller with
          health := health.recordFailure d.tick
          parser := .idle
          nextSeq := d.caller.nextSeq + 1 })
      (left : Link.write (d.frame q).encode d.world = (.error e, d.left))
  | answered (response : Bytes) (parser : Parser) (act : d.act = .poll response)
      (query : d.query? = none)
      (outcome : (∃ n, d.outcome = some (.ok n)) ∨ d.outcome = some (.error .responseTooLarge))
      (next : d.next =
        { d.caller with parser, state := .idle, health := d.caller.health.recordSuccess })
  | timedOut (response : Bytes) (act : d.act = .poll response) (query : d.query? = none)
      (outcome : d.outcome = some (.error .timeout))
      (next : d.next =
        { d.caller with
          parser := .idle
          state := .idle
          health := d.caller.health.recordFailure d.tick })
  | pending (response : Bytes) (parser : Parser) (act : d.act = .poll response)
      (query : d.query? = none) (outcome : d.outcome = none)
      (next : d.next = { d.caller with parser })
  | abandoned (query : d.query? = none) (outcome : d.outcome = none)
      (next : d.next = d.caller.abandon) (left : d.left = d.world)

section

variable (c : Caller) (w : σ)

theorem comes_start (id : TransactionId) (request : Bytes) : Comes ⟨c, w, .start id request⟩ := by
  generalize hd : (⟨c, w, .start id request⟩ : Deed σ) = d
  have hrun : d.run = (refusal (c.start id request w).1, (c.start id request w).2) := by
    simp only [← hd, run]
  have hquery : d.query? = if c.isBusy then none
      else
        match (Buffer.ofList? request : Option Payload) with
        | none => none
        | some payload =>
          if (c.health.attempt (readTicks w)).1 then some (id, payload) else none := by
    rw [← hd]
    rfl
  obtain ⟨hcaller, hworld⟩ : d.caller = c ∧ d.world = w := by
    rw [← hd]
    exact ⟨rfl, rfl⟩
  have htick : d.tick = readTicks w := by
    rw [← hd, tick]
  rcases c.start_cases id request w with
    ⟨hbusy, hstart⟩ | ⟨hidle, hlarge, hstart⟩ | ⟨hidle, hsize, hdown, hstart⟩ |
      ⟨hidle, payload, rfl, health, hattempt, hstart⟩
  · rw [hstart] at hrun
    refine .refused .busy (.inl rfl) ?_ (congrArg Prod.fst hrun) ?_ ?_
    · rw [hquery, if_pos hbusy]
    · rw [hcaller, next, hrun]
    · rw [hworld, left, hrun]
  · rw [hstart] at hrun
    refine .refused .payloadTooLarge (.inr (.inl rfl)) ?_ (congrArg Prod.fst hrun) ?_ ?_
    · rw [hquery, hidle, Buffer.ofList?, dif_neg (Nat.not_le.mpr hlarge)]
      rfl
    · rw [hcaller, next, hrun]
    · rw [hworld, left, hrun]
  · rw [hstart] at hrun
    refine .refused .disconnected (.inr (.inr (.inl rfl))) ?_ (congrArg Prod.fst hrun) ?_ ?_
    · rw [hquery, hidle, Buffer.ofList?, dif_pos hsize, hdown]
      rfl
    · rw [hcaller, next, hrun]
    · rw [hworld, left, hrun]
  · have hpass : d.query? = some (id, payload) := by
      rw [hquery, hidle, Buffer.ofList?, dif_pos payload.length_le, hattempt]
      rfl
    rw [← hcaller, ← htick] at hattempt
    rw [hstart, transmit] at hrun
    have hframe : d.frame (id, payload) = ⟨.request, id, c.nextSeq, payload⟩ := by
      rw [frame, hcaller]
    rcases hwrite : Link.write (Frame.encode ⟨.request, id, c.nextSeq, payload⟩) w with ⟨e | ⟨⟩, w'⟩
    all_goals
      simp only [hwrite] at hrun
      have hleft : d.left = w' := by rw [left, hrun]
      rw [← hframe, ← hleft, ← hworld] at hwrite
    · refine .unsent (id, payload) health e hpass hattempt (congrArg Prod.fst hrun) ?_ hwrite
      rw [next, hrun, htick, hcaller]
    · refine .sent (id, payload) health hpass hattempt (congrArg Prod.fst hrun) ?_ hwrite
      rw [next, hrun, htick, hcaller]

theorem comes_poll (response : Bytes) : Comes ⟨c, w, .poll response⟩ := by
  generalize hd : (⟨c, w, .poll response⟩ : Deed σ) = d
  obtain ⟨hcaller, hworld, hact, hquery⟩ :
      d.caller = c ∧ d.world = w ∧ d.act = .poll response ∧ d.query? = none := by
    rw [← hd]
    exact ⟨rfl, rfl, rfl, rfl⟩
  have hrun : d.run = ((c.poll response w).outcome, (c.poll response w).caller,
      (c.poll response w).world) := by
    rw [← hd]
    rfl
  have htick : d.tick = readTicks (c.poll response w).world := by
    rw [← hd]
    rfl
  unfold poll at hrun htick
  split at hrun
  · refine .refused .idle (by simp) hquery (congrArg Prod.fst hrun) ?_ ?_
    · rw [hcaller, next, hrun]
    · rw [hworld, left, hrun]
  · rename_i id seq deadline hstate
    simp only [hstate] at htick
    split at hrun <;> rename_i hdrain <;> rw [hdrain] at htick
    · rename_i f p w'
      simp only [complete] at hrun
      split at hrun
      · refine .answered response p hact hquery (.inr (congrArg Prod.fst hrun)) ?_
        rw [hcaller, next, hrun]
      · refine .answered response p hact hquery (.inl ⟨_, congrArg Prod.fst hrun⟩) ?_
        rw [hcaller, next, hrun]
    · rename_i p w'
      simp only [checkDeadline] at hrun htick
      split at hrun
      · rename_i hexpired
        rw [if_pos hexpired] at htick
        refine .timedOut response hact hquery (congrArg Prod.fst hrun) ?_
        rw [hcaller, htick, next, hrun]
      · refine .pending response p hact hquery (congrArg Prod.fst hrun) ?_
        rw [hcaller, next, hrun]

end

theorem comes (d : Deed σ) : d.Comes := by
  obtain ⟨c, w, act⟩ := d
  cases act with
  | start id request => exact comes_start c w id request
  | poll response => exact comes_poll c w response
  | abandon => exact .abandoned rfl rfl rfl rfl

variable {d : Deed σ}

/-- A request that passes the checks is written and numbered, and only the link can still fail it. -/
theorem asked {q : Query} (h : d.query? = some q) :
    (∃ health, d.caller.health.attempt d.tick = (true, health)) ∧
      (d.outcome = none ∨ d.outcome = some (.error .link)) ∧
      d.left = (Link.write (d.frame q).encode d.world).2 ∧
      d.next.nextSeq = d.caller.nextSeq + 1 := by
  cases d.comes with
  | sent q' health query attempt outcome next left =>
    obtain rfl := Option.some.inj (query.symm.trans h)
    exact ⟨⟨health, attempt⟩, .inl outcome, by rw [left], by rw [next]⟩
  | unsent q' health e query attempt outcome next left =>
    obtain rfl := Option.some.inj (query.symm.trans h)
    exact ⟨⟨health, attempt⟩, .inr outcome, by rw [left], by rw [next]⟩
  | refused e refusal query => cases query.symm.trans h
  | answered response parser act query => cases query.symm.trans h
  | timedOut response act query => cases query.symm.trans h
  | pending response parser act query => cases query.symm.trans h
  | abandoned query => cases query.symm.trans h

/-- An act without such a request keeps what reads keep, and the next number. -/
theorem unasked (h : d.query? = none) {P : σ → Prop}
    (hread : ∀ w, P w → P (Link.read readSize w).2) (hP : P d.world) :
    P d.left ∧ d.next.nextSeq = d.caller.nextSeq := by
  have hpoll : ∀ {response : Bytes}, d.act = .poll response → P d.left := by
    intro response hact
    obtain ⟨c, w, act⟩ := d
    obtain rfl := hact
    exact poll_kept hread c response hP
  cases d.comes with
  | sent q health query => cases query.symm.trans h
  | unsent q health e query => cases query.symm.trans h
  | refused e refusal query outcome next left => exact ⟨left ▸ hP, by rw [next]⟩
  | answered response parser act query outcome next => exact ⟨hpoll act, by rw [next]⟩
  | timedOut response act query outcome next => exact ⟨hpoll act, by rw [next]⟩
  | pending response parser act query outcome next => exact ⟨hpoll act, by rw [next]⟩
  | abandoned query outcome next left => exact ⟨left ▸ hP, by rw [next]; rfl⟩

end Deed

end HalfLink.Caller
