import HalfLink.Proofs.Cable.Basic
import HalfLink.Proofs.Call.Starting

/-! Remote calls over a cable: transactions one after the other, in each of which the callee looks
once for requests. -/
namespace HalfLink

structure Remote (τ : Type) where
  caller : Caller
  callee : Callee τ
  cable : Cable

/-- A transaction, with the times at which the caller starts it and looks for its response. -/
structure Job where
  id : TransactionId
  request : Payload
  /-- The buffer for the response. -/
  response : Bytes
  now : Ticks 32
  /-- The looks before the callee's. -/
  early : List (Ticks 32)
  /-- The most reads of the callee's look. -/
  reads : Nat
  /-- The first look after the callee's, and those after it. -/
  look : Ticks 32
  more : List (Ticks 32)

def Job.query (j : Job) : Query := (j.id, j.request)

/-- What a job has come to. -/
structure Account where
  started : Except Failure Unit
  early : Option (Except Failure Nat)
  /-- How many requests the callee answered. -/
  answered : Nat
  sent : Bytes
  outcome : Option (Except Failure Nat)
  response : Bytes

/-- Polls at the given times until the transaction ends. -/
def Caller.watch {σ : Type} [Link σ] [TickSource σ] (c : Caller) (response : Bytes) (w : σ) :
    List (Ticks 32) → Caller.Polled σ
  | [] => ⟨none, response, c, w⟩
  | now :: times =>
    let p := c.poll response (writeTicks now w)
    match p.outcome with
    | some _ => p
    | none => p.caller.watch p.response p.world times

namespace Remote

variable {τ : Type}

def fresh (c : Caller) (d : Directory τ) (device : τ) (cable : Cable) : Remote τ :=
  ⟨c, { directory := d, device }, cable⟩

def start (r : Remote τ) (j : Job) : Except Failure Unit × Remote τ :=
  let (started, caller, w) := r.caller.start j.id j.request.toList
    (writeTicks j.now (⟨r.cable⟩ : SerialLink Cable))
  (started, { r with caller, cable := w.port })

def watch (r : Remote τ) (response : Bytes) (times : List (Ticks 32)) :
    Option (Except Failure Nat) × Bytes × Remote τ :=
  let p := r.caller.watch response (⟨r.cable⟩ : SerialLink Cable) times
  (p.outcome, p.response, { r with caller := p.caller, cable := p.world.port })

def serve (r : Remote τ) (reads : Nat) : Nat × Remote τ :=
  let (answered, callee, w) := r.callee.poll (⟨r.cable.swap⟩ : SerialLink Cable) reads
  (answered, { r with callee, cable := w.port.swap })

def perform (r : Remote τ) (j : Job) : Account × Remote τ :=
  let (started, r) := r.start j
  let (early, response, r) := r.watch j.response j.early
  let waiting := r.cable.near.queue.length
  let (answered, r) := r.serve j.reads
  let sent := r.cable.near.queue.drop waiting
  let (outcome, response, r) := r.watch response (j.look :: j.more)
  (⟨started, early, answered, sent, outcome, response⟩, r)

def run (r : Remote τ) (jobs : List Job) : Remote τ := jobs.foldl (fun r j => (r.perform j).2) r

def deadline (r : Remote τ) (j : Job) : Ticks 32 :=
  Ticks.offset j.now r.caller.settings.responseTimeout

/-- Whether a job finds the link up, is looked after in time, and leaves the callee enough reads. -/
def Ready (r : Remote τ) (j : Job) : Prop :=
  r.caller.isConnected = true ∧ j.early.any (Ticks.expired · (r.deadline j)) = false ∧
    2 * maxFrameSize < j.reads

instance (r : Remote τ) (j : Job) : Decidable (r.Ready j) :=
  inferInstanceAs (Decidable (_ ∧ _ ∧ _))

/-- Whether the last job performed, if there is one, has no handler to answer it. -/
def unanswered (d : Directory τ) (performed : List Job) : Bool :=
  performed.getLast?.all fun j => (d.lookup j.id).isNone

/-- A job's request goes to its handler, which runs once, and the response comes back. Without a
handler nothing comes back, and the job ends at its deadline. The device may be a record of the calls,
so what becomes of it tells which handlers ran, how often and on what. -/
def Serves (d : Directory τ) (r : Remote τ) (j : Job) : Prop :=
  let (account, after) := r.perform j
  account.started = .ok () ∧ account.early = none ∧
    match d.lookup j.id with
    | some handler =>
      let (output, device) := handler j.request.toList .empty r.callee.device
      account.answered = 1 ∧ after.callee.device = device ∧
        account.sent = (Frame.response j.id r.caller.nextSeq output).encode ∧
        (account.outcome, account.response) =
          (if output.size ≤ j.response.length then
            (some (.ok output.size), output.toList ++ j.response.drop output.size)
          else (some (.error .responseTooLarge), j.response)) ∧
        after.caller.isBusy = false
    | none =>
      account.answered = 0 ∧ after.callee.device = r.callee.device ∧ account.sent = [] ∧
        account.outcome = (if (j.look :: j.more).any (Ticks.expired · (r.deadline j)) then
          some (.error .timeout) else none) ∧
        account.response = j.response ∧ after.caller.isBusy = account.outcome.isNone

/-- What holds between jobs. -/
structure Settled (d : Directory τ) (r : Remote τ) : Prop where
  directory : r.callee.directory = d
  parser : r.callee.parser = .idle
  near : r.cable.near.queue = []
  far : r.cable.far.queue = []

end Remote

/-- The caller awaits a response; what waits at its end of the cable holds none, and leaves its parser
idle. -/
structure Caller.Waits (id : TransactionId) (seq : UInt8) (deadline : Ticks 32) (queue : Bytes)
    (c : Caller) : Prop where
  state : c.state = .awaiting id seq deadline
  unanswered : Parser.answerIn id seq c.parser queue = none
  parser : (c.parser.feedAll queue).2 = .idle

namespace Caller

theorem transmit_frame (c : Caller) (now : Ticks 32) (id : TransactionId) (seq : UInt8) (f : Frame)
    (w : Cable) :
    c.transmit now id seq f.encode (⟨w⟩ : SerialLink Cable) =
      (.ok (),
        { c with
          parser := .idle
          state := .awaiting id seq (Ticks.offset now c.settings.responseTimeout) },
        ⟨{ w with near := w.near.hear f.encode, far := w.far.arrive f.encode }⟩) := by
  simp only [transmit, Cable.write_frame]

theorem waits_of_request {c : Caller} {id : TransactionId} {seq : UInt8} {deadline : Ticks 32}
    {f : Frame} (hstate : c.state = .awaiting id seq deadline) (hparser : c.parser = .idle)
    (hkind : f.kind = .request) : c.Waits id seq deadline f.encode := by
  have hanswers : ¬ f.answers id seq := by simp [Frame.answers, hkind]
  have hpass : Parser.answerIn id seq .idle (f.encode ++ []) = _ := Parser.answerIn_encode f []
  have hidle : Parser.idle.feedAll f.encode = _ :=
    Parser.feedAll_inside (List.nil_append _) f.encode_ne_nil
  rw [List.append_nil, if_neg hanswers] at hpass
  exact ⟨hstate, hparser ▸ hpass, by rw [hparser, hidle]⟩

end Caller

namespace Caller.Waits

variable {id : TransactionId} {seq : UInt8} {deadline : Ticks 32} {c : Caller}

theorem isBusy {queue : Bytes} (waits : c.Waits id seq deadline queue) : c.isBusy = true := by
  rw [Caller.isBusy, waits.state]

theorem poll {w : Cable} (waits : c.Waits id seq deadline w.near.queue) (response : Bytes) :
    ∃ caller near, near.queue = [] ∧
      c.poll response (⟨w⟩ : SerialLink Cable) =
        ⟨if Ticks.expired w.clock deadline then some (.error .timeout) else none, response, caller,
          ⟨{ w with near }⟩⟩ ∧
      if Ticks.expired w.clock deadline then caller.isBusy = false
      else caller.Waits id seq deadline [] := by
  obtain ⟨near, hempty, hpoll⟩ := poll_none waits.state waits.unanswered response
  rw [waits.parser] at hpoll
  have hclock : readTicks (⟨{ w with near }⟩ : SerialLink Cable) = w.clock := rfl
  simp only [checkDeadline, hclock] at hpoll
  by_cases hexpired : Ticks.expired w.clock deadline
  · rw [if_pos hexpired] at hpoll
    simp only [if_pos hexpired]
    exact ⟨_, near, hempty, hpoll, rfl⟩
  · rw [if_neg hexpired] at hpoll
    simp only [if_neg hexpired]
    exact ⟨_, near, hempty, hpoll, waits.state, rfl, rfl⟩

theorem watch {w : Cable} (waits : c.Waits id seq deadline w.near.queue) (response : Bytes)
    (times : List (Ticks 32)) :
    ∃ caller near clock, (times ≠ [] ∨ w.near.queue = [] → near.queue = []) ∧
      c.watch response (⟨w⟩ : SerialLink Cable) times =
        ⟨if times.any (Ticks.expired · deadline) then some (.error .timeout) else none, response,
          caller, ⟨⟨clock, near, w.far⟩⟩⟩ ∧
      if times.any (Ticks.expired · deadline) then caller.isBusy = false
      else caller.Waits id seq deadline near.queue := by
  induction times generalizing c w with
  | nil => exact ⟨c, w.near, w.clock, fun h => h.resolve_left (absurd rfl), rfl, waits⟩
  | cons now times ih =>
    obtain ⟨caller, near, hempty, hpoll, hafter⟩ :=
      poll (w := { w with clock := now }) waits response
    replace hpoll : c.poll response (writeTicks now (⟨w⟩ : SerialLink Cable)) = _ := hpoll
    by_cases hexpired : Ticks.expired now deadline
    · rw [if_pos hexpired] at hpoll hafter
      refine ⟨caller, near, now, fun _ => hempty, ?_⟩
      rw [List.any_cons, hexpired, Bool.true_or, if_pos rfl, if_pos rfl]
      exact ⟨by simp only [Caller.watch, hpoll], hafter⟩
    · rw [if_neg hexpired] at hpoll hafter
      rw [List.any_cons, Bool.eq_false_iff.mpr hexpired, Bool.false_or]
      obtain ⟨caller', near', clock, hqueue, hwatch, hend⟩ :=
        ih (c := caller) (w := ⟨now, near, w.far⟩) (hempty ▸ hafter)
      exact ⟨caller', near', clock, fun _ => hqueue (.inr hempty),
        by simp only [Caller.watch, hpoll, hwatch], hend⟩

end Caller.Waits

namespace Remote

variable {τ : Type} {d : Directory τ} {r : Remote τ} {j : Job} {id : TransactionId} {seq : UInt8}
  {deadline : Ticks 32}

theorem start_ready (settled : r.Settled d) (hfree : r.caller.isBusy = false) (ready : r.Ready j) :
    ∃ r', r.start j = (.ok (), r') ∧ r'.callee = r.callee ∧
      r'.caller.Waits j.id r.caller.nextSeq (r.deadline j) r'.cable.near.queue ∧
      r'.cable.far.queue = Frame.encode ⟨.request, j.id, r.caller.nextSeq, j.request⟩ := by
  obtain ⟨hconnected, -, -⟩ := ready
  rcases r.caller.start_cases j.id j.request.toList
      (writeTicks j.now (⟨r.cable⟩ : SerialLink Cable)) with
    ⟨hbusy, -⟩ | ⟨-, hlarge, -⟩ | ⟨-, -, hattempt, -⟩ | ⟨-, payload, hpayload, health, -, hstart⟩
  · rw [hfree] at hbusy
    cases hbusy
  · exact absurd j.request.length_le (Nat.not_le.mpr hlarge)
  · have hup : r.caller.health.isConnected = true := hconnected
    rw [Health.attempt, if_pos hup] at hattempt
    cases hattempt
  · obtain rfl : payload = j.request := Buffer.ext hpayload
    have hsent := hstart.trans (Caller.transmit_frame _ j.now j.id r.caller.nextSeq
      ⟨.request, j.id, r.caller.nextSeq, j.request⟩ ⟨j.now, r.cable.near, r.cable.far⟩)
    simp only [start, hsent]
    refine ⟨_, rfl, rfl, ?_, ?_⟩
    · rcases r.cable.near.queue_hear (Frame.encode ⟨.request, j.id, r.caller.nextSeq, j.request⟩) with
        hqueue | hqueue
      · dsimp only
        rw [hqueue, settled.near]
        exact ⟨rfl, rfl, rfl⟩
      · dsimp only
        rw [hqueue, settled.near, List.nil_append]
        exact Caller.waits_of_request rfl rfl rfl
    · rw [Cable.End.queue_arrive, settled.far, List.nil_append]

theorem watch_waits (waits : r.caller.Waits id seq deadline r.cable.near.queue) (response : Bytes)
    (times : List (Ticks 32)) :
    ∃ r', r.watch response times =
        (if times.any (Ticks.expired · deadline) then some (.error .timeout) else none, response,
          r') ∧
      r'.callee = r.callee ∧ r'.cable.far = r.cable.far ∧
      (times ≠ [] → r'.cable.near.queue = []) ∧
      if times.any (Ticks.expired · deadline) then r'.caller.isBusy = false
      else r'.caller.Waits id seq deadline r'.cable.near.queue := by
  obtain ⟨caller, near, clock, hempty, hwatch, hend⟩ := waits.watch response times
  refine ⟨⟨caller, r.callee, ⟨clock, near, r.cable.far⟩⟩, ?_, rfl, rfl, fun h => hempty (.inl h),
    hend⟩
  simp only [watch, hwatch]

/-- The first look after the response ends the transaction. -/
theorem watch_response {queue : Bytes} {output : Payload}
    (waits : r.caller.Waits id seq deadline queue)
    (hqueue : r.cable.near.queue = queue ++ (Frame.response id seq output).encode)
    (response : Bytes) (now : Ticks 32) (times : List (Ticks 32)) :
    ∃ r', r.watch response (now :: times) =
        ((if output.size ≤ response.length then some (.ok output.size)
          else some (.error .responseTooLarge)),
        (if output.size ≤ response.length then output.toList ++ response.drop output.size
          else response), r') ∧
      r'.callee = r.callee ∧ r'.cable.far = r.cable.far ∧ r'.cable.near.queue = [] ∧
      r'.caller.isBusy = false := by
  have hanswers : (Frame.response id seq output).answers id seq := by
    simp [Frame.answers, Frame.response]
  -- What came before leaves the parser idle, so the response is read from its start byte on.
  have hanswer : Parser.answerIn id seq r.caller.parser r.cable.near.queue =
      some (Frame.response id seq output, []) := by
    rw [hqueue, Parser.answerIn_append_none waits.unanswered, waits.parser]
    have hencode : Parser.answerIn id seq .idle ((Frame.response id seq output).encode ++ []) = _ :=
      Parser.answerIn_encode _ _
    rwa [List.append_nil, if_pos hanswers] at hencode
  obtain ⟨near, parser, hempty, hpoll⟩ := Caller.poll_answer waits.state
    (w := { r.cable with clock := now }) hanswer response
  replace hpoll : r.caller.poll response (writeTicks now (⟨r.cable⟩ : SerialLink Cable)) = _ := hpoll
  have hpayload : (Frame.response id seq output).payload = output := rfl
  rw [Caller.complete, hpayload] at hpoll
  by_cases hfits : output.size ≤ response.length
  · rw [if_neg (Nat.not_lt.mpr hfits)] at hpoll
    have hsplice : response.splice 0 output.toList =
        output.toList ++ response.drop output.size := Bytes.splice_append [] response _
    simp only [watch, Caller.watch, hpoll, hsplice, if_pos hfits]
    exact ⟨_, rfl, rfl, rfl, hempty, rfl⟩
  · rw [if_pos (Nat.not_le.mp hfits)] at hpoll
    simp only [watch, Caller.watch, hpoll, if_neg hfits]
    exact ⟨_, rfl, rfl, rfl, hempty, rfl⟩

theorem serve_request {f : Frame} {response? : Option Frame} {device : τ} {reads : Nat}
    (hqueue : r.cable.far.queue = f.encode) (hparser : r.callee.parser = .idle)
    (hrespond : r.callee.directory.respond f r.callee.device = (response?, device))
    (hreads : 2 * maxFrameSize < reads) :
    ∃ r', r.serve reads = (if response?.isSome then 1 else 0, r') ∧ r'.caller = r.caller ∧
      r'.callee = { r.callee with device } ∧
      r'.cable.near.queue = r.cable.near.queue ++ wire response?.toList ∧
      r'.cable.far.queue = [] := by
  obtain ⟨far, hempty, hpoll⟩ :=
    Callee.poll_request (w := r.cable.swap) hqueue hparser hrespond hreads
  simp only [serve, hpoll]
  exact ⟨_, rfl, rfl, rfl, rfl, hempty⟩

theorem perform_eq {r₁ r₂ r₃ r₄ : Remote τ} {started : Except Failure Unit}
    {early outcome : Option (Except Failure Nat)} {response filled sent : Bytes} {answered : Nat}
    (hstart : r.start j = (started, r₁))
    (hwatch : r₁.watch j.response j.early = (early, response, r₂))
    (hserve : r₂.serve j.reads = (answered, r₃))
    (hsent : r₃.cable.near.queue = r₂.cable.near.queue ++ sent)
    (hlook : r₃.watch response (j.look :: j.more) = (outcome, filled, r₄)) :
    r.perform j = (⟨started, early, answered, sent, outcome, filled⟩, r₄) := by
  simp only [perform, hstart, hwatch, hserve, hlook, hsent, List.drop_left]

/-- Up to the callee's look a job leaves its request at the far end, and the caller waiting. -/
theorem ready_request (settled : r.Settled d) (hfree : r.caller.isBusy = false) (ready : r.Ready j) :
    ∃ r₁ r₂, r.start j = (.ok (), r₁) ∧ r₁.watch j.response j.early = (none, j.response, r₂) ∧
      r₂.callee = r.callee ∧
      r₂.caller.Waits j.id r.caller.nextSeq (r.deadline j) r₂.cable.near.queue ∧
      r₂.cable.far.queue = Frame.encode ⟨.request, j.id, r.caller.nextSeq, j.request⟩ := by
  obtain ⟨r₁, hstart, hcallee₁, waits₁, hrequest⟩ := start_ready settled hfree ready
  have hearly : j.early.any (Ticks.expired · (r.deadline j)) = false := ready.2.1
  obtain ⟨r₂, hwatch, hcallee₂, hfar₂, -, waits₂⟩ := watch_waits waits₁ j.response j.early
  rw [hearly, if_neg Bool.false_ne_true] at hwatch waits₂
  exact ⟨r₁, r₂, hstart, hwatch, hcallee₂.trans hcallee₁, waits₂, hfar₂ ▸ hrequest⟩

theorem Settled.after (settled : r.Settled d) {r' : Remote τ} {device : τ}
    (hcallee : r'.callee = { r.callee with device }) (hnear : r'.cable.near.queue = [])
    (hfar : r'.cable.far.queue = []) : r'.Settled d where
  directory := by rw [hcallee]; exact settled.directory
  parser := by rw [hcallee]; exact settled.parser
  near := hnear
  far := hfar

theorem serves_handled (settled : r.Settled d) (hfree : r.caller.isBusy = false)
    (ready : r.Ready j) {handler : Handler τ} (hlookup : d.lookup j.id = some handler) :
    r.Serves d j ∧ (r.perform j).2.Settled d := by
  obtain ⟨r₁, r₂, hstart, hwatch, hcallee₂, waits₂, hrequest⟩ := ready_request settled hfree ready
  rcases hrun : handler j.request.toList .empty r.callee.device with ⟨output, device⟩
  have hparser : r₂.callee.parser = .idle := by rw [hcallee₂, settled.parser]
  have hrespond : r₂.callee.directory.respond ⟨.request, j.id, r.caller.nextSeq, j.request⟩
      r₂.callee.device = (some (.response j.id r.caller.nextSeq output), device) := by
    rw [hcallee₂, settled.directory]
    simp only [Directory.respond, hlookup, hrun]
  obtain ⟨r₃, hserve, hcaller₃, hcallee₃, hnear₃, hfar₃⟩ :=
    serve_request hrequest hparser hrespond ready.2.2
  rw [Option.toList_some, wire_cons, wire_nil, List.append_nil] at hnear₃
  obtain ⟨r₄, hlook, hcallee₄, hfar₄, hnear₄, hidle⟩ :=
    watch_response (hcaller₃ ▸ waits₂) hnear₃ j.response j.look j.more
  have hperform := perform_eq hstart hwatch hserve hnear₃ hlook
  have hcallee : r₄.callee = { r.callee with device } := by rw [hcallee₄, hcallee₃, hcallee₂]
  constructor
  · simp only [Serves, hperform, hlookup, hrun]
    refine ⟨trivial, trivial, rfl, ?_, trivial, ?_, hidle⟩
    · rw [hcallee]
    · split <;> rfl
  · rw [hperform]
    exact settled.after hcallee hnear₄ (by rw [hfar₄, hfar₃])

theorem serves_unhandled (settled : r.Settled d) (hfree : r.caller.isBusy = false)
    (ready : r.Ready j) (hlookup : d.lookup j.id = none) :
    r.Serves d j ∧ (r.perform j).2.Settled d := by
  obtain ⟨r₁, r₂, hstart, hwatch, hcallee₂, waits₂, hrequest⟩ := ready_request settled hfree ready
  have hparser : r₂.callee.parser = .idle := by rw [hcallee₂, settled.parser]
  have hrespond : r₂.callee.directory.respond ⟨.request, j.id, r.caller.nextSeq, j.request⟩
      r₂.callee.device = (none, r.callee.device) := by
    rw [hcallee₂, settled.directory]
    simp only [Directory.respond, hlookup]
  obtain ⟨r₃, hserve, hcaller₃, hcallee₃, hnear₃, hfar₃⟩ :=
    serve_request hrequest hparser hrespond ready.2.2
  rw [Option.toList_none, wire_nil] at hnear₃
  have waits₃ : r₃.caller.Waits j.id r.caller.nextSeq (r.deadline j) r₃.cable.near.queue := by
    rw [hcaller₃, hnear₃, List.append_nil]
    exact waits₂
  obtain ⟨r₄, hlook, hcallee₄, hfar₄, hnear₄, hend⟩ :=
    watch_waits waits₃ j.response (j.look :: j.more)
  have hperform := perform_eq hstart hwatch hserve hnear₃ hlook
  have hcallee : r₄.callee = { r.callee with device := r.callee.device } := by
    rw [hcallee₄, hcallee₃, hcallee₂]
  constructor
  · simp only [Serves, hperform, hlookup]
    refine ⟨trivial, trivial, rfl, ?_, trivial, trivial, trivial, ?_⟩
    · rw [hcallee]
    · by_cases hexpired : (j.look :: j.more).any (Ticks.expired · (r.deadline j))
      · rw [if_pos hexpired] at hend ⊢
        rw [hend, Option.isNone_some]
      · rw [if_neg hexpired] at hend ⊢
        rw [hend.isBusy, Option.isNone_none]
  · rw [hperform]
    exact settled.after hcallee (hnear₄ (List.cons_ne_nil _ _)) (by rw [hfar₄, hfar₃])

theorem serves_of_ready (settled : r.Settled d) (hfree : r.caller.isBusy = false)
    (ready : r.Ready j) : r.Serves d j ∧ (r.perform j).2.Settled d := by
  cases hlookup : d.lookup j.id with
  | some handler => exact serves_handled settled hfree ready hlookup
  | none => exact serves_unhandled settled hfree ready hlookup

theorem free_of_serves (serves : r.Serves d j) {handler : Handler τ}
    (hlookup : d.lookup j.id = some handler) : (r.perform j).2.caller.isBusy = false := by
  simp only [Serves, hlookup] at serves
  exact serves.2.2.2.2.2.2

theorem run_concat (r : Remote τ) (jobs : List Job) (j : Job) :
    r.run (jobs ++ [j]) = ((r.run jobs).perform j).2 := by
  rw [run, run, List.foldl_concat]

theorem device_of_serves (serves : r.Serves d j) :
    (r.perform j).2.callee.device = d.attend r.callee.device j.query := by
  rw [Directory.attend, Job.query]
  cases hlookup : d.lookup j.id with
  | some handler =>
    simp only [Serves, hlookup] at serves
    exact serves.2.2.2.1
  | none =>
    simp only [Serves, hlookup] at serves
    exact serves.2.2.2.1

/-- An answered job frees the caller itself, so it has to be free only at the first job and behind
those that nobody answers. -/
theorem settled_run (settled : r.Settled d) {jobs : List Job}
    (hfree : ∀ k < jobs.length, unanswered d (jobs.take k) →
      (r.run (jobs.take k)).caller.isBusy = false)
    (hready : ∀ k, (hk : k < jobs.length) → (r.run (jobs.take k)).Ready jobs[k]) {k : Nat}
    (hk : k ≤ jobs.length) :
    (r.run (jobs.take k)).Settled d ∧
      (k < jobs.length → (r.run (jobs.take k)).caller.isBusy = false) := by
  induction k with
  | zero => exact ⟨settled, fun hlt => hfree 0 hlt rfl⟩
  | succ k ih =>
    obtain ⟨settled', hfree'⟩ := ih (Nat.le_of_lt hk)
    obtain ⟨hserves, hsettled⟩ := serves_of_ready settled' (hfree' hk) (hready k hk)
    have hrun : r.run (jobs.take (k + 1)) = ((r.run (jobs.take k)).perform jobs[k]).2 := by
      rw [List.take_succ_eq_append_getElem hk, run_concat]
    refine ⟨hrun ▸ hsettled, fun hlt => ?_⟩
    cases hlookup : d.lookup jobs[k].id with
    | some handler =>
      rw [hrun]
      exact free_of_serves hserves hlookup
    | none =>
      refine hfree (k + 1) hlt ?_
      rw [unanswered, List.take_succ_eq_append_getElem hk, List.getLast?_concat, Option.all_some,
        hlookup, Option.isNone_none]

/-- Every job of a session is served, whatever the sizes of the reads and whether or not the ends hear
themselves, and the device has attended to the requests one by one. Only a caller that waits in vain
has to be done before the next job. -/
theorem run_serves (c : Caller) (d : Directory τ) (device : τ) (cable : Cable)
    (hnear : cable.near.queue = []) (hfar : cable.far.queue = []) (jobs : List Job)
    (hfree : ∀ k < jobs.length, unanswered d (jobs.take k) →
      ((fresh c d device cable).run (jobs.take k)).caller.isBusy = false)
    (hready : ∀ k, (hk : k < jobs.length) →
      ((fresh c d device cable).run (jobs.take k)).Ready jobs[k]) :
    (∀ k, (hk : k < jobs.length) →
      ((fresh c d device cable).run (jobs.take k)).Serves d jobs[k]) ∧
    ∀ k ≤ jobs.length, ((fresh c d device cable).run (jobs.take k)).callee.device =
      d.deviceAfter device ((jobs.take k).map Job.query) := by
  have settled : (fresh c d device cable).Settled d := ⟨rfl, rfl, hnear, hfar⟩
  have serves : ∀ k, (hk : k < jobs.length) →
      ((fresh c d device cable).run (jobs.take k)).Serves d jobs[k] := fun k hk =>
    have ⟨settled', hfree'⟩ := settled_run settled hfree hready hk.le
    (serves_of_ready settled' (hfree' hk) (hready k hk)).1
  refine ⟨serves, fun k hk => ?_⟩
  induction k with
  | zero => rfl
  | succ k ih =>
    rw [List.take_succ_eq_append_getElem hk, run_concat, device_of_serves (serves k hk),
      ih (Nat.le_of_lt hk), List.map_append, List.map_singleton, Directory.deviceAfter,
      Directory.deviceAfter, List.foldl_concat]

/-- A callee that sends each request back in reverse and counts its calls. -/
def reversing : Directory Nat :=
  ⟨[⟨⟨0x10⟩, fun request response calls => (response.append request.reverse, calls + 1)⟩]⟩

/-- Both ends hear themselves, and the bytes come in small pieces. -/
def choppy : Cable where
  near := { echo := true, room := fun _ => 1, room_pos := fun _ => Nat.one_pos }
  far := { echo := true, room := fun n => n % 3 + 1, room_pos := fun _ => Nat.succ_pos _ }

/-- A request with a frame in it, one that nobody serves, and one whose response is too large. -/
def calls : List Job :=
  [⟨⟨0x10⟩, ⟨[0xAA, 0x00, 0x02, 0x10, 0x00, 0x12], by decide⟩, [0, 0, 0, 0, 0, 0, 0], 0, [1, 19],
      600, 25, []⟩,
    ⟨⟨0x31⟩, ⟨[0xAA], by decide⟩, [0x5A], 30, [31], 600, 49, [50]⟩,
    ⟨⟨0x10⟩, ⟨[0x01, 0x02], by decide⟩, [0x5A], 60, [], 600, 60, []⟩]

theorem calls_served :
    (∀ k < calls.length, unanswered reversing (calls.take k) →
      ((fresh .plain reversing 0 choppy).run (calls.take k)).caller.isBusy = false) ∧
    (∀ k, (hk : k < calls.length) →
      ((fresh .plain reversing 0 choppy).run (calls.take k)).Ready calls[k]) ∧
    (∀ k, (hk : k < calls.length) →
      ((fresh .plain reversing 0 choppy).run (calls.take k)).Serves reversing calls[k]) ∧
    ((fresh .plain reversing 0 choppy).run calls).callee.device = 2 := by
  have hfree : ∀ k < calls.length, unanswered reversing (calls.take k) →
      ((fresh .plain reversing 0 choppy).run (calls.take k)).caller.isBusy = false := by
    decide +kernel
  have hready : ∀ k, (hk : k < calls.length) →
      ((fresh .plain reversing 0 choppy).run (calls.take k)).Ready calls[k] := by decide +kernel
  obtain ⟨hserves, hdevices⟩ := run_serves .plain reversing 0 choppy rfl rfl calls hfree hready
  have hdevice := hdevices calls.length le_rfl
  rw [List.take_length] at hdevice
  exact ⟨hfree, hready, hserves, hdevice.trans (by decide +kernel)⟩

end Remote

end HalfLink
