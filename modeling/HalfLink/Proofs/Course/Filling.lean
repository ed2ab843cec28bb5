import HalfLink.Proofs.Course.Ending

/-! What reaches the buffer of a caller. Only the answer to its own request is put there, and only if
it fits; whatever else a poll or a waiting call comes to, the buffer is as it was. The answer to an
older transaction, which a call first drives to its end, goes into a buffer that the call drops. -/
namespace HalfLink.Caller

/-- What a poll or a call leaves in the buffer `response` if `answer` is the frame it can accept. -/
def Polled.Fills {σ : Type} (response : Bytes) (answer : Option Frame) (p : Polled σ) : Prop :=
  match p.outcome with
  | some (.ok n) => ∃ f, answer = some f ∧ n = f.payload.size ∧ n ≤ response.length ∧
      p.response.take n = f.payload.toList ∧ p.response.drop n = response.drop n
  | some (.error _) | none => p.response = response

section

variable {σ : Type} {p : Polled σ} {response : Bytes} {answer : Option Frame}

theorem Polled.fills_iff_of_none (h : p.outcome = none) :
    p.Fills response answer ↔ p.response = response := by
  rw [Polled.Fills, h]

theorem Polled.fills_of_error {e : Failure} (houtcome : p.outcome = some (.error e))
    (hresponse : p.response = response) : p.Fills response answer := by
  rw [Polled.Fills, houtcome]
  exact hresponse

theorem complete_fills (c : Caller) (f : Frame) (response : Bytes) (w : σ) :
    (c.complete f response w).Fills response (some f) := by
  rw [complete]
  by_cases hlarge : response.length < f.payload.size
  · simp only [if_pos hlarge]
    exact Polled.fills_of_error rfl rfl
  · have hsplice : response.splice 0 f.payload.toList =
        f.payload.toList ++ response.drop f.payload.size := Bytes.splice_append [] response _
    simp only [if_neg hlarge, hsplice]
    exact ⟨f, rfl, rfl, Nat.not_lt.mp hlarge, List.take_left, List.drop_left⟩

theorem checkDeadline_fills [TickSource σ] (c : Caller) (deadline : Ticks 32) (response : Bytes)
    (w : σ) : (c.checkDeadline deadline response w).Fills response answer := by
  rw [checkDeadline]
  split
  · exact Polled.fills_of_error rfl rfl
  · exact (Polled.fills_iff_of_none rfl).mpr rfl

end

variable {σ : Type} [Link σ] {c : Caller} {id : TransactionId} {seq : UInt8} {deadline : Ticks 32}
  {heard : Bytes}

/-- The frame that a poll accepts: the first of those that its parser gives, over all bytes that it is
offered, that answers the request in flight. -/
def answer (c : Caller) (w : σ) : Option Frame :=
  match c.state with
  | .idle => none
  | .awaiting id seq _ =>
    (Parser.frames (c.parser.feedAll (Link.offer w)).1).find? (·.answers id seq)

theorem Listening.answer_eq (h : c.Listening id seq deadline heard) (w : σ) :
    c.answer w = Parser.firstAnswer id seq (heard ++ Link.offer w) := by
  simp only [answer, h.state]
  rw [Parser.firstAnswer_append h.unanswered, Parser.answerIn_eq_find, h.parser]

variable [TickSource σ]

theorem poll_fills (c : Caller) (response : Bytes) (w : σ) :
    (c.poll response w).Fills response (c.answer w) := by
  cases hstate : c.state with
  | idle =>
    rw [poll, hstate]
    exact Polled.fills_of_error rfl rfl
  | awaiting id seq deadline =>
    obtain ⟨bytes, w', hreads, hend⟩ := poll_awaiting hstate response w
    cases hanswer : Parser.answerIn id seq c.parser bytes with
    | some found =>
      obtain ⟨f, rest⟩ := found
      rw [hanswer] at hend
      obtain ⟨parser, hpoll⟩ := hend
      -- What stands behind the answer is offered but not read, and cannot come before it.
      have haccepted : c.answer w = some f := by
        simp only [answer, hstate]
        rw [← Parser.answerIn_eq_find, hreads.offer_eq, Parser.answerIn_append_some hanswer]
        rfl
      rw [hpoll, haccepted]
      exact complete_fills _ f response w'
    | none =>
      rw [hanswer] at hend
      rw [hend.1]
      exact checkDeadline_fills _ deadline response _

theorem poll_pending {response : Bytes} {w : σ}
    (h : (c.poll response w).outcome = none) : (c.poll response w).response = response :=
  (Polled.fills_iff_of_none h).mp (c.poll_fills response w)

theorem poll_ended {response : Bytes} {w : σ}
    (h : (c.poll response w).outcome.isSome) : (c.poll response w).caller.isBusy = false := by
  unfold poll at h ⊢
  split
  · rename_i hstate
    rw [isBusy, hstate]
  · rename_i id seq deadline hstate
    rw [hstate] at h
    dsimp only at h
    split at h
    · rw [complete]
      dsimp only
      split <;> rfl
    · rw [checkDeadline] at h ⊢
      split at h
      · rename_i hexpired
        rw [if_pos hexpired]
        rfl
      · cases h

/-- What a wait comes to, as the polls it is made of: they all offer the same buffer, and if the last
of them ends the transaction the caller is free. -/
structure Waited (response : Bytes) (deeds : List (Deed σ)) (p : Polled σ) : Prop where
  polls : ∀ d ∈ deeds, d.act = .poll response
  outcome : p.outcome = deeds.getLast?.bind Deed.outcome
  ended : p.outcome.isSome → p.caller.isBusy = false

/-- A deed that ends nothing does not count for how a course of deeds ends. -/
theorem outcome_cons_pending (d : Deed σ) (h : d.outcome = none) (deeds : List (Deed σ)) :
    (d :: deeds).getLast?.bind Deed.outcome = deeds.getLast?.bind Deed.outcome := by
  rw [List.getLast?_cons]
  cases deeds.getLast? with
  | none => exact h
  | some last => rfl

theorem waited (c : Caller) (response : Bytes) (w : σ) (polls : Nat) :
    Waited response (c.waitDeeds response w polls) (c.wait response w polls) := by
  induction polls generalizing c w with
  | zero => exact ⟨List.forall_mem_nil _, rfl, nofun⟩
  | succ polls ih =>
    rw [waitDeeds, wait]
    cases houtcome : (c.poll response w).outcome with
    | some result =>
      simp only
      exact ⟨List.forall_mem_singleton.mpr rfl, rfl, poll_ended⟩
    | none =>
      simp only [poll_pending houtcome]
      have hrest := ih (c.poll response w).caller (c.poll response w).world
      refine ⟨List.forall_mem_cons.mpr ⟨rfl, hrest.polls⟩, ?_, hrest.ended⟩
      rw [hrest.outcome]
      exact (outcome_cons_pending ⟨c, w, .poll response⟩ houtcome _).symm

/-- A poll that ends nothing has read all it is offered, and goes on listening. -/
theorem Listening.pending (h : c.Listening id seq deadline heard) {response : Bytes} {w : σ}
    (hnone : (c.poll response w).outcome = none) :
    (c.poll response w).caller.Listening id seq deadline (heard ++ Link.offer w) := by
  have hunanswered : Parser.firstAnswer id seq (heard ++ Link.offer w) = none := by
    have hpoll := h.poll ⟨response, w⟩
    dsimp only at hpoll
    cases hanswer : Parser.firstAnswer id seq (heard ++ Link.offer w) with
    | none => rfl
    | some f =>
      rw [hanswer] at hpoll
      obtain ⟨parser, w', hpoll⟩ := hpoll
      have hends := (complete_ends hanswer { c with parser } response w').isSome
      rw [← hpoll, hnone] at hends
      cases hends
  refine (h.next ⟨response, w⟩ hunanswered ?_).2
  rw [hnone]
  exact nofun

theorem Listening.wait_fills (h : c.Listening id seq deadline heard) (response : Bytes) (w : σ)
    (polls : Nat) :
    (c.wait response w polls).Fills response
      (Parser.firstAnswer id seq (heard ++ Deed.offers (c.waitDeeds response w polls))) := by
  -- As long as the polls end nothing, the buffer is untouched and the caller goes on listening.
  induction polls generalizing c w heard with
  | zero => exact (Polled.fills_iff_of_none rfl).mpr rfl
  | succ polls ih =>
    have hoffer : (⟨c, w, .poll response⟩ : Deed σ).offer = Link.offer w := rfl
    have hpoll := c.poll_fills response w
    rw [h.answer_eq] at hpoll
    rw [waitDeeds, Deed.offers, List.flatMap_cons, hoffer, ← List.append_assoc, wait]
    cases houtcome : (c.poll response w).outcome with
    | some result => simpa only [List.flatMap_nil, List.append_nil] using hpoll
    | none =>
      simp only [poll_pending houtcome]
      exact ih (h.pending houtcome) _

/-- What a call comes to whose request is the first thing that `c` sends, as the deeds it is made of:
they start the request and wait for its answer, and it is their answer that fills the buffer. -/
structure Exchanged (c : Caller) (w : σ) (id : TransactionId) (request response : Bytes)
    (deeds : List (Deed σ)) (p : Polled σ) : Prop where
  starts : deeds.head? = some ⟨c, w, .start id request⟩
  polls : ∀ d ∈ deeds.tail, d.act = .poll response
  outcome : p.outcome = deeds.getLast?.bind Deed.outcome
  fills : p.Fills response (Parser.firstAnswer id c.nextSeq (Deed.offers deeds))

theorem exchanged (c : Caller) (polls : Nat) (id : TransactionId) (request response : Bytes) (w : σ) :
    Exchanged c w id request response (c.exchangeDeeds polls id request response w)
      (c.exchange polls id request response w) := by
  have houtcome : (⟨c, w, .start id request⟩ : Deed σ).outcome =
      Deed.refusal (c.start id request w).1 := by simp only [Deed.outcome, Deed.run]
  rw [exchangeDeeds, exchange]
  rcases hstart : c.start id request w with ⟨e | ⟨⟩, c', w'⟩ <;> rw [hstart] at houtcome
  · refine ⟨rfl, ?_, houtcome.symm, Polled.fills_of_error rfl rfl⟩
    exact List.forall_mem_nil _
  · have hwaited := c'.waited response w' polls
    have hlistening := listening_of_start (show (c.start id request w).1 = .ok () by rw [hstart])
    rw [hstart] at hlistening
    have hfills := hlistening.wait_fills response w' polls
    rw [List.nil_append] at hfills
    refine ⟨rfl, hwaited.polls, ?_, hfills⟩
    dsimp only
    rw [hwaited.outcome]
    exact (outcome_cons_pending _ houtcome _).symm

/-- A poll or a call puts the payload of the frame it accepts into its buffer and else leaves the buffer
alone. A call that finds a transaction in flight first polls it to its end, into a buffer of its own;
the rest is the exchange of the caller and the world that are left then, which alone gives the result. -/
theorem only_own_answer_fills (c : Caller) (response : Bytes) (w : σ) :
    (c.poll response w).Fills response (c.answer w) ∧
      ∀ polls id request,
        let sent := c.send polls id request response w
        let deeds := c.sendDeeds polls id request response w
        if c.isBusy then
          let older := c.waitDeeds scratch w polls
          let settled := c.wait scratch w polls
          Waited scratch older settled ∧
            match settled.outcome with
            | none => deeds = older ∧ sent.outcome = none ∧ sent.response = response
            | some _ =>
              let own := settled.caller.exchangeDeeds polls id request response settled.world
              settled.caller.isBusy = false ∧ deeds = older ++ own ∧
                Exchanged settled.caller settled.world id request response own sent
        else Exchanged c w id request response deeds sent := by
  refine ⟨c.poll_fills response w, fun polls id request => ?_⟩
  simp only [send, sendDeeds]
  split
  · have hwaited := c.waited scratch w polls
    refine ⟨hwaited, ?_⟩
    cases houtcome : (c.wait scratch w polls).outcome with
    | none => exact ⟨List.append_nil _, rfl, rfl⟩
    | some result =>
      refine ⟨hwaited.ended ?_, rfl, exchanged _ polls id request response _⟩
      rw [houtcome]
      rfl
  · exact c.exchanged polls id request response w

end HalfLink.Caller
