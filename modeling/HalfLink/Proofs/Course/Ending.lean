import HalfLink.Bench.Board
import HalfLink.Proofs.Course.Deadlines
import HalfLink.Proofs.Course.Failures

/-! How a waiting call ends. It has no count of its own: each poll brings the deadline nearer by the
time that goes by, and as long as less than half the range goes by between two looks at the clock no
poll can miss the deadline. So a call ends within as many polls as its response has ticks. -/
namespace HalfLink.Caller

section

variable {σ : Type} {id : TransactionId} {seq : UInt8} {response bytes : Bytes}

/-- How a transaction ends whose polls could read `bytes`: with the first answer among them, or with a
timeout if they hold none. -/
def Polled.Ends (id : TransactionId) (seq : UInt8) (response bytes : Bytes) (p : Polled σ) : Prop :=
  p.caller.state = .idle ∧
    match Parser.firstAnswer id seq bytes with
    | some f =>
      if f.payload.size ≤ response.length then
        p.outcome = some (.ok f.payload.size) ∧ p.response = response.splice 0 f.payload.toList
      else p.outcome = some (.error .responseTooLarge) ∧ p.response = response
    | none => p.outcome = some (.error .timeout) ∧ p.response = response

theorem Polled.Ends.isSome {p : Polled σ} (h : p.Ends id seq response bytes) : p.outcome.isSome := by
  have hend := h.2
  split at hend
  · split at hend <;> rw [hend.1] <;> rfl
  · rw [hend.1]
    rfl

theorem Polled.Ends.timeout {p : Polled σ} (h : p.Ends id seq response bytes)
    (hnone : Parser.firstAnswer id seq bytes = none) :
    p.outcome = some (.error .timeout) ∧ p.caller.state = .idle := by
  rw [Ends, hnone] at h
  exact ⟨h.2.1, h.1⟩

theorem complete_ends {f : Frame} (h : Parser.firstAnswer id seq bytes = some f) (c : Caller)
    (response : Bytes) (w : σ) : (c.complete f response w).Ends id seq response bytes := by
  rw [Polled.Ends, h, complete]
  by_cases hsize : f.payload.size ≤ response.length
  · simp [hsize, Nat.not_lt.mpr hsize]
  · simp [hsize, Nat.lt_of_not_le hsize]

end

variable {σ : Type} [Link σ] [TickSource σ] {c : Caller} {w : σ} {response : Bytes}
  {id : TransactionId} {seq : UInt8}

/-- The bytes that the act can read. -/
def Deed.offer (d : Deed σ) : Bytes :=
  match d.act with
  | .poll _ => Link.offer d.world
  | .start _ _ | .abandon => []

def Deed.offers (deeds : List (Deed σ)) : Bytes := deeds.flatMap offer

/-- From each look at the clock to the next some time goes by, and less than half of what a counter
counts. The poll that reads the answer does not look. -/
structure Ticking (time : Nat → Nat) (deeds : List (Deed σ)) : Prop where
  later : ∀ k, time k < time (k + 1)
  soon : ∀ k, time (k + 1) ≤ time k + (2 ^ 31 - 1)
  shows : ∀ k d, deeds[k]? = some d → d.answered = false → d.tick = BitVec.ofNat 32 (time k)

theorem Ticking.tail {time : Nat → Nat} {d : Deed σ} {deeds : List (Deed σ)}
    (h : Ticking time (d :: deeds)) : Ticking (fun k => time (k + 1)) deeds :=
  ⟨fun k => h.later (k + 1), fun k => h.soon (k + 1), fun k => h.shows (k + 1)⟩

/-- A poll that is offered no answer times out or goes on listening. -/
theorem Listening.poll_none {heard : Bytes} {deadline : Ticks 32}
    (h : c.Listening id seq deadline heard) (o : Occasion σ)
    (hnone : Parser.firstAnswer id seq (heard ++ Link.offer o.world) = none) :
    let p := c.poll o.response o.world
    p.response = o.response ∧
      if Ticks.expired (readTicks p.world) deadline then
        p.outcome = some (.error .timeout) ∧ p.caller.state = .idle
      else p.outcome = none ∧ p.caller.Listening id seq deadline (heard ++ Link.offer o.world) := by
  have hpoll := h.poll o
  rw [hnone] at hpoll
  obtain ⟨w, hpoll⟩ := hpoll
  simp only [hpoll, checkDeadline]
  by_cases hexpired : Ticks.expired (readTicks w) deadline
  · simp only [if_pos hexpired]
    exact ⟨trivial, trivial, trivial⟩
  · simp only [if_neg hexpired]
    exact ⟨trivial, trivial, h.state, rfl, hnone⟩

/-- More polls than a wait needs change nothing. -/
theorem wait_of_le {m n : Nat} (hmn : m ≤ n) (h : (c.wait response w m).outcome.isSome) :
    c.wait response w n = c.wait response w m := by
  induction m generalizing c w response n with
  | zero => cases h
  | succ m ih =>
    obtain ⟨n, rfl⟩ := Nat.exists_eq_succ_of_ne_zero (Nat.ne_zero_of_lt hmn)
    rw [wait] at h ⊢
    rw [wait]
    cases hend : (c.poll response w).outcome with
    | some result => rfl
    | none =>
      rw [hend] at h
      exact ih (Nat.le_of_succ_le_succ hmn) h

/-- A wait whose last look at the clock was before the deadline ends, if it may poll once for each
tick that is left. -/
theorem Listening.wait_ends {heard : Bytes} {start last n : Nat} {timeout : Ticks 32}
    {time : Nat → Nat}
    (h : c.Listening id seq (Ticks.offset (BitVec.ofNat 32 start) timeout) heard)
    (htimeout : timeout.toNat < 2 ^ 31 - 1) (hticking : Ticking time (c.waitDeeds response w n))
    (hstart : start ≤ last) (hearly : last - start < timeout.toNat) (hlater : last < time 0)
    (hsoon : time 0 ≤ last + (2 ^ 31 - 1)) (hpolls : timeout.toNat ≤ last - start + n) :
    (c.wait response w n).Ends id seq response
      (heard ++ Deed.offers (c.waitDeeds response w n)) := by
  -- Each poll uses up one of the ticks that are left, so none is left when the polls run out.
  induction n generalizing c w heard last time with
  | zero => omega
  | succ n ih =>
    have hoffer : (⟨c, w, .poll response⟩ : Deed σ).offer = Link.offer w := rfl
    have hticks := hticking
    rw [waitDeeds] at hticks
    rw [waitDeeds, Deed.offers, List.flatMap_cons, hoffer, ← List.append_assoc, wait]
    cases hanswer : Parser.firstAnswer id seq (heard ++ Link.offer w) with
    | some f =>
      have hpoll := h.poll ⟨response, w⟩
      dsimp only at hpoll
      rw [hanswer] at hpoll
      obtain ⟨parser, w', hpoll⟩ := hpoll
      have hends := complete_ends hanswer { c with parser } response w'
      rw [← hpoll] at hends
      obtain ⟨result, hresult⟩ := Option.isSome_iff_exists.mp hends.isSome
      simp only [hresult, List.flatMap_nil, List.append_nil]
      exact hends
    | none =>
      obtain ⟨hbuffer, hend⟩ := h.poll_none ⟨response, w⟩ hanswer
      dsimp only at hbuffer hend
      have hshows : readTicks (c.poll response w).world = BitVec.ofNat 32 (time 0) := by
        refine hticks.shows 0 ⟨c, w, .poll response⟩ rfl ?_
        rw [Deed.answered, Deed.outcome, Deed.run]
        split at hend <;> simp only [hend.1]
      have hexpired : Ticks.expired (BitVec.ofNat 32 (time 0))
          (Ticks.offset (BitVec.ofNat 32 start) timeout) = decide (timeout.toNat ≤ time 0 - start) :=
        Ticks.expired_offset (by omega) htimeout (by omega)
      rw [hshows, hexpired] at hend
      by_cases hover : timeout.toNat ≤ time 0 - start
      · rw [if_pos (decide_eq_true hover)] at hend
        simp only [hend.1, List.flatMap_nil, List.append_nil]
        rw [Polled.Ends, hanswer]
        exact ⟨hend.2, hend.1, hbuffer⟩
      · rw [if_neg (by simpa using hover)] at hend
        simp only [hend.1] at hticks ⊢
        rw [hbuffer] at hticks ⊢
        exact ih hend.2 hticks.tail (by omega) (by omega) (hticks.later 0) (hticks.soon 0) (by omega)

/-- A call of an idle caller that is begun ends within as many polls as its response has ticks. -/
theorem send_ends {time : Nat → Nat} {request : Bytes} (hsettings : c.settings.check = .ok ())
    (hidle : c.state = .idle) (hstart : (c.start id request w).1 = .ok ())
    (hticking : Ticking time
      (c.sendDeeds c.settings.responseTimeout.toNat id request response w)) :
    let polls := c.settings.responseTimeout.toNat
    let sent := c.send polls id request response w
    sent.Ends id c.nextSeq response (Deed.offers (c.sendDeeds polls id request response w)) ∧
      ∀ more, polls ≤ more → c.send more id request response w = sent := by
  intro polls sent
  have hfree : c.isBusy = false := by rw [isBusy, hidle]
  obtain ⟨hpos, hlt⟩ := Settings.timeout_of_check hsettings
  have hlistening := listening_of_start hstart
  obtain ⟨c', w', hbegun⟩ : ∃ c' w', c.start id request w = (.ok (), c', w') :=
    ⟨_, _, Prod.ext hstart rfl⟩
  rw [hbegun] at hlistening
  have hsend : ∀ more, c.send more id request response w = c'.wait response w' more := by
    intro more
    simp only [send, hfree, exchange, hbegun]
    rfl
  have hdeeds : c.sendDeeds polls id request response w =
      ⟨c, w, .start id request⟩ :: c'.waitDeeds response w' polls := by
    simp only [sendDeeds, hfree, exchangeDeeds, hbegun]
    rfl
  rw [hdeeds] at hticking
  have hshows : readTicks w = BitVec.ofNat 32 (time 0) := by
    refine hticking.shows 0 ⟨c, w, .start id request⟩ rfl ?_
    simp only [Deed.answered, Deed.outcome, Deed.run, hstart, Deed.refusal]
  rw [hshows] at hlistening
  have hends := hlistening.wait_ends hlt hticking.tail le_rfl (by omega) (hticking.later 0)
    (hticking.soon 0) (by omega)
  refine ⟨?_, fun more hmore => ?_⟩
  · rw [hdeeds]
    simp only [sent, hsend]
    exact hends
  · simp only [sent, hsend]
    exact wait_of_le hmore hends.isSome

/-- The clock goes on by seven at each read and wraps on the way; the call ends with the third poll. -/
theorem silent_call_ends :
    let board : Bench.Board := { clock := BitVec.ofNat 32 (2 ^ 32 - 10), near := { tick := 7 } }
    let w : SerialLink Bench.Board := ⟨board⟩
    let time (k : Nat) : Nat := 2 ^ 32 - 10 + 7 * k
    plain.settings.check = .ok () ∧ (plain.start ⟨0x10⟩ [0x01] w).1 = .ok () ∧
      Ticking time (plain.sendDeeds 20 ⟨0x10⟩ [0x01] [0xEE] w) ∧
      ∀ polls, 20 ≤ polls →
        (plain.send polls ⟨0x10⟩ [0x01] [0xEE] w).outcome = some (.error .timeout) ∧
          (plain.send polls ⟨0x10⟩ [0x01] [0xEE] w).caller.state = .idle := by
  intro board w time
  have hsettings : plain.settings.check = .ok () := by decide
  have hstart : (plain.start ⟨0x10⟩ [0x01] w).1 = .ok () := by decide +kernel
  have hticks : (plain.sendDeeds 20 ⟨0x10⟩ [0x01] [0xEE] w).map Deed.tick =
      (List.range 4).map fun k => BitVec.ofNat 32 (time k) := by decide +kernel
  have hticking : Ticking time (plain.sendDeeds 20 ⟨0x10⟩ [0x01] [0xEE] w) := by
    refine ⟨fun k => by dsimp only [time]; omega, fun k => by dsimp only [time]; omega, ?_⟩
    intro k d hd _
    have hlength := congrArg List.length hticks
    have hk := (List.getElem?_eq_some_iff.mp hd).1
    have htick := congrArg (·[k]?) hticks
    rw [List.length_map, List.length_map, List.length_range] at hlength
    simpa [hd, hlength ▸ hk] using htick
  have hnone : Parser.firstAnswer ⟨0x10⟩ plain.nextSeq
      (Deed.offers (plain.sendDeeds 20 ⟨0x10⟩ [0x01] [0xEE] w)) = none := by decide +kernel
  obtain ⟨hends, hmore⟩ := send_ends hsettings rfl hstart hticking
  refine ⟨hsettings, hstart, hticking, fun polls hpolls => ?_⟩
  rw [hmore polls hpolls]
  exact hends.timeout hnone

end HalfLink.Caller
