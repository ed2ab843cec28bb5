import HalfLink.Proofs.Line.Basic

/-! When a transaction resolves. Over all polls since its start, the caller takes the first answer that
a fresh parser gives over all bytes read, in the poll that reads the answer's last byte, however the
bytes are cut into reads and spread over polls. -/
namespace HalfLink

/-- All that the reads from `w` on give, up to the one that gives nothing or fails. -/
def Link.offer {σ : Type} [Link σ] (w : σ) : Bytes :=
  match _h : Link.read readSize w with
  | (.ok (byte :: chunk), w') => byte :: chunk ++ offer w'
  | _ => []
termination_by Link.backlog w
decreasing_by exact Link.backlog_read_lt _h (List.cons_ne_nil _ _)

section

variable {σ : Type} [Link σ]

theorem Link.offer_more {w w' : σ} {byte : UInt8} {chunk : Bytes}
    (h : Link.read readSize w = (.ok (byte :: chunk), w')) :
    Link.offer w = byte :: chunk ++ Link.offer w' := by
  rw [Link.offer]
  split
  · rename_i hread
    rw [h] at hread
    cases hread
    rfl
  · rename_i hother
    exact absurd h (hother byte chunk w')

theorem Link.offer_nothing {w : σ}
    (h : ∀ byte chunk, (Link.read readSize w).1 ≠ .ok (byte :: chunk)) : Link.offer w = [] := by
  rw [Link.offer]
  split
  · rename_i byte chunk w' hread
    exact absurd (congrArg Prod.fst hread) (h byte chunk)
  · rfl

theorem Reads.offer_eq {w w' : σ} {bytes : Bytes} (h : Reads w bytes w') :
    Link.offer w = bytes ++ Link.offer w' := by
  induction h with
  | refl w => rfl
  | more hread _ ih => rw [Link.offer_more hread, ih, List.append_assoc]

end

namespace Parser

variable {id : TransactionId} {seq : UInt8}

theorem answerIn_eq_find (p : Parser) (bytes : Bytes) :
    (answerIn id seq p bytes).map Prod.fst =
      (frames (p.feedAll bytes).1).find? (·.answers id seq) := by
  induction bytes generalizing p with
  | nil => rfl
  | cons byte rest ih =>
    rw [answerIn, feedAll]
    rcases p.feed byte with ⟨_ | _ | f, p'⟩
    · exact ih p'
    · exact ih p'
    · have hframes : frames (Except.ok (some f) :: (p'.feedAll rest).1) =
          f :: frames (p'.feedAll rest).1 := rfl
      dsimp only
      rw [hframes, List.find?_cons]
      cases f.answers id seq with
      | true => rfl
      | false => exact ih p'

/-- The first frame that answers request number `seq` of `id` among those that a fresh parser gives. -/
def firstAnswer (id : TransactionId) (seq : UInt8) (bytes : Bytes) : Option Frame :=
  (delivered bytes).find? (·.answers id seq)

theorem firstAnswer_eq (bytes : Bytes) :
    firstAnswer id seq bytes = (answerIn id seq idle bytes).map Prod.fst :=
  (answerIn_eq_find idle bytes).symm

theorem firstAnswer_eq_none_iff {bytes : Bytes} :
    firstAnswer id seq bytes = none ↔ answerIn id seq idle bytes = none := by
  rw [firstAnswer_eq, Option.map_eq_none_iff]

/-- Behind bytes that hold no answer, the first answer is the one that the parser gives from there. -/
theorem firstAnswer_append {heard : Bytes} (h : firstAnswer id seq heard = none) (more : Bytes) :
    firstAnswer id seq (heard ++ more) =
      (answerIn id seq (idle.feedAll heard).2 more).map Prod.fst := by
  rw [firstAnswer_eq, answerIn_append_none (firstAnswer_eq_none_iff.mp h)]

theorem firstAnswer_prefix {heard more : Bytes} (h : firstAnswer id seq (heard ++ more) = none) :
    firstAnswer id seq heard = none := by
  rw [firstAnswer_eq_none_iff] at h ⊢
  cases hanswer : answerIn id seq idle heard with
  | none => rfl
  | some found =>
    obtain ⟨f, rest⟩ := found
    rw [answerIn_append_some hanswer] at h
    cases h

end Parser

namespace Caller

/-- The buffer and the world that a poll is given. -/
structure Occasion (σ : Type) where
  response : Bytes
  world : σ

variable {σ : Type} [Link σ] [TickSource σ]

/-- All bytes that the polls can read. -/
def offered (occasions : List (Occasion σ)) : Bytes := occasions.flatMap fun o => Link.offer o.world

/-- Polls one after the other: what they give, and the caller afterwards. Between two polls anything
may happen to the world. -/
def pollAll (c : Caller) : List (Occasion σ) → List (Polled σ) × Caller
  | [] => ([], c)
  | o :: occasions =>
    let p := c.poll o.response o.world
    let (polled, c) := p.caller.pollAll occasions
    (p :: polled, c)

/-- A caller that has awaited the answer to request number `seq` of `id` since bytes were first heard,
and has not found it in them. -/
structure Listening (c : Caller) (id : TransactionId) (seq : UInt8) (deadline : Ticks 32)
    (heard : Bytes) : Prop where
  state : c.state = .awaiting id seq deadline
  parser : c.parser = (Parser.idle.feedAll heard).2
  unanswered : Parser.firstAnswer id seq heard = none

variable {c : Caller} {id : TransactionId} {seq : UInt8} {deadline : Ticks 32} {heard : Bytes}

/-- All that a poll can do: it completes with the first answer, or reads all bytes that it is offered
and looks at the time. -/
theorem Listening.poll (h : c.Listening id seq deadline heard) (o : Occasion σ) :
    match Parser.firstAnswer id seq (heard ++ Link.offer o.world) with
    | some f => ∃ parser w, c.poll o.response o.world = { c with parser }.complete f o.response w
    | none => ∃ w, c.poll o.response o.world =
        { c with parser := (Parser.idle.feedAll (heard ++ Link.offer o.world)).2 }.checkDeadline
          deadline o.response w := by
  obtain ⟨bytes, w, hreads, hend⟩ := poll_awaiting h.state o.response o.world
  rw [h.parser] at hend
  rw [Parser.firstAnswer_append h.unanswered, hreads.offer_eq]
  cases hanswer : Parser.answerIn id seq (Parser.idle.feedAll heard).2 bytes with
  | some found =>
    obtain ⟨f, rest⟩ := found
    rw [hanswer] at hend
    rw [Parser.answerIn_append_some hanswer]
    obtain ⟨parser, hpoll⟩ := hend
    exact ⟨parser, w, hpoll⟩
  | none =>
    rw [hanswer] at hend
    obtain ⟨hpoll, hnothing⟩ := hend
    rw [Link.offer_nothing hnothing, List.append_nil, hanswer, Parser.feedAll_append]
    exact ⟨_, hpoll⟩

/-- A poll that finds no answer and does not time out goes on listening. -/
theorem Listening.next (h : c.Listening id seq deadline heard) (o : Occasion σ)
    (hnone : Parser.firstAnswer id seq (heard ++ Link.offer o.world) = none)
    (htimely : (c.poll o.response o.world).outcome ≠ some (.error .timeout)) :
    (c.poll o.response o.world).outcome = none ∧
      (c.poll o.response o.world).caller.Listening id seq deadline
        (heard ++ Link.offer o.world) := by
  have hpoll := h.poll o
  rw [hnone] at hpoll
  obtain ⟨w, hpoll⟩ := hpoll
  rw [hpoll, checkDeadline] at htimely ⊢
  dsimp only at htimely ⊢
  split at htimely
  · exact absurd rfl htimely
  · rename_i hearly
    rw [if_neg hearly]
    exact ⟨rfl, h.state, rfl, hnone⟩

theorem Listening.pollAll (h : c.Listening id seq deadline heard) (occasions : List (Occasion σ))
    (hnone : Parser.firstAnswer id seq (heard ++ offered occasions) = none)
    (htimely : ∀ p ∈ (c.pollAll occasions).1, p.outcome ≠ some (.error .timeout)) :
    (∀ p ∈ (c.pollAll occasions).1, p.outcome = none) ∧
      (c.pollAll occasions).2.Listening id seq deadline (heard ++ offered occasions) := by
  induction occasions generalizing c heard with
  | nil =>
    refine ⟨fun p hp => absurd hp List.not_mem_nil, ?_⟩
    rw [offered, List.flatMap_nil, List.append_nil]
    exact h
  | cons o occasions ih =>
    have hbytes : heard ++ offered (o :: occasions) =
        heard ++ Link.offer o.world ++ offered occasions := (List.append_assoc _ _ _).symm
    rw [hbytes] at hnone ⊢
    simp only [Caller.pollAll, List.forall_mem_cons] at htimely ⊢
    obtain ⟨hpending, hnext⟩ := h.next o (Parser.firstAnswer_prefix hnone) htimely.1
    obtain ⟨hrest, hlast⟩ := ih hnext hnone htimely.2
    exact ⟨⟨hpending, hrest⟩, hlast⟩

theorem listening_of_start {request : Bytes} {w : σ} (h : (c.start id request w).1 = .ok ()) :
    (c.start id request w).2.1.Listening id c.nextSeq
      (Ticks.offset (readTicks w) c.settings.responseTimeout) [] := by
  obtain ⟨health, hstart⟩ := start_ok h
  rw [hstart]
  exact ⟨rfl, rfl, rfl⟩

/-- As long as no poll has timed out, a transaction stays pending until a poll reads the first answer
among all bytes since its start, and that poll resolves it with this answer, also after the deadline.
A poll that reads no answer times out if the deadline has come. -/
theorem resolves_with_first_answer {request : Bytes} {w : σ}
    (hstart : (c.start id request w).1 = .ok ()) (before : List (Occasion σ))
    (htimely : ∀ p ∈ ((c.start id request w).2.1.pollAll before).1,
      p.outcome ≠ some (.error .timeout))
    (hnone : Parser.firstAnswer id c.nextSeq (offered before) = none) (o : Occasion σ) :
    let polled := (c.start id request w).2.1.pollAll before
    let p := polled.2.poll o.response o.world
    (∀ q ∈ polled.1, q.outcome = none) ∧
    match Parser.firstAnswer id c.nextSeq (offered before ++ Link.offer o.world) with
    | some f => p.caller.state = .idle ∧
        if f.payload.size ≤ o.response.length then
          p.outcome = some (.ok f.payload.size) ∧ p.response = o.response.splice 0 f.payload.toList
        else p.outcome = some (.error .responseTooLarge) ∧ p.response = o.response
    | none => p.response = o.response ∧
        p.outcome =
          if Ticks.expired (readTicks p.world)
            (Ticks.offset (readTicks w) c.settings.responseTimeout) then some (.error .timeout)
          else none := by
  intro polled p
  obtain ⟨hpending, hlistening⟩ := (listening_of_start hstart).pollAll before
    (by rwa [List.nil_append]) htimely
  refine ⟨hpending, ?_⟩
  have hpoll := hlistening.poll o
  rw [List.nil_append] at hpoll
  cases hanswer : Parser.firstAnswer id c.nextSeq (offered before ++ Link.offer o.world) with
  | some f =>
    rw [hanswer] at hpoll
    obtain ⟨parser, w', hpoll⟩ := hpoll
    replace hpoll : p = _ := hpoll
    rw [hpoll, complete]
    by_cases hsize : f.payload.size ≤ o.response.length
    · simp [hsize, Nat.not_lt.mpr hsize]
    · simp [hsize, Nat.lt_of_not_le hsize]
  | none =>
    rw [hanswer] at hpoll
    obtain ⟨w', hpoll⟩ := hpoll
    replace hpoll : p = _ := hpoll
    rw [hpoll, checkDeadline]
    dsimp only
    split <;> simp [*]

private def reply : Frame := .response ⟨0x10⟩ 0 (Buffer.empty.pushAll [0x05])

/-- A line with the given bytes on their way, at most three of them for each of two reads. -/
private def lineWith (clock : Ticks 32) (bytes : Bytes) : LineEnd := ⟨clock, ⟨[], bytes⟩, {}, [3, 3]⟩

/-- The response comes in four reads behind noise, and its end after the deadline. -/
theorem late_answer_resolves :
    let w := lineWith 0 []
    let before : List (Occasion LineEnd) :=
      [⟨[0xEE], lineWith 7 (0xAA :: 0x00 :: reply.encode.take 2)⟩]
    let o : Occasion LineEnd := ⟨[0xEE], lineWith 25 (reply.encode.drop 2)⟩
    let polled := (plain.start ⟨0x10⟩ [0x01] w).2.1.pollAll before
    let p := polled.2.poll o.response o.world
    (plain.start ⟨0x10⟩ [0x01] w).1 = .ok () ∧
      (∀ q ∈ polled.1, q.outcome ≠ some (.error .timeout)) ∧
      Parser.firstAnswer ⟨0x10⟩ 0 (offered before) = none ∧
      p.outcome = some (.ok 1) ∧ p.response = [0x05] := by
  intro w before o polled p
  have hstart : (plain.start ⟨0x10⟩ [0x01] w).1 = .ok () := by decide +kernel
  have htimely : ∀ q ∈ polled.1, q.outcome ≠ some (.error .timeout) := by decide +kernel
  have hnone : Parser.firstAnswer ⟨0x10⟩ 0 (offered before) = none := by decide +kernel
  have hanswer : Parser.firstAnswer ⟨0x10⟩ 0 (offered before ++ Link.offer o.world) = some reply := by
    decide +kernel
  obtain ⟨-, hresolved⟩ := resolves_with_first_answer hstart before htimely hnone o
  rw [show plain.nextSeq = 0 from rfl, hanswer] at hresolved
  obtain ⟨-, houtcome⟩ := hresolved
  rw [if_pos (by decide)] at houtcome
  exact ⟨hstart, htimely, hnone, houtcome⟩

end Caller

end HalfLink
