import HalfLink.Proofs.Line.Basic

/-! What holds of two halves on an in-order line after any moves: the line carries the requests in
their order and the responses to those that the callee has read, and both parsers are where the bytes
read so far have brought them. -/
namespace HalfLink

namespace LineEnd

theorem of_reads {w w' : LineEnd} {bytes : Bytes} (h : Reads w bytes w') :
    w.inbound.pending = bytes ++ w'.inbound.pending ∧
      w'.inbound.read = w.inbound.read ++ bytes ∧ w'.outbound = w.outbound ∧ w'.clock = w.clock := by
  induction h with
  | refl w => simp
  | more hread _ ih =>
    obtain ⟨-, hpending, hbytes, hout, hclock⟩ := read_ok hread
    obtain ⟨ihpending, ihbytes, ihout, ihclock⟩ := ih
    exact ⟨by rw [hpending, ihpending, List.append_assoc], by rw [ihbytes, hbytes, List.append_assoc],
      ihout.trans hout, ihclock.trans hclock⟩

/-- A read that gives nothing leaves the line as it is. -/
theorem read_nothing {w w' : LineEnd} (h : Link.read readSize w = (.ok [], w')) :
    w'.inbound = w.inbound ∧ w'.outbound = w.outbound := by
  obtain ⟨-, hpending, hbytes, hout, -⟩ := read_ok h
  rw [List.append_nil] at hbytes
  exact ⟨Channel.ext hbytes hpending.symm, hout⟩

end LineEnd

namespace Callee

variable {τ : Type}

theorem answer_line (c : Callee τ) (f : Frame) (w : LineEnd) :
    ∃ sent, c.answer f w = (sent, { c with device := (c.directory.respond f c.device).2 },
      { w with outbound := w.outbound.put (wire (c.directory.respond f c.device).1.toList) }) := by
  rcases hrespond : c.directory.respond f c.device with ⟨_ | response, device⟩
  · exact ⟨false, by simp [answer, hrespond]⟩
  · refine ⟨true, ?_⟩
    simp only [answer, hrespond, Frame.toBuffer_eq]
    simp [Link.write]

theorem answerAll_line (c : Callee τ) (fs : List Frame) (w : LineEnd) :
    ∃ answered, c.answerAll w fs =
      (answered, { c with device := (c.directory.respondAll c.device fs).2 },
        { w with outbound := w.outbound.put (wire (c.directory.respondAll c.device fs).1) }) := by
  induction fs generalizing c w with
  | nil => exact ⟨0, by simp [answerAll, Directory.respondAll]⟩
  | cons f fs ih =>
    obtain ⟨sent, hanswer⟩ := c.answer_line f w
    obtain ⟨answered, hrest⟩ := ih { c with device := (c.directory.respond f c.device).2 }
      { w with outbound := w.outbound.put (wire (c.directory.respond f c.device).1.toList) }
    refine ⟨(if sent then 1 else 0) + answered, ?_⟩
    simp only [answerAll, hanswer, hrest, Directory.respondAll, wire_append, Channel.put_put]

theorem serve_line (c : Callee τ) (bytes : Bytes) (w : LineEnd) :
    ∃ answered, c.serve w bytes =
      (answered, c.after bytes, { w with outbound := w.outbound.put (wire (c.replies bytes)) }) := by
  obtain ⟨answered, hanswer⟩ := c.answerAll_line (Parser.frames (c.parser.feedAll bytes).1) w
  refine ⟨answered, ?_⟩
  rw [serve_eq, hanswer]
  rfl

/-- On the line a poll serves some of the bytes that are on their way. -/
theorem poll_line (c : Callee τ) (w : LineEnd) (reads : Nat) :
    ∃ bytes answered w', c.poll w reads = (answered, c.after bytes, w') ∧
      w.inbound.pending = bytes ++ w'.inbound.pending ∧
      w'.inbound.read = w.inbound.read ++ bytes ∧
      w'.outbound = w.outbound.put (wire (c.replies bytes)) := by
  induction reads generalizing c w with
  | zero => exact ⟨[], 0, w, by simp [poll]⟩
  | succ reads ih =>
    obtain ⟨chunk, w', hread, -, hpending, hbytes, hout, -⟩ := LineEnd.read_cases readSize w
    replace hread : Link.read readSize w = (.ok chunk, w') := hread
    cases chunk with
    | nil => exact ⟨[], 0, w', by simp [poll, hread], hpending, hbytes, by simp [hout]⟩
    | cons byte rest =>
      obtain ⟨answered, hserve⟩ := c.serve_line (byte :: rest) w'
      obtain ⟨bytes, more, w'', hpoll, hpending', hbytes', hout'⟩ := ih (c.after (byte :: rest))
        { w' with outbound := w'.outbound.put (wire (c.replies (byte :: rest))) }
      refine ⟨byte :: rest ++ bytes, answered + more, w'', ?_, ?_, ?_, ?_⟩
      · simp only [poll, hread, hserve, hpoll, after_append]
      · rw [hpending, hpending', List.append_assoc]
      · rw [hbytes', hbytes, List.append_assoc]
      · rw [hout', hout, Channel.put_put, replies_append, wire_append]

end Callee

namespace Caller

/-- On the line a poll of a caller that awaits an answer takes some of the bytes that are on their
way. -/
theorem poll_line {c : Caller} {id : TransactionId} {seq : UInt8} {deadline : Ticks 32}
    (hstate : c.state = .awaiting id seq deadline) (response : Bytes) (w : LineEnd) :
    ∃ bytes w', w.inbound.pending = bytes ++ w'.inbound.pending ∧
      w'.inbound.read = w.inbound.read ++ bytes ∧
      match Parser.answerIn id seq c.parser bytes with
      | some (f, _) => ∃ parser, c.poll response w = { c with parser }.complete f response w'
      | none => c.poll response w = { c with parser := (c.parser.feedAll bytes).2 }.checkDeadline
          deadline response w' := by
  obtain ⟨bytes, w', hreads, hend⟩ := poll_awaiting hstate response w
  obtain ⟨hpending, hbytes, -, -⟩ := LineEnd.of_reads hreads
  cases hanswer : Parser.answerIn id seq c.parser bytes with
  | some found =>
    rw [hanswer] at hend
    exact ⟨bytes, w', hpending, hbytes, by rw [hanswer]; exact hend⟩
  | none =>
    rw [hanswer] at hend
    obtain ⟨hpoll, hnothing⟩ := hend
    obtain ⟨chunk, w'', hread, -, -⟩ := LineEnd.read_cases readSize w'
    replace hread : Link.read readSize w' = (.ok chunk, w'') := hread
    rw [hread] at hpoll hnothing
    obtain rfl : chunk = [] := by
      cases chunk with
      | nil => rfl
      | cons byte chunk => exact absurd rfl (hnothing byte chunk)
    obtain ⟨hinbound, -⟩ := LineEnd.read_nothing hread
    rw [← hinbound] at hpending hbytes
    exact ⟨bytes, w'', hpending, hbytes, by rw [hanswer]; exact hpoll⟩

end Caller

namespace Halves

variable {τ : Type}

/-- What holds after any moves of a caller and a callee that were fresh. -/
structure Sound (d : Directory τ) (device : τ) (h : Halves τ) : Prop where
  nextSeq : h.caller.nextSeq = UInt8.ofNat h.asked.length
  requests : h.requests.written = wire (requestFrames h.asked)
  callee : h.callee = Callee.after { directory := d, device } h.requests.read
  responses : h.responses.written =
    wire (Callee.replies { directory := d, device } h.requests.read)
  mark_le : h.mark ≤ h.responses.read.length
  /-- When the last request went out, no response to it was there. -/
  mark_le_before : h.mark ≤ (wire (d.responses device h.asked.dropLast)).length
  /-- The caller awaits the answer to the last request, and its parser has taken what arrived since
  then. -/
  awaiting : ∀ id seq deadline, h.caller.state = .awaiting id seq deadline →
    (∃ earlier payload, h.asked = earlier ++ [(id, payload)] ∧
      seq = UInt8.ofNat earlier.length) ∧
    Parser.answerIn id seq .idle (h.responses.read.drop h.mark) = none ∧
    h.caller.parser = (Parser.idle.feedAll (h.responses.read.drop h.mark)).2

variable {d : Directory τ} {device : τ} {h : Halves τ}

/-- The responses on the line are the first ones of all that the requests so far will get. -/
theorem Sound.written_prefix (sound : h.Sound d device) :
    h.responses.written <+: wire (d.responses device h.asked) := by
  have hread : h.requests.read <+: wire (requestFrames h.asked) := by
    rw [← sound.requests]
    exact h.requests.read_prefix
  -- The callee has read the first `k` requests and answered just these.
  obtain ⟨k, hk⟩ := Parser.delivered_of_prefix hread
  have hreplies : Callee.replies { directory := d, device } h.requests.read =
      d.responses device (h.asked.take k) := by
    rw [take_requestFrames, Parser.delivered] at hk
    rw [Callee.replies, hk, Directory.respondAll_requestFrames]
  have hmore := d.responses_append device (h.asked.take k) (h.asked.drop k)
  obtain ⟨fs, hfs, -⟩ := hmore
  rw [List.take_append_drop] at hfs
  rw [sound.responses, hreplies, hfs, wire_append]
  exact List.prefix_append _ _

theorem sound_fresh {s : Settings} {c : Caller} (hc : Caller.ofSettings s = .ok c)
    (d : Directory τ) (device : τ) : (fresh c d device).Sound d device := by
  unfold Caller.ofSettings at hc
  split at hc
  · cases hc
  · cases hc
    exact ⟨rfl, rfl, rfl, rfl, le_rfl, le_rfl, fun _ _ _ hstate => by cases hstate⟩

theorem Sound.start (sound : h.Sound d device) (now : Ticks 32) (id : TransactionId)
    (request : Bytes) : (h.step (.start now id request)).Sound d device := by
  rcases h.caller.start_cases id request (h.near now []) with
    ⟨-, hstart⟩ | ⟨-, -, hstart⟩ | ⟨-, -, -, hstart⟩ | ⟨-, payload, hpayload, health, -, hstart⟩
  · simp only [step, hstart]
    exact sound
  · simp only [step, hstart]
    exact sound
  · simp only [step, hstart]
    exact sound
  · have hbuffer : (Buffer.ofList? request : Option Payload) = some payload := by
      subst hpayload
      simp [Buffer.ofList?, payload.length_le]
    have hsent := sound.written_prefix
    simp only [step, hstart, Caller.transmit, Link.write, hbuffer]
    constructor
    · simp [sound.nextSeq, UInt8.ofNat_add]
    · rw [requestFrames_concat, wire_append, ← sound.requests, sound.nextSeq]
      simp [near, requestFrame]
    · exact sound.callee
    · exact sound.responses
    · exact le_rfl
    · rw [List.dropLast_concat]
      exact (h.responses.read_prefix.length_le).trans hsent.length_le
    · intro id' seq' deadline' hstate
      cases hstate
      refine ⟨⟨h.asked, payload, rfl, sound.nextSeq⟩, ?_⟩
      simp [Parser.answerIn, Parser.feedAll]

theorem Sound.receive (sound : h.Sound d device) {caller : Caller} {responses : Channel}
    (hnext : caller.nextSeq = h.caller.nextSeq) (hwritten : responses.written = h.responses.written)
    (hread : h.responses.read.length ≤ responses.read.length)
    (hawaiting : ∀ id seq deadline, caller.state = .awaiting id seq deadline →
      h.caller.state = .awaiting id seq deadline ∧
      Parser.answerIn id seq .idle (responses.read.drop h.mark) = none ∧
      caller.parser = (Parser.idle.feedAll (responses.read.drop h.mark)).2) :
    { h with caller, responses }.Sound d device where
  nextSeq := hnext.trans sound.nextSeq
  requests := sound.requests
  callee := sound.callee
  responses := hwritten.trans sound.responses
  mark_le := sound.mark_le.trans hread
  mark_le_before := sound.mark_le_before
  awaiting id seq deadline hstate := by
    obtain ⟨hbefore, hrest⟩ := hawaiting id seq deadline hstate
    exact ⟨(sound.awaiting id seq deadline hbefore).1, hrest⟩

theorem Sound.poll (sound : h.Sound d device) (now : Ticks 32) (grants : List Nat)
    (response : Bytes) : (h.step (.poll now grants response)).Sound d device := by
  cases hstate : h.caller.state with
  | idle =>
    have hpoll : h.poll now grants response =
        ⟨some (.error .idle), response, h.caller, h.near now grants⟩ := by
      simp only [Halves.poll, Caller.poll, hstate]
    simp only [step, hpoll]
    exact sound
  | awaiting id seq deadline =>
    obtain ⟨-, hnone, hparser⟩ := sound.awaiting id seq deadline hstate
    obtain ⟨bytes, w', hpending, hbytes, hend⟩ :=
      Caller.poll_line hstate response (h.near now grants)
    replace hpending : h.responses.pending = bytes ++ w'.inbound.pending := hpending
    replace hbytes : w'.inbound.read = h.responses.read ++ bytes := hbytes
    have hwritten : w'.inbound.written = h.responses.written := by
      rw [Channel.written, Channel.written, hbytes, hpending, List.append_assoc]
    have hread : h.responses.read.length ≤ w'.inbound.read.length := by
      rw [hbytes, List.length_append]
      exact Nat.le_add_right _ _
    have hdrop : w'.inbound.read.drop h.mark = h.responses.read.drop h.mark ++ bytes := by
      rw [hbytes, List.drop_append_of_le_length sound.mark_le]
    cases hanswer : Parser.answerIn id seq h.caller.parser bytes with
    | some found =>
      rw [hanswer] at hend
      obtain ⟨parser, hpoll⟩ := hend
      replace hpoll : h.poll now grants response = _ := hpoll
      simp only [step, hpoll, Caller.complete]
      split
      · exact sound.receive rfl hwritten hread fun _ _ _ hidle => by cases hidle
      · exact sound.receive rfl hwritten hread fun _ _ _ hidle => by cases hidle
    | none =>
      rw [hanswer] at hend
      replace hend : h.poll now grants response = _ := hend
      simp only [step, hend, Caller.checkDeadline]
      split
      · exact sound.receive rfl hwritten hread fun _ _ _ hidle => by cases hidle
      · refine sound.receive rfl hwritten hread fun id' seq' deadline' hstill => ?_
        obtain ⟨rfl, rfl, rfl⟩ : id = id' ∧ seq = seq' ∧ deadline = deadline' := by
          rw [hstate] at hstill
          exact Caller.State.awaiting.inj hstill
        refine ⟨hstate, ?_, ?_⟩
        · rw [hdrop, Parser.answerIn_append_none hnone, ← hparser, hanswer]
        · rw [hdrop, Parser.feedAll_append, ← hparser]

theorem Sound.abandon (sound : h.Sound d device) : (h.step .abandon).Sound d device :=
  sound.receive rfl rfl le_rfl fun _ _ _ hidle => by cases hidle

theorem Sound.serve (sound : h.Sound d device) (grants : List Nat) (reads : Nat) :
    (h.step (.serve grants reads)).Sound d device := by
  obtain ⟨bytes, answered, w', hpoll, hpending, hbytes, hout⟩ :=
    h.callee.poll_line (h.far grants) reads
  replace hpending : h.requests.pending = bytes ++ w'.inbound.pending := hpending
  replace hbytes : w'.inbound.read = h.requests.read ++ bytes := hbytes
  replace hout : w'.outbound = h.responses.put (wire (h.callee.replies bytes)) := hout
  have hwritten : w'.inbound.written = h.requests.written := by
    rw [Channel.written, Channel.written, hbytes, hpending, List.append_assoc]
  simp only [step, hpoll]
  refine ⟨sound.nextSeq, hwritten.trans sound.requests, ?_, ?_, ?_, sound.mark_le_before, ?_⟩
  · rw [hbytes, Callee.after_append, ← sound.callee]
  · rw [hout, Channel.written_put, sound.responses, hbytes, Callee.replies_append, ← sound.callee,
      wire_append]
  · rw [hout, Channel.read_put]
    exact sound.mark_le
  · rw [hout, Channel.read_put]
    exact sound.awaiting

theorem Sound.step (sound : h.Sound d device) (move : Move) : (h.step move).Sound d device := by
  cases move with
  | start now id request => exact sound.start now id request
  | poll now grants response => exact sound.poll now grants response
  | abandon => exact sound.abandon
  | serve grants reads => exact sound.serve grants reads

theorem Sound.run (sound : h.Sound d device) (moves : List Move) :
    (h.run moves).Sound d device := by
  induction moves generalizing h with
  | nil => exact sound
  | cons move moves ih => exact ih (sound.step move)

end Halves

end HalfLink
