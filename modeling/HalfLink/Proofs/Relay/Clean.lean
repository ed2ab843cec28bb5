import HalfLink.Proofs.Call.Hearing
import HalfLink.Proofs.Relay.Basic

/-! One transaction on a line that loses nothing and on which nothing else is on its way. The request
reaches its handler once, and the caller has the handler's response as soon as nothing is left on the
line. -/
namespace HalfLink

namespace Lane

theorem pending_put {l : Lane} (keeps : l.loses = fun _ => false) (number : Nat) (bytes : Bytes) :
    (l.put number bytes).pending = l.pending ++ bytes := by
  rw [pending, content_put, keeps, taken_put, if_neg Bool.false_ne_true]
  exact List.drop_append_of_le_length l.taken_le

theorem take_append_pending (l : Lane) (n : Nat) :
    l.pending.take n ++ (l.take n).pending = l.pending := by
  have hall := (l.take n).read_append_pending
  rw [show (l.take n).content = l.content from rfl, ← l.read_append_pending, read_take,
    List.append_assoc] at hall
  exact List.append_cancel_left hall

/-- The lane has got more bytes and loses none. -/
structure Gets (bytes : Bytes) (l l' : Lane) : Prop where
  keeps : l'.loses = fun _ => false
  pending : l'.pending = l.pending ++ bytes

theorem Gets.refl {l : Lane} (keeps : l.loses = fun _ => false) : l.Gets [] l :=
  ⟨keeps, (List.append_nil _).symm⟩

theorem Gets.trans {a b : Bytes} {l l' l'' : Lane} (h : l.Gets a l') (h' : l'.Gets b l'') :
    l.Gets (a ++ b) l'' :=
  ⟨h'.keeps, by rw [h'.pending, h.pending, List.append_assoc]⟩

theorem gets_put {l : Lane} (keeps : l.loses = fun _ => false) (number : Nat) (bytes : Bytes) :
    l.Gets bytes (l.put number bytes) := ⟨keeps, pending_put keeps number bytes⟩

end Lane

namespace Callee

variable {τ : Type} {w : Road}

theorem answer_road (c : Callee τ) (f : Frame) (keeps : w.responses.loses = fun _ => false) :
    ∃ sent responses, c.answer f w =
        (sent, { c with device := (c.directory.respond f c.device).2 }, { w with responses }) ∧
      w.responses.Gets (wire (c.directory.respond f c.device).1.toList) responses := by
  rcases hrespond : c.directory.respond f c.device with ⟨_ | g, device⟩
  · exact ⟨false, w.responses, by simp only [answer, hrespond], .refl keeps⟩
  · let number :=
      ((Post.carried w.requests.posts)[w.responses.posts.length]?).elim 0 Post.number
    refine ⟨true, w.responses.put number g.encode, ?_, ?_⟩
    · simp only [answer, hrespond, Frame.toBuffer_eq, Link.write, Road.write]
      rfl
    rw [Option.toList_some, wire_cons, wire_nil, List.append_nil]
    exact Lane.gets_put keeps _ _

theorem answerAll_road (c : Callee τ) (fs : List Frame)
    (keeps : w.responses.loses = fun _ => false) :
    ∃ answered responses, c.answerAll w fs =
        (answered, { c with device := (c.directory.respondAll c.device fs).2 },
          { w with responses }) ∧
      w.responses.Gets (wire (c.directory.respondAll c.device fs).1) responses := by
  induction fs generalizing c w with
  | nil => exact ⟨0, w.responses, rfl, .refl keeps⟩
  | cons f fs ih =>
    obtain ⟨sent, responses, hanswer, hgets⟩ := c.answer_road f keeps
    obtain ⟨answered, responses', hrest, hgets'⟩ :=
      ih { c with device := (c.directory.respond f c.device).2 } (w := { w with responses })
        hgets.keeps
    refine ⟨(if sent then 1 else 0) + answered, responses', ?_, ?_⟩
    · simp only [answerAll, hanswer, hrest, Directory.respondAll]
    · simp only [Directory.respondAll, wire_append]
      exact hgets.trans hgets'

/-- A poll serves some of the bytes that are on their way. -/
theorem poll_road (c : Callee τ) (keeps : w.responses.loses = fun _ => false) (reads : Nat) :
    ∃ bytes answered w', c.poll w reads = (answered, c.after bytes, w') ∧
      w.requests.pending = bytes ++ w'.requests.pending ∧ w'.requests.loses = w.requests.loses ∧
      w.responses.Gets (wire (c.replies bytes)) w'.responses := by
  induction reads generalizing c w with
  | zero => exact ⟨[], 0, w, rfl, rfl, rfl, .refl keeps⟩
  | succ reads ih =>
    obtain ⟨requests, responses, _ | ⟨grant, grants⟩⟩ := w
    · exact ⟨[], 0, _, rfl, rfl, rfl, .refl keeps⟩
    have hread : Link.read readSize (⟨requests, responses, grant :: grants⟩ : Road) =
        (.ok (requests.pending.take (min readSize grant)),
          ⟨requests.take (min readSize grant), responses, grants⟩) := rfl
    have hpending := requests.take_append_pending (min readSize grant)
    cases hchunk : requests.pending.take (min readSize grant) with
    | nil =>
      rw [hchunk] at hread hpending
      refine ⟨[], 0, ⟨requests.take (min readSize grant), responses, grants⟩, ?_, hpending.symm, rfl,
        .refl keeps⟩
      simp only [poll, hread, after_nil]
    | cons byte rest =>
      rw [hchunk] at hread hpending
      obtain ⟨answered, responses', hanswer, hgets⟩ :=
        c.answerAll_road (Parser.frames (c.parser.feedAll (byte :: rest)).1)
          (w := ⟨requests.take (min readSize grant), responses, grants⟩) keeps
      obtain ⟨bytes, more, w', hpoll, hpending', hloses, hgets'⟩ := ih (c.after (byte :: rest))
        (w := ⟨requests.take (min readSize grant), responses', grants⟩) hgets.keeps
      refine ⟨byte :: rest ++ bytes, answered + more, w', ?_, ?_, hloses, ?_⟩
      · have hserve : c.serve (⟨requests.take (min readSize grant), responses, grants⟩ : Road)
            (byte :: rest) = (answered, c.after (byte :: rest),
              ⟨requests.take (min readSize grant), responses', grants⟩) := by
          rw [serve_eq, hanswer]
          rfl
        simp only [poll, hread, hserve, hpoll, after_append]
      · rw [List.append_assoc, ← hpending']
        exact hpending.symm
      · rw [replies_append, wire_append]
        exact hgets.trans hgets'

variable {c : Callee τ} {f g : Frame}

/-- Before its last byte a frame gets no response. -/
theorem replies_front {front back : Bytes} (hparser : c.parser = .idle)
    (h : front ++ back = f.encode) (hne : back ≠ []) : c.replies front = [] := by
  have hnone : Parser.frames (Parser.idle.feedAll front).1 = [] :=
    Parser.delivered_of_pending (pending_of_encode h hne)
  rw [replies, hparser, hnone]
  rfl

/-- A whole frame is responded to once. -/
theorem replies_encode {device : τ} (hparser : c.parser = .idle)
    (hrespond : c.directory.respond f c.device = (some g, device)) :
    c.replies f.encode = [g] ∧ c.after f.encode = { c with device } := by
  have hframes : Parser.frames (c.parser.feedAll f.encode).1 = [f] := by
    rw [hparser]
    exact Parser.frames_inside (List.nil_append _) f.encode_ne_nil
  have hidle : (c.parser.feedAll f.encode).2 = c.parser := by
    rw [hparser, Parser.feedAll_encode]
  have hall : c.directory.respondAll c.device [f] = ([g], device) := by
    simp only [Directory.respondAll, hrespond]
    rfl
  rw [replies, after, hframes, hidle, hall]
  exact ⟨rfl, rfl⟩

end Callee

namespace Relay

variable {τ : Type}

/-- Nothing is lost, nothing is on its way, and the callee's parser holds nothing. -/
structure Clean (r : Relay τ) : Prop where
  keepsRequests : r.requests.loses = fun _ => false
  keepsResponses : r.responses.loses = fun _ => false
  requests : r.requests.pending = []
  responses : r.responses.pending = []
  parser : r.callee.parser = .idle

/-- One of the first `polls` polls leaves nothing on the line, and those before it look at the clock
before the deadline. -/
def InTime (r : Relay τ) (deadline : Ticks 32) (polls : Nat) : Prop :=
  ∃ k < polls, (∀ j < k, Ticks.expired (readTicks (Link.leave^[j + 1] r)) deadline = false) ∧
    (Link.leave^[k + 1] r).requests.pending = [] ∧ (Link.leave^[k + 1] r).responses.pending = []

/-- What holds of the line and the half at its other end when a frame has been put on a clean line
before the callee `c`, and the caller has read `heard` since then. -/
structure Carries (f : Frame) (c : Callee τ) (heard : Bytes) (r : Relay τ) : Prop where
  keepsRequests : r.requests.loses = fun _ => false
  keepsResponses : r.responses.loses = fun _ => false
  served : ∃ front, f.encode = front ++ r.requests.pending ∧ r.callee = c.after front ∧
    wire (c.replies front) = heard ++ r.responses.pending

variable {f g : Frame} {c : Callee τ} {heard : Bytes} {r r' : Relay τ}

theorem Carries.look (h : Carries f c heard r) (l : Look) : Carries f c heard (r.look l) := by
  obtain ⟨front, hfront, hcallee, hserved⟩ := h.served
  obtain ⟨bytes, answered, w, hpoll, hpending, hloses, hgets⟩ :=
    r.callee.poll_road (w := r.road l.grants) h.keepsResponses l.reads
  have hlook : r.look l =
      { r with callee := r.callee.after bytes, requests := w.requests, responses := w.responses } := by
    simp only [Relay.look, hpoll]
  rw [hlook]
  refine ⟨hloses.trans h.keepsRequests, hgets.keeps, front ++ bytes, ?_, ?_, ?_⟩
  · rw [hfront, List.append_assoc]
    exact congrArg (front ++ ·) hpending
  · rw [hcallee, Callee.after_append]
  · rw [Callee.replies_append, wire_append, hserved, ← hcallee, List.append_assoc]
    exact congrArg (heard ++ ·) hgets.pending.symm

theorem Carries.pass (h : Carries f c heard r) (lull : Lull) : Carries f c heard (r.pass lull) := by
  obtain ⟨looks, clock⟩ := lull
  have hlooks : Carries f c heard (looks.foldl Relay.look r) := by
    induction looks generalizing r with
    | nil => exact h
    | cons l looks ih => exact ih (h.look l)
  exact ⟨hlooks.keepsRequests, hlooks.keepsResponses, hlooks.served⟩

theorem Carries.read {limit : Nat} {bytes : Bytes} (h : Carries f c heard r)
    (hread : Link.read limit r = (.ok bytes, r')) : Carries f c (heard ++ bytes) r' := by
  replace hread : r.read limit = (.ok bytes, r') := hread
  unfold Relay.read at hread
  split at hread
  · cases hread
    rwa [List.append_nil]
  · rename_i lull grant plan hplan
    have hrest : Carries f c heard { r with plan } :=
      ⟨h.keepsRequests, h.keepsResponses, h.served⟩
    have hpass := hrest.pass lull
    cases hread
    obtain ⟨front, hfront, hcallee, hserved⟩ := hpass.served
    refine ⟨hpass.keepsRequests, hpass.keepsResponses, front, hfront, hcallee, ?_⟩
    rw [hserved, List.append_assoc]
    exact congrArg (heard ++ ·) (Lane.take_append_pending _ _).symm

theorem Carries.reads {bytes : Bytes} (h : Carries f c heard r) (hreads : Reads r bytes r') :
    Carries f c (heard ++ bytes) r' := by
  induction hreads generalizing heard with
  | refl r => rwa [List.append_nil]
  | more hread _ ih =>
    rw [← List.append_assoc]
    exact ih (h.read hread)

theorem Carries.leave (h : Carries f c heard r) :
    Carries f c (heard ++ Link.offer r) (Link.leave r) := by
  obtain ⟨r', hreads, hnothing, hleave⟩ := Link.reads_offer r
  have hreach := h.reads hreads
  rcases hread : Link.read readSize r' with ⟨e | _ | ⟨byte, chunk⟩, r''⟩
  · replace hread : r'.read readSize = (.error e, r'') := hread
    unfold Relay.read at hread
    split at hread <;> cases hread
  · have hlast := hreach.read hread
    rw [List.append_nil] at hlast
    rwa [hleave, hread]
  · rw [hread] at hnothing
    exact absurd rfl (hnothing byte chunk)

variable {id : TransactionId} {seq : UInt8} {device : τ}

/-- Nothing is left on the line when the caller has its answer. -/
theorem Carries.answered (h : Carries f c heard r) (hparser : c.parser = .idle)
    (hrespond : c.directory.respond f c.device = (some g, device)) {answer : Frame}
    (hanswer : Parser.firstAnswer id seq heard = some answer) :
    answer = g ∧ r.Clean ∧ r.callee = { c with device } := by
  obtain ⟨front, hfront, hcallee, hserved⟩ := h.served
  obtain ⟨hreplies, hafter⟩ := Callee.replies_encode hparser hrespond
  have hrequests : r.requests.pending = [] := by
    by_contra hne
    rw [Callee.replies_front hparser hfront.symm hne, wire_nil] at hserved
    obtain ⟨rfl, -⟩ := List.append_eq_nil_iff.mp hserved.symm
    cases hanswer
  rw [hrequests, List.append_nil] at hfront
  rw [← hfront, hreplies, wire_cons, wire_nil, List.append_nil] at hserved
  have hresponses : r.responses.pending = [] := by
    by_contra hne
    have hnone := Parser.delivered_of_pending (pending_of_encode hserved.symm hne)
    rw [Parser.firstAnswer, hnone] at hanswer
    cases hanswer
  rw [hresponses, List.append_nil] at hserved
  have hwhole := Parser.delivered_encode_append g []
  rw [List.append_nil, hserved] at hwhole
  rw [Parser.firstAnswer, hwhole] at hanswer
  refine ⟨?_, ⟨h.keepsRequests, h.keepsResponses, hrequests, hresponses, ?_⟩, ?_⟩
  · exact List.mem_singleton.mp (List.mem_of_find?_eq_some hanswer)
  · rw [hcallee, ← hfront, hafter]
    exact hparser
  · rw [hcallee, ← hfront, hafter]

/-- When nothing is left on the line, the caller has its answer. -/
theorem Carries.answer_of_empty (h : Carries f c heard r) (hparser : c.parser = .idle)
    (hrespond : c.directory.respond f c.device = (some g, device)) (hanswers : g.answers id seq)
    (hrequests : r.requests.pending = []) (hresponses : r.responses.pending = []) :
    Parser.firstAnswer id seq heard = some g := by
  obtain ⟨front, hfront, -, hserved⟩ := h.served
  rw [hrequests, List.append_nil] at hfront
  rw [← hfront, (Callee.replies_encode hparser hrespond).1, hresponses, wire_cons, wire_nil,
    List.append_nil, List.append_nil] at hserved
  have hwhole := Parser.delivered_encode_append g []
  rw [List.append_nil, hserved] at hwhole
  rw [Parser.firstAnswer, hwhole, List.find?_cons, hanswers]

/-- The wait ends with the response, and nothing is left on the line. -/
theorem Carries.wait {caller : Caller} {deadline : Ticks 32} {polls : Nat}
    (h : Carries f c heard r) (hparser : c.parser = .idle)
    (hrespond : c.directory.respond f c.device = (some g, device)) (hanswers : g.answers id seq)
    (hlistening : caller.Listening id seq deadline heard) (htimely : r.InTime deadline polls)
    (response : Bytes) :
    ∃ parser r', caller.wait response r polls = { caller with parser }.complete g response r' ∧
      r'.Clean ∧ r'.callee = { c with device } := by
  obtain ⟨k, hk, hearly, hempty⟩ := htimely
  induction k using Nat.strongRecOn generalizing caller heard r polls with
  | ind k ih =>
    obtain ⟨polls, rfl⟩ := Nat.exists_eq_add_one_of_ne_zero (Nat.ne_of_gt (Nat.zero_lt_of_lt hk))
    rcases hlistening.meets response r with
      ⟨answer, parser, bytes, r', hreads, hanswer, hpoll⟩ | ⟨hnone, hpoll⟩
    · obtain ⟨rfl, hclean, hcallee⟩ := (h.reads hreads).answered hparser hrespond hanswer
      exact ⟨parser, r', Caller.wait_answered hpoll polls, hclean, hcallee⟩
    cases k with
    | zero =>
      rw [h.leave.answer_of_empty hparser hrespond hanswers hempty.1 hempty.2] at hnone
      cases hnone
    | succ k =>
      rw [Caller.wait_unanswered hpoll (hearly 0 (Nat.succ_pos k))]
      exact ih k (Nat.lt_succ_self k) h.leave ⟨hlistening.state, rfl, hnone⟩
        (Nat.lt_of_succ_lt_succ hk) (fun j hj => hearly (j + 1) (Nat.succ_lt_succ hj)) hempty

theorem Clean.carries (clean : r.Clean) (f : Frame) :
    Carries f r.callee [] (Link.write f.encode r).2 := by
  refine ⟨clean.keepsRequests, clean.keepsResponses, [], ?_, rfl, ?_⟩
  · have hpending := Lane.pending_put clean.keepsRequests r.requests.posts.length f.encode
    rw [clean.requests] at hpending
    exact hpending.symm
  · exact clean.responses.symm

/-- A transaction on a clean line is answered by the handler of its id, and leaves the line clean. -/
theorem Clean.send {caller : Caller} {polls : Nat} {handler : Handler τ} {request output : Payload}
    {response : Bytes} (clean : r.Clean) (hidle : caller.isBusy = false)
    (hup : caller.isConnected = true) (hlookup : r.callee.directory.lookup id = some handler)
    (hrun : handler request.toList .empty r.callee.device = (output, device))
    (hfits : output.size ≤ response.length)
    (htimely : (caller.start id request.toList r).2.2.InTime
      (Ticks.offset (readTicks r) caller.settings.responseTimeout) polls) :
    ∃ caller' r', caller.send polls id request.toList response r =
        ⟨some (.ok output.size), output.toList ++ response.drop output.size, caller', r'⟩ ∧
      caller'.isBusy = false ∧ caller'.isConnected = true ∧ r'.Clean ∧
      r'.callee = { r.callee with device } := by
  let deadline := Ticks.offset (readTicks r) caller.settings.responseTimeout
  let f : Frame := ⟨.request, id, caller.nextSeq, request⟩
  let begun : Caller :=
    { caller with
      parser := .idle, state := .awaiting id caller.nextSeq deadline, nextSeq := caller.nextSeq + 1 }
  have hstart : caller.start id request.toList r = (.ok (), begun, (Link.write f.encode r).2) := by
    have hattempt : caller.health.attempt (readTicks r) = (true, caller.health) := if_pos hup
    rcases caller.start_cases id request.toList r with
      ⟨hbusy, -⟩ | ⟨-, hlarge, -⟩ | ⟨-, -, hrefused, -⟩ | ⟨-, payload, hpayload, health, hlet, hstart⟩
    · rw [hidle] at hbusy
      cases hbusy
    · exact absurd request.length_le (Nat.not_le.mpr hlarge)
    · rw [hattempt] at hrefused
      cases hrefused
    · obtain rfl : payload = request := Buffer.ext hpayload
      obtain rfl : caller.health = health := (Prod.mk.inj (hattempt.symm.trans hlet)).2
      exact hstart
  have hlistening : begun.Listening id caller.nextSeq deadline [] := ⟨rfl, rfl, rfl⟩
  have hrespond : r.callee.directory.respond f r.callee.device =
      (some (.response id caller.nextSeq output), device) := by
    simp only [Directory.respond, f, hlookup, hrun]
  have hanswers : (Frame.response id caller.nextSeq output).answers id caller.nextSeq = true := by
    simp [Frame.answers, Frame.response]
  rw [hstart] at htimely
  obtain ⟨parser, r', hwait, hclean, hcallee⟩ :=
    (clean.carries f).wait clean.parser hrespond hanswers hlistening htimely response
  have hsplice : response.splice 0 output.toList = output.toList ++ response.drop output.size :=
    Bytes.splice_append [] response _
  have hfits' : ¬ response.length < (Frame.response id caller.nextSeq output).payload.size :=
    Nat.not_lt.mpr hfits
  refine ⟨{ begun with parser, state := .idle, health := caller.health.recordSuccess }, r', ?_, rfl,
    ?_, hclean, hcallee⟩
  · simp only [Caller.send, hidle, Caller.exchange, hstart, hwait, Caller.complete, if_neg hfits']
    rw [if_neg Bool.false_ne_true, ← hsplice]
    rfl
  · have hmax : caller.health.maxErrors = 0 ∨ 0 < caller.health.maxErrors := by
      rcases Nat.eq_zero_or_pos caller.health.maxErrors.toNat with hzero | hpos
      · exact .inl (UInt8.toNat_inj.mp hzero)
      · exact .inr (UInt8.lt_iff_toNat_lt.mpr hpos)
    exact decide_eq_true hmax

end Relay

end HalfLink
