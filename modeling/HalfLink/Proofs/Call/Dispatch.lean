import HalfLink.Proofs.Call.Handling

/-! The callee's part under any timing of what arrives: how the bytes are cut into reads, which polls
take them, and which reads and writes fail has no part in which handlers run and what they answer. -/
namespace HalfLink

/-- What a read gives that gives something. -/
structure Chunk where
  bytes : Bytes
  bytes_ne_nil : bytes ≠ []
  length_bytes_le : bytes.length ≤ readSize

/-- What the reads of one poll come to: each of them gives a chunk, and the one behind the last chunk
gives nothing or fails. -/
structure Visit where
  chunks : List Chunk
  failure : Option LinkError := none
  /-- How many more reads the poll has left. -/
  spare : Nat := 0

def Visit.bytes (v : Visit) : Bytes := v.chunks.flatMap Chunk.bytes

/-- A link whose reads and writes are laid down from outside. -/
structure Script where
  chunks : List Chunk := []
  /-- How reads fail when no chunk is left, if they do. -/
  failure : Option LinkError := none
  /-- How write number `n` fails, if it does. -/
  refusal : Nat → Option LinkError
  /-- The writes so far, with those that failed. -/
  tried : List Bytes := []

namespace Script

def lay (w : Script) (v : Visit) : Script := { w with chunks := v.chunks, failure := v.failure }

def write (bytes : Bytes) (w : Script) : Except LinkError Unit × Script :=
  let tried := { w with tried := w.tried ++ [bytes] }
  match w.refusal w.tried.length with
  | none => (.ok (), tried)
  | some e => (.error e, tried)

def read (limit : Nat) (w : Script) : Except LinkError Bytes × Script :=
  match w.chunks with
  | [] =>
    match w.failure with
    | none => (.ok [], w)
    | some e => (.error e, w)
  | chunk :: chunks =>
    if h : chunk.bytes.length ≤ limit then (.ok chunk.bytes, { w with chunks })
    else
      have hlength := chunk.length_bytes_le
      let rest : Chunk := ⟨chunk.bytes.drop limit, by simpa using h, by simp; omega⟩
      (.ok (chunk.bytes.take limit), { w with chunks := rest :: chunks })

/-- The number of bytes that are still to be read. -/
def ahead (w : Script) : Nat := (w.chunks.flatMap Chunk.bytes).length

theorem read_ok {limit : Nat} {w w' : Script} {bytes : Bytes} (h : w.read limit = (.ok bytes, w')) :
    bytes.length ≤ limit ∧ w.ahead = bytes.length + w'.ahead := by
  unfold read at h
  split at h
  · split at h
    · cases h
      simp
    · cases h
  · rename_i chunk chunks hchunks
    split at h
    · rename_i hfits
      cases h
      exact ⟨hfits, by simp [ahead, hchunks]⟩
    · rename_i hlong
      cases h
      refine ⟨List.length_take_le _ _, ?_⟩
      simp only [ahead, hchunks, List.flatMap_cons, List.length_append, List.length_take,
        List.length_drop]
      omega

instance : Link Script where
  write := write
  read := read
  backlog := ahead
  length_read_le h := (read_ok h).1
  backlog_read_lt h hne := by
    have := (read_ok h).2
    have := List.length_pos_iff.mpr hne
    omega

/-- How many of the writes so far succeeded. -/
def passed (w : Script) : Nat := (List.range w.tried.length).countP fun n => (w.refusal n).isNone

/-- The script after more writes. -/
def wrote (w : Script) (bytes : List Bytes) : Script := { w with tried := w.tried ++ bytes }

@[simp] theorem wrote_nil (w : Script) : w.wrote [] = w := by
  simp [wrote]

theorem wrote_wrote (w : Script) (a b : List Bytes) : (w.wrote a).wrote b = w.wrote (a ++ b) := by
  simp [wrote]

theorem passed_wrote (w : Script) (bytes : Bytes) :
    (w.wrote [bytes]).passed = w.passed + if (w.refusal w.tried.length).isNone then 1 else 0 := by
  simp [passed, wrote, List.range_succ, List.countP_append, List.countP_cons]

theorem write_eq (bytes : Bytes) (w : Script) :
    Link.write bytes w =
      ((match w.refusal w.tried.length with
        | none => .ok ()
        | some e => .error e), w.wrote [bytes]) := by
  simp only [Link.write, write, wrote]
  cases w.refusal w.tried.length <;> rfl

/-- A read of the callee takes one chunk, and one behind the last chunk gives nothing. -/
theorem read_chunk {w : Script} {chunk : Chunk} {chunks : List Chunk}
    (h : w.chunks = chunk :: chunks) :
    Link.read readSize w = (.ok chunk.bytes, { w with chunks }) := by
  simp only [Link.read, read, h, dif_pos chunk.length_bytes_le]

end Script

namespace Directory

variable {τ : Type}

/-- The requests among frames whose id has a handler, each with its handler. -/
def addressed (d : Directory τ) (fs : List Frame) : List (Frame × Handler τ) :=
  fs.filterMap fun f => if f.kind = .request then (d.lookup f.id).map (f, ·) else none

/-- Runs the handlers one after the other, each once, on its request's payload and an empty response:
the responses under the requests' ids and numbers, and the device afterwards. -/
def serveEach (device : τ) : List (Frame × Handler τ) → List Frame × τ
  | [] => ([], device)
  | (f, handler) :: requests =>
    let (output, device) := handler f.payload.toList .empty device
    let (responses, device) := serveEach device requests
    (⟨.response, f.id, f.seq, output⟩ :: responses, device)

theorem respondAll_eq_serveEach (d : Directory τ) (device : τ) (fs : List Frame) :
    d.respondAll device fs = serveEach device (d.addressed fs) := by
  induction fs generalizing device with
  | nil => rfl
  | cons f fs ih =>
    obtain ⟨kind, id, seq, payload⟩ := f
    cases kind with
    | response => simp [respondAll, respond, addressed, ih]
    | request =>
      cases hlookup : d.lookup id with
      | none => simp [respondAll, respond, addressed, hlookup, ih]
      | some handler =>
        simp [respondAll, respond, addressed, hlookup, ih, serveEach, Frame.response]

end Directory

namespace Callee

variable {τ : Type}

theorem answer_script (c : Callee τ) (f : Frame) (w : Script) :
    ∃ sent, c.answer f w = (sent, { c with device := (c.directory.respond f c.device).2 },
        w.wrote ((c.directory.respond f c.device).1.toList.map Frame.encode)) ∧
      (w.wrote ((c.directory.respond f c.device).1.toList.map Frame.encode)).passed =
        w.passed + if sent then 1 else 0 := by
  rcases hrespond : c.directory.respond f c.device with ⟨_ | response, device⟩
  · exact ⟨false, by simp [answer, hrespond]⟩
  · refine ⟨(w.refusal w.tried.length).isNone, ?_, ?_⟩
    · simp only [answer, hrespond, Frame.toBuffer_eq, Script.write_eq]
      cases w.refusal w.tried.length <;> rfl
    · exact w.passed_wrote response.encode

theorem answerAll_script (c : Callee τ) (fs : List Frame) (w : Script) :
    ∃ answered, c.answerAll w fs =
        (answered, { c with device := (c.directory.respondAll c.device fs).2 },
          w.wrote ((c.directory.respondAll c.device fs).1.map Frame.encode)) ∧
      (w.wrote ((c.directory.respondAll c.device fs).1.map Frame.encode)).passed =
        w.passed + answered := by
  induction fs generalizing c w with
  | nil => exact ⟨0, by simp [answerAll, Directory.respondAll]⟩
  | cons f fs ih =>
    obtain ⟨sent, hanswer, hsent⟩ := c.answer_script f w
    obtain ⟨answered, hrest, hanswered⟩ :=
      ih { c with device := (c.directory.respond f c.device).2 }
        (w.wrote ((c.directory.respond f c.device).1.toList.map Frame.encode))
    refine ⟨(if sent then 1 else 0) + answered, ?_, ?_⟩
    · simp only [answerAll, hanswer, hrest, Directory.respondAll, List.map_append,
        Script.wrote_wrote]
    · rw [hsent] at hanswered
      rw [Directory.respondAll, List.map_append, ← Script.wrote_wrote, hanswered, Nat.add_assoc]

theorem serve_script (c : Callee τ) (bytes : Bytes) (w : Script) :
    ∃ answered, c.serve w bytes =
        (answered, c.after bytes, w.wrote ((c.replies bytes).map Frame.encode)) ∧
      (w.wrote ((c.replies bytes).map Frame.encode)).passed = w.passed + answered := by
  obtain ⟨answered, hanswer, hanswered⟩ :=
    c.answerAll_script (Parser.frames (c.parser.feedAll bytes).1) w
  refine ⟨answered, ?_, hanswered⟩
  rw [serve_eq, hanswer]
  rfl

/-- A poll serves all chunks that are laid out for it, and ends at the read behind them. -/
theorem poll_script (c : Callee τ) (w : Script) (spare : Nat) :
    ∃ answered, c.poll w (w.chunks.length + 1 + spare) =
        (answered, c.after (w.chunks.flatMap Chunk.bytes),
          { w with chunks := [] }.wrote
            ((c.replies (w.chunks.flatMap Chunk.bytes)).map Frame.encode)) ∧
      (w.wrote ((c.replies (w.chunks.flatMap Chunk.bytes)).map Frame.encode)).passed =
        w.passed + answered := by
  obtain ⟨chunks, failure, refusal, tried⟩ := w
  induction chunks generalizing c tried with
  | nil =>
    refine ⟨0, ?_, by simp⟩
    rw [List.length_nil, Nat.zero_add, Nat.add_comm]
    cases failure <;> simp [poll, Link.read, Script.read]
  | cons chunk chunks ih =>
    obtain ⟨byte, rest, hchunk⟩ := List.exists_cons_of_ne_nil chunk.bytes_ne_nil
    have hread := Script.read_chunk (w := ⟨chunk :: chunks, failure, refusal, tried⟩) rfl
    rw [hchunk] at hread
    obtain ⟨answered, hserve, hanswered⟩ :=
      c.serve_script (byte :: rest) ⟨chunks, failure, refusal, tried⟩
    obtain ⟨more, hpoll, hmore⟩ := ih (c.after (byte :: rest))
      (tried ++ (c.replies (byte :: rest)).map Frame.encode)
    replace hpoll : (c.after (byte :: rest)).poll
        (Script.wrote ⟨chunks, failure, refusal, tried⟩
          ((c.replies (byte :: rest)).map Frame.encode)) (chunks.length + 1 + spare) = _ := hpoll
    have hreads : (chunk :: chunks).length + 1 + spare = (chunks.length + 1 + spare) + 1 := by
      rw [List.length_cons]
      omega
    refine ⟨answered + more, ?_, ?_⟩
    · dsimp only
      rw [hreads, poll, hread]
      simp only [hserve, hpoll, List.flatMap_cons, hchunk, after_append, replies_append,
        List.map_append]
      rw [← Script.wrote_wrote]
      rfl
    · dsimp only
      rw [List.flatMap_cons, hchunk, replies_append, List.map_append, ← Script.wrote_wrote,
        ← Nat.add_assoc]
      exact hmore.trans (congrArg (· + more) hanswered)

end Callee

/-- A callee at work on scripted links. -/
structure Service (τ : Type) where
  callee : Callee τ
  link : Script
  /-- The sum of what the polls gave. -/
  answered : Nat := 0

namespace Service

variable {τ : Type}

def fresh (d : Directory τ) (device : τ) (refusal : Nat → Option LinkError) : Service τ where
  callee := { directory := d, device }
  link := { refusal }

def attend (s : Service τ) (v : Visit) : Service τ :=
  let (answered, callee, link) := s.callee.poll (s.link.lay v) (v.chunks.length + 1 + v.spare)
  ⟨callee, link, s.answered + answered⟩

def run (s : Service τ) (visits : List Visit) : Service τ := visits.foldl attend s

/-- What holds after polls that took the given bytes. -/
structure Attended (d : Directory τ) (device : τ) (refusal : Nat → Option LinkError) (bytes : Bytes)
    (s : Service τ) : Prop where
  callee : s.callee = Callee.after { directory := d, device } bytes
  refusal : s.link.refusal = refusal
  tried : s.link.tried = (Callee.replies { directory := d, device } bytes).map Frame.encode
  answered : s.answered = s.link.passed

theorem Attended.attend {d : Directory τ} {device : τ} {refusal : Nat → Option LinkError}
    {bytes : Bytes} {s : Service τ} (h : s.Attended d device refusal bytes) (v : Visit) :
    (s.attend v).Attended d device refusal (bytes ++ v.bytes) := by
  obtain ⟨answered, hpoll, hanswered⟩ := s.callee.poll_script (s.link.lay v) v.spare
  replace hpoll : s.callee.poll (s.link.lay v) (v.chunks.length + 1 + v.spare) =
    (answered, s.callee.after v.bytes, _) := hpoll
  replace hanswered : ((s.link.lay v).wrote ((s.callee.replies v.bytes).map Frame.encode)).passed =
    s.link.passed + answered := hanswered
  simp only [Service.attend, hpoll]
  refine ⟨?_, h.refusal, ?_, ?_⟩
  · rw [h.callee, Callee.after_append]
  · rw [Callee.replies_append, List.map_append, ← h.tried, ← h.callee]
    rfl
  · rw [h.answered]
    exact hanswered.symm

theorem attended_run (d : Directory τ) (device : τ) (refusal : Nat → Option LinkError)
    (visits : List Visit) :
    ((fresh d device refusal).run visits).Attended d device refusal
      (visits.flatMap Visit.bytes) := by
  induction visits using List.reverseRecOn with
  | nil => exact ⟨rfl, rfl, rfl, rfl⟩
  | append_singleton visits v ih =>
    rw [List.flatMap_append, List.flatMap_singleton, run, List.foldl_concat]
    exact ih.attend v

/-- Over all polls the handlers of the requests that the whole stream of bytes holds run once each and
in their order, one write is tried for each response, and the polls count the writes that succeed. The
device may be a record of the calls, so what becomes of it tells which handlers ran, how often and on
what. -/
theorem run_dispatches (d : Directory τ) (device : τ) (refusal : Nat → Option LinkError)
    (visits : List Visit) :
    let s := (fresh d device refusal).run visits
    let requests := d.addressed (Parser.delivered (visits.flatMap Visit.bytes))
    s.callee.device = (Directory.serveEach device requests).2 ∧
      s.link.tried = (Directory.serveEach device requests).1.map Frame.encode ∧
      s.answered =
        (List.range s.link.tried.length).countP fun n => (refusal n).isNone := by
  intro s requests
  have attended := attended_run d device refusal visits
  have hserve : d.respondAll device (Parser.delivered (visits.flatMap Visit.bytes)) =
      Directory.serveEach device requests := d.respondAll_eq_serveEach device _
  refine ⟨?_, ?_, ?_⟩
  · rw [attended.callee, ← hserve]
    rfl
  · rw [attended.tried, ← hserve]
    rfl
  · rw [attended.answered, Script.passed, attended.refusal]

end Service

end HalfLink
