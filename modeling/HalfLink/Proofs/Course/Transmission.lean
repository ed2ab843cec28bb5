import HalfLink.Bench.Board
import HalfLink.Proofs.Course.Basic

/-! What the halves hand to their serial ports: whole frames and nothing else. Those of a caller are
its requests in the order in which they were tried, numbered without a gap, and those of a callee are
the responses to what it has received. -/
namespace HalfLink

/-- A serial port with a record of what passes it. -/
structure Monitor (π : Type) where
  port : π
  /-- The buffers that were handed to the port, with those that it failed to send. -/
  sent : List Bytes := []
  received : Bytes := []
deriving DecidableEq, Repr

namespace Monitor

variable {π ε : Type}

/-- What happens to the port behind a record of it. -/
def happen (happen : ε → π → π) (e : ε) (w : SerialLink (Monitor π)) : SerialLink (Monitor π) :=
  ⟨{ w.port with port := happen e w.port.port }⟩

/-- All that has passed in between is that buffers were handed to the port. -/
structure Wrote (buffers : List Bytes) (m m' : Monitor π) : Prop where
  sent : m'.sent = m.sent ++ buffers
  received : m'.received = m.received

theorem Wrote.refl (m : Monitor π) : Wrote [] m m := ⟨(List.append_nil _).symm, rfl⟩

theorem Wrote.trans {a b : List Bytes} {m₁ m₂ m₃ : Monitor π} (h : Wrote a m₁ m₂)
    (h' : Wrote b m₂ m₃) : Wrote (a ++ b) m₁ m₃ :=
  ⟨by rw [h'.sent, h.sent, List.append_assoc], h'.received.trans h.received⟩

variable [SerialPort π]

def transmit (bytes : Bytes) (m : Monitor π) : Except SerialFault Unit × Monitor π :=
  let (result, port) := SerialPort.transmit bytes m.port
  (result, { m with port, sent := m.sent ++ [bytes] })

def flush (m : Monitor π) : Except SerialFault Unit × Monitor π :=
  let (result, port) := SerialPort.flush m.port
  (result, { m with port })

def ready (m : Monitor π) : Except SerialFault Bool × Monitor π :=
  let (result, port) := SerialPort.ready m.port
  (result, { m with port })

def receive (limit : Nat) (m : Monitor π) : Except SerialFault Bytes × Monitor π :=
  match SerialPort.receive limit m.port with
  | (.ok bytes, port) => (.ok bytes, { m with port, received := m.received ++ bytes })
  | (.error e, port) => (.error e, { m with port })

theorem receive_ok {limit : Nat} {m m' : Monitor π} {bytes : Bytes}
    (h : m.receive limit = (.ok bytes, m')) :
    SerialPort.receive limit m.port = (.ok bytes, m'.port) ∧ m'.sent = m.sent ∧
      m'.received = m.received ++ bytes := by
  unfold receive at h
  split at h
  · rename_i hreceive
    cases h
    exact ⟨hreceive, rfl, rfl⟩
  · cases h

instance : SerialPort (Monitor π) where
  transmit := transmit
  flush := flush
  ready := ready
  receive := receive
  waiting m := SerialPort.waiting m.port
  waiting_ready_le {m answer m'} h := by
    obtain ⟨hready, rfl⟩ := Prod.mk.inj h
    exact SerialPort.waiting_ready_le (w := m.port) rfl
  length_receive_le h := SerialPort.length_receive_le (receive_ok h).1
  waiting_receive_lt h hne := SerialPort.waiting_receive_lt (receive_ok h).1 hne

instance [TickSource π] : TickSource (Monitor π) where
  readTicks m := readTicks m.port
  writeTicks ticks m := { m with port := writeTicks ticks m.port }

theorem wrote_transmit (bytes : Bytes) (m : Monitor π) :
    Wrote [bytes] m (SerialPort.transmit bytes m).2 := ⟨rfl, rfl⟩

theorem wrote_flush (m : Monitor π) : Wrote [] m (SerialPort.flush m).2 :=
  ⟨(List.append_nil _).symm, rfl⟩

theorem wrote_ready (m : Monitor π) : Wrote [] m (SerialPort.ready m).2 :=
  ⟨(List.append_nil _).symm, rfl⟩

theorem receive_error {limit : Nat} {m m' : Monitor π} {e : SerialFault}
    (h : SerialPort.receive limit m = (.error e, m')) : Wrote [] m m' := by
  change m.receive limit = _ at h
  unfold receive at h
  split at h
  · cases h
  · cases h
    exact ⟨(List.append_nil _).symm, rfl⟩

end Monitor

namespace SerialLink

/-- A frame makes its way to the port: it fits its buffer, and the link does not refuse it. -/
structure Passes {π : Type} [SerialPort π] (f : Frame) (w : SerialLink π) : Prop where
  buffer : ∃ wire, f.toBuffer = .ok wire ∧ wire.toList = f.encode
  link : (write f.encode w).1 ≠ .error .oversized

variable {π : Type} [SerialPort π]

theorem passes (f : Frame) (w : SerialLink π) : Passes f w := by
  refine ⟨⟨_, f.toBuffer_eq, rfl⟩, ?_⟩
  rw [write, if_neg (Nat.not_lt.mpr f.length_encode_le)]
  split
  · simp
  · split <;> simp

/-- A frame that is written is handed to the port, whatever becomes of it. -/
theorem write_monitor (f : Frame) (w : SerialLink (Monitor π)) :
    Monitor.Wrote [f.encode] w.port (Link.write f.encode w).2.port := by
  change Monitor.Wrote [f.encode] w.port (write f.encode w).2.port
  rw [write, if_neg (Nat.not_lt.mpr f.length_encode_le)]
  have hm := Monitor.wrote_transmit f.encode w.port
  split <;> rename_i m htransmit <;> rw [htransmit] at hm
  · exact hm
  · have hm' := Monitor.wrote_flush m
    split <;> rename_i hflush <;> rw [hflush] at hm' <;> exact hm.trans hm'

/-- A read leaves what was sent as it is, and records what it gives. -/
theorem read_monitor (limit : Nat) (w : SerialLink (Monitor π)) :
    (Link.read limit w).2.port.sent = w.port.sent ∧
      (Link.read limit w).2.port.received =
        w.port.received ++ (Link.read limit w).1.toOption.getD [] := by
  have hquiet : ∀ {m : Monitor π}, Monitor.Wrote [] w.port m →
      m.sent = w.port.sent ∧ m.received = w.port.received ++ [] :=
    fun hm => ⟨hm.sent.trans (List.append_nil _), hm.received.trans (List.append_nil _).symm⟩
  change (read limit w).2.port.sent = _ ∧ (read limit w).2.port.received =
    _ ++ (read limit w).1.toOption.getD []
  unfold read
  split
  · exact hquiet (.refl _)
  · have hm := Monitor.wrote_ready w.port
    split <;> rename_i m hready <;> rw [hready] at hm
    · exact hquiet hm
    · exact hquiet hm
    · split
      · rename_i hreceive
        exact hquiet (hm.trans (Monitor.receive_error hreceive))
      · rename_i hreceive
        obtain ⟨-, hsent, hreceived⟩ := Monitor.receive_ok hreceive
        exact ⟨hsent.trans (hquiet hm).1, hreceived.trans (by rw [hm.received]; rfl)⟩

end SerialLink

namespace Caller.Deed

variable {π : Type} [SerialPort π] [TickSource π]

/-- The requests that passed the checks, in their order. -/
def queries {σ : Type} [Link σ] [TickSource σ] (deeds : List (Deed σ)) : List Query :=
  deeds.filterMap query?

/-- A request that passed the checks makes a frame that reaches the port: no failure before the port's
own is left. -/
theorem passes_of_query? {d : Deed (SerialLink π)} {q : Query} (h : d.query? = some q) :
    Frame.request q.1 d.caller.nextSeq q.2.toList = .ok (d.frame q) ∧
      SerialLink.Passes (d.frame q) d.world ∧
      (d.outcome = none ∨ d.outcome = some (.error .link)) := by
  refine ⟨?_, SerialLink.passes _ _, (asked h).2.1⟩
  simp [Frame.request, Frame.make, Buffer.ofList?, q.2.length_le, frame]

/-- An act hands the frame of its request to the port and counts it, or it does neither. -/
theorem hands (d : Deed (SerialLink (Monitor π))) :
    d.left.port.sent = d.world.port.sent ++ (d.query?.toList.map fun q => (d.frame q).encode) ∧
      d.next.nextSeq = d.caller.nextSeq + UInt8.ofNat d.query?.toList.length := by
  cases hquery : d.query? with
  | none =>
    obtain ⟨hsent, hseq⟩ := unasked hquery
      (P := fun w : SerialLink (Monitor π) => w.port.sent = d.world.port.sent)
      (fun w hw => (SerialLink.read_monitor _ w).1.trans hw) rfl
    exact ⟨hsent.trans (List.append_nil _).symm, hseq.trans (UInt8.add_zero _).symm⟩
  | some q =>
    obtain ⟨-, -, hleft, hseq⟩ := asked hquery
    rw [hleft]
    exact ⟨(SerialLink.write_monitor _ _).sent, hseq⟩

end Caller.Deed

namespace Course

open Caller

variable {π ε : Type} [SerialPort π] [TickSource π] {s : Settings} {c : Caller}

/-- The port was handed the frames of the requests that passed the checks, and the next number is how
many these are. -/
structure Numbered (r : Course (SerialLink (Monitor π))) : Prop where
  sent : r.world.port.sent = (requestFrames (Deed.queries r.deeds)).map Frame.encode
  nextSeq : r.caller.nextSeq = UInt8.ofNat (Deed.queries r.deeds).length

theorem kept_numbered (happen : ε → π → π) :
    Kept (Monitor.happen happen) (Numbered (π := π)) := by
  refine ⟨fun r a h => ?_, fun r e h => ⟨h.sent, h.nextSeq⟩⟩
  obtain ⟨hsent, hseq⟩ := (⟨r.caller, r.world, a⟩ : Deed (SerialLink (Monitor π))).hands
  have hqueries : Deed.queries (r.act a).deeds =
      Deed.queries r.deeds ++ (⟨r.caller, r.world, a⟩ : Deed _).query?.toList := by
    simp only [Course.act, Deed.queries, List.filterMap_append, List.filterMap_cons,
      List.filterMap_nil]
    cases (⟨r.caller, r.world, a⟩ : Deed (SerialLink (Monitor π))).query? <;> rfl
  refine ⟨?_, ?_⟩
  · rw [hqueries]
    refine hsent.trans ?_
    rw [h.sent]
    cases (⟨r.caller, r.world, a⟩ : Deed (SerialLink (Monitor π))).query? with
    | none => simp
    | some q =>
      simp [requestFrames_concat, Deed.frame, requestFrame, h.nextSeq]
  · rw [hqueries]
    refine hseq.trans ?_
    rw [h.nextSeq, List.length_append, UInt8.ofNat_add]

theorem numbered_fresh (h : Caller.ofSettings s = .ok c) (w : π) :
    Numbered (fresh c (⟨{ port := w }⟩ : SerialLink (Monitor π))) := by
  obtain rfl := Caller.eq_of_ofSettings h
  exact ⟨rfl, rfl⟩

end Course

namespace Directory

variable {τ : Type}

theorem kind_of_respondAll (d : Directory τ) (device : τ) (fs : List Frame) :
    ∀ f ∈ (d.respondAll device fs).1, f.kind = .response := by
  induction fs generalizing device with
  | nil => simp [respondAll]
  | cons f fs ih =>
    intro g hg
    simp only [respondAll, List.mem_append, Option.mem_toList] at hg
    rcases hg with hg | hg
    · exact d.kind_of_respond hg
    · exact ih _ g hg

end Directory

namespace Callee

variable {τ π ε : Type} [SerialPort π]

theorem answer_monitor (c : Callee τ) (f : Frame) (w : SerialLink (Monitor π)) :
    (c.answer f w).2.1 = { c with device := (c.directory.respond f c.device).2 } ∧
      Monitor.Wrote ((c.directory.respond f c.device).1.toList.map Frame.encode) w.port
        (c.answer f w).2.2.port := by
  rcases hrespond : c.directory.respond f c.device with ⟨_ | response, device⟩
  · simp only [answer, hrespond]
    exact ⟨trivial, .refl _⟩
  · have hwrote := SerialLink.write_monitor response w
    simp only [answer, hrespond, Frame.toBuffer_eq]
    split <;> rename_i hwrite <;> rw [hwrite] at hwrote <;> exact ⟨rfl, hwrote⟩

theorem answerAll_monitor (c : Callee τ) (fs : List Frame) (w : SerialLink (Monitor π)) :
    (c.answerAll w fs).2.1 = { c with device := (c.directory.respondAll c.device fs).2 } ∧
      Monitor.Wrote ((c.directory.respondAll c.device fs).1.map Frame.encode) w.port
        (c.answerAll w fs).2.2.port := by
  induction fs generalizing c w with
  | nil => exact ⟨rfl, .refl _⟩
  | cons f fs ih =>
    obtain ⟨hcallee, hwrote⟩ := c.answer_monitor f w
    obtain ⟨hrest, hwrotes⟩ := ih (c.answer f w).2.1 (c.answer f w).2.2
    rw [hcallee] at hrest hwrotes
    simp only [answerAll, Directory.respondAll, List.map_append]
    exact ⟨by rw [hcallee, hrest], hwrote.trans (by rw [hcallee]; exact hwrotes)⟩

theorem serve_monitor (c : Callee τ) (bytes : Bytes) (w : SerialLink (Monitor π)) :
    (c.serve w bytes).2.1 = c.after bytes ∧
      Monitor.Wrote ((c.replies bytes).map Frame.encode) w.port (c.serve w bytes).2.2.port := by
  obtain ⟨hcallee, hwrote⟩ := c.answerAll_monitor (Parser.frames (c.parser.feedAll bytes).1) w
  rw [serve_eq, hcallee]
  exact ⟨rfl, hwrote⟩

/-- What happens to a callee and its port. -/
inductive Op (ε : Type)
  /-- A poll of at most `reads` reads. -/
  | poll (reads : Nat)
  | event (e : ε)
deriving DecidableEq, Repr

def step {σ : Type} [Link σ] (happen : ε → σ → σ) (s : Callee τ × σ) : Op ε → Callee τ × σ
  | .poll reads => (s.1.poll s.2 reads).2
  | .event e => (s.1, happen e s.2)

def run {σ : Type} [Link σ] (happen : ε → σ → σ) (s : Callee τ × σ) (ops : List (Op ε)) :
    Callee τ × σ :=
  ops.foldl (step happen) s

/-- The callee has served all that was received, and the port was handed the responses. -/
structure Replied (fresh : Callee τ) (s : Callee τ × SerialLink (Monitor π)) : Prop where
  callee : s.1 = fresh.after s.2.port.received
  sent : s.2.port.sent = (fresh.replies s.2.port.received).map Frame.encode

theorem Replied.poll {fresh c : Callee τ} {w : SerialLink (Monitor π)} (h : Replied fresh (c, w))
    (reads : Nat) : Replied fresh (c.poll w reads).2 := by
  induction reads generalizing c w with
  | zero => exact h
  | succ reads ih =>
    obtain ⟨hsent, hreceived⟩ := SerialLink.read_monitor readSize w
    have hquiet : ∀ {w' : SerialLink (Monitor π)}, w'.port.sent = w.port.sent →
        w'.port.received = w.port.received ++ [] → Replied fresh (c, w') := by
      intro w' hsent hreceived
      rw [List.append_nil] at hreceived
      exact ⟨by rw [hreceived]; exact h.callee, by rw [hsent, hreceived]; exact h.sent⟩
    unfold Callee.poll
    split <;> rename_i w' hread <;> rw [hread] at hsent hreceived
    · exact hquiet hsent hreceived
    · exact hquiet hsent hreceived
    · rename_i byte rest
      obtain ⟨hcallee, hwrote⟩ := c.serve_monitor (byte :: rest) w'
      refine ih ⟨?_, ?_⟩
      · rw [hcallee, hwrote.received, hreceived, Callee.after_append, ← h.callee]
        rfl
      · rw [hwrote.sent, hwrote.received, hsent, hreceived, Callee.replies_append, ← h.callee,
          List.map_append, ← h.sent]
        rfl

theorem Replied.run {fresh : Callee τ} (happen : ε → π → π)
    {s : Callee τ × SerialLink (Monitor π)} (h : Replied fresh s) (ops : List (Op ε)) :
    Replied fresh (Callee.run (Monitor.happen happen) s ops) := by
  induction ops generalizing s with
  | nil => exact h
  | cons op ops ih =>
    cases op with
    | poll reads => exact ih (h.poll reads)
    | event e => exact ih ⟨h.callee, h.sent⟩

end Callee

theorem seq_ne_of_near {asked : List Query} {m n : Nat} {f g : Frame} (hlt : m < n)
    (hnear : n < m + 256) (hf : (requestFrames asked)[m]? = some f)
    (hg : (requestFrames asked)[n]? = some g) : f.seq ≠ g.seq := by
  have hseq : ∀ {k : Nat} {e : Frame}, (requestFrames asked)[k]? = some e →
      e.seq = UInt8.ofNat k := by
    intro k e he
    rw [requestFrames, List.getElem?_mapIdx, Option.map_eq_some_iff] at he
    obtain ⟨q, -, rfl⟩ := he
    rfl
  rw [hseq hf, hseq hg]
  exact ofNat_ne_of_near hlt hnear

/-- The port of a caller was handed the frames of the requests that passed the checks, one buffer
each, and each of these requests could only fail at the port. -/
structure Course.SendsRequests {π : Type} [SerialPort π] [TickSource π]
    (r : Course (SerialLink (Monitor π))) : Prop where
  /-- Request `n` has the number `n` modulo 256. -/
  sent : r.world.port.sent = (requestFrames (Caller.Deed.queries r.deeds)).map Frame.encode
  numbers : ∀ m n f g, m < n → n < m + 256 →
    (requestFrames (Caller.Deed.queries r.deeds))[m]? = some f →
    (requestFrames (Caller.Deed.queries r.deeds))[n]? = some g → f.seq ≠ g.seq
  passes : ∀ d ∈ r.deeds, ∀ q, d.query? = some q →
    Frame.request q.1 d.caller.nextSeq q.2.toList = .ok (d.frame q) ∧
      SerialLink.Passes (d.frame q) d.world ∧ (d.outcome = none ∨ d.outcome = some (.error .link))

/-- The port of a callee that was fresh was handed the responses to the requests among what it gave,
one buffer each. -/
structure Callee.SendsResponses {τ π : Type} [SerialPort π] (fresh : Callee τ) (m : Monitor π) :
    Prop where
  sent : m.sent = (fresh.replies m.received).map Frame.encode
  kind : ∀ f ∈ fresh.replies m.received, f.kind = .response
  passes : ∀ f ∈ fresh.replies m.received, ∀ w : SerialLink (Monitor π), SerialLink.Passes f w

namespace Monitor

open Caller

variable {τ π ε : Type} [SerialPort π] [TickSource π]

/-- Whatever a port does and whatever is asked of the halves, the buffers handed to it are whole
frames: the requests of a caller, numbered without a gap, or the responses of a callee. -/
theorem run_sends_frames (happen : ε → π → π) (w : π) :
    (∀ (s : Settings) (c : Caller) (ops : List (Caller.Op ε)), Caller.ofSettings s = .ok c →
      ((Course.fresh c (⟨{ port := w }⟩ : SerialLink (Monitor π))).run
        (Monitor.happen happen) ops).SendsRequests) ∧
      ∀ (directory : Directory τ) (device : τ) (ops : List (Callee.Op ε)),
        Callee.SendsResponses { directory, device }
          (Callee.run (Monitor.happen happen) ({ directory, device }, ⟨{ port := w }⟩)
            ops).2.port := by
  refine ⟨fun s c ops h => ?_, fun directory device ops => ?_⟩
  · have hnumbered := (Course.kept_numbered happen).run (Course.numbered_fresh h w) ops
    exact ⟨hnumbered.sent, fun m n f g hlt hnear hf hg => seq_ne_of_near hlt hnear hf hg,
      fun d _ q hq => Deed.passes_of_query? hq⟩
  · have hfresh : Callee.Replied (π := π) { directory, device }
        ({ directory, device }, ⟨{ port := w }⟩) := ⟨rfl, rfl⟩
    have hreplied := hfresh.run happen ops
    exact ⟨hreplied.sent, directory.kind_of_respondAll _ _, fun f _ => SerialLink.passes f⟩

/-- The port refuses the first request and fails to flush the second: both keep their numbers, and the
third goes out with the next. -/
theorem failed_writes_numbered :
    let board : Bench.Board := { near := { fates := [.refused, .unflushed] } }
    let ops : List (Caller.Op Bench.Event) :=
      [.start ⟨0x10⟩ [0x01], .start ⟨0x11⟩ [], .event (.advance 5), .start ⟨0x12⟩ [0x02, 0x03]]
    let r := (Course.fresh .plain (⟨{ port := board }⟩ : SerialLink (Monitor Bench.Board))).run
      (Monitor.happen fun e b => b.happen e) ops
    Caller.ofSettings {} = .ok .plain ∧
      r.deeds.map Deed.outcome = [some (.error .link), some (.error .link), none] ∧
      r.world.port.sent =
        [[0xAA, 0x01, 0x01, 0x10, 0x00, 0x01, 0x11], [0xAA, 0x00, 0x01, 0x11, 0x01, 0x11],
          [0xAA, 0x02, 0x01, 0x12, 0x02, 0x02, 0x03, 0x12]] := by
  intro board ops r
  have hsends : r.SendsRequests :=
    (run_sends_frames (τ := Unit) (fun (e : Bench.Event) (b : Bench.Board) => b.happen e) board).1
      {} .plain ops Caller.ofSettings_default
  have hqueries : Deed.queries r.deeds =
      [(⟨0x10⟩, ⟨[0x01], by decide⟩), (⟨0x11⟩, ⟨[], by decide⟩),
        (⟨0x12⟩, ⟨[0x02, 0x03], by decide⟩)] := by
    decide +kernel
  have hsent := hsends.sent
  rw [hqueries] at hsent
  exact ⟨Caller.ofSettings_default, by decide +kernel, hsent.trans (by decide)⟩

end Monitor

end HalfLink
