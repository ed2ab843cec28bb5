import HalfLink.Link.Serial
import HalfLink.Proofs.Call.Handling
import HalfLink.Proofs.Call.Seeking

/-! Two serial ports joined by a cable. What one of them sends stands in the queue of the other at
once, and in its own if it hears itself. How many bytes a port gives at a time is laid down from
outside, so that the bytes may be cut into reads anywhere. -/
namespace HalfLink

structure Cable.End where
  queue : Bytes := []
  /-- Whether the port hears what it sends. -/
  echo : Bool := false
  /-- How often bytes have been taken. -/
  takes : Nat := 0
  /-- The most bytes that can be taken each time. -/
  room : Nat → Nat
  room_pos : ∀ n, 0 < room n

/-- Two ends and a clock. -/
structure Cable where
  clock : Ticks 32 := 0
  near : Cable.End
  far : Cable.End

namespace Cable

namespace End

def arrive (e : End) (bytes : Bytes) : End := { e with queue := e.queue ++ bytes }

def hear (e : End) (bytes : Bytes) : End := if e.echo then e.arrive bytes else e

def take (e : End) (limit : Nat) : Bytes × End :=
  let n := min limit (e.room e.takes)
  (e.queue.take n, { e with queue := e.queue.drop n, takes := e.takes + 1 })

@[simp] theorem queue_arrive (e : End) (bytes : Bytes) : (e.arrive bytes).queue = e.queue ++ bytes :=
  rfl

theorem queue_hear (e : End) (bytes : Bytes) :
    (e.hear bytes).queue = e.queue ∨ (e.hear bytes).queue = e.queue ++ bytes := by
  rw [hear]
  split
  · exact .inr rfl
  · exact .inl rfl

@[simp] theorem arrive_nil (e : End) : e.arrive [] = e := by
  rw [arrive, List.append_nil]

theorem take_append (e : End) (limit : Nat) : (e.take limit).1 ++ (e.take limit).2.queue = e.queue :=
  List.take_append_drop _ _

theorem length_take_le (e : End) (limit : Nat) : (e.take limit).1.length ≤ limit := by
  rw [take, List.length_take]
  omega

theorem take_ne_nil {e : End} {limit : Nat} (hlimit : 0 < limit) (h : e.queue ≠ []) :
    (e.take limit).1 ≠ [] := by
  have hroom := e.room_pos e.takes
  have hlength := List.length_pos_iff.mpr h
  apply List.ne_nil_of_length_pos
  rw [take, List.length_take]
  omega

end End

/-- The same cable from its other end. -/
def swap (c : Cable) : Cable := ⟨c.clock, c.far, c.near⟩

instance : SerialPort Cable where
  transmit bytes c := (.ok (), { c with near := c.near.hear bytes, far := c.far.arrive bytes })
  flush c := (.ok (), c)
  ready c := (.ok (!c.near.queue.isEmpty), c)
  receive limit c := (.ok (c.near.take limit).1, { c with near := (c.near.take limit).2 })
  waiting c := c.near.queue.length
  waiting_ready_le h := by cases h; exact le_rfl
  length_receive_le h := by cases h; exact End.length_take_le _ _
  waiting_receive_lt {limit c bytes c'} h hne := by
    cases h
    have hsplit := congrArg List.length (c.near.take_append limit)
    have hpos := List.length_pos_iff.mpr hne
    rw [List.length_append] at hsplit
    dsimp only
    omega

instance : TickSource Cable where
  readTicks c := c.clock
  writeTicks ticks c := { c with clock := ticks }

theorem write_frame (f : Frame) (c : Cable) :
    Link.write f.encode (⟨c⟩ : SerialLink Cable) =
      (.ok (), ⟨{ c with near := c.near.hear f.encode, far := c.far.arrive f.encode }⟩) := by
  have hsize := Nat.not_lt.mpr f.length_encode_le
  simp only [Link.write, SerialLink.write, if_neg hsize, SerialPort.transmit, SerialPort.flush]

theorem read_empty {c : Cable} (h : c.near.queue = []) :
    Link.read readSize (⟨c⟩ : SerialLink Cable) = (.ok [], ⟨c⟩) := by
  simp [Link.read, SerialLink.read, SerialPort.ready, readSize, h]

/-- What waits is taken from its front, and nothing else changes. -/
theorem read_waiting {c : Cable} (h : c.near.queue ≠ []) :
    ∃ byte chunk near, c.near.queue = byte :: chunk ++ near.queue ∧
      Link.read readSize (⟨c⟩ : SerialLink Cable) = (.ok (byte :: chunk), ⟨{ c with near }⟩) := by
  have hready : (!c.near.queue.isEmpty) = true := by simpa using h
  have htake := End.take_ne_nil (show 0 < readSize by decide) h
  have happend := c.near.take_append readSize
  cases hchunk : (c.near.take readSize).1 with
  | nil => exact absurd hchunk htake
  | cons byte chunk =>
    rw [hchunk] at happend
    refine ⟨byte, chunk, (c.near.take readSize).2, happend.symm, ?_⟩
    have hread : readSize ≠ 0 := by decide
    simp only [Link.read, SerialLink.read, if_neg hread, SerialPort.ready, hready,
      SerialPort.receive, hchunk]

theorem empty_of_nothing {c : Cable}
    (h : ∀ byte chunk, (Link.read readSize (⟨c⟩ : SerialLink Cable)).1 ≠ .ok (byte :: chunk)) :
    c.near.queue = [] := by
  by_contra hqueue
  obtain ⟨byte, chunk, near, -, hread⟩ := read_waiting hqueue
  exact h byte chunk (by rw [hread])

theorem of_reads {c : Cable} {bytes : Bytes} {w : SerialLink Cable} (h : Reads ⟨c⟩ bytes w) :
    ∃ near, w = ⟨{ c with near }⟩ ∧ c.near.queue = bytes ++ near.queue := by
  generalize hw : (⟨c⟩ : SerialLink Cable) = w₀ at h
  induction h generalizing c with
  | refl w₀ => exact ⟨c.near, hw.symm, rfl⟩
  | @more w₀ w₁ w₂ byte chunk bytes hread _ ih =>
    subst hw
    by_cases hqueue : c.near.queue = []
    · rw [read_empty hqueue] at hread
      cases hread
    · obtain ⟨byte', chunk', near, hsplit, hread'⟩ := read_waiting hqueue
      rw [hread'] at hread
      cases hread
      obtain ⟨near', rfl, hrest⟩ := ih rfl
      exact ⟨near', rfl, by rw [hsplit, hrest, List.append_assoc]⟩

end Cable

namespace Caller

variable {c : Caller} {id : TransactionId} {seq : UInt8} {deadline : Ticks 32}

/-- A poll takes what waits and goes on without an answer if it holds none. -/
theorem poll_none (hstate : c.state = .awaiting id seq deadline) {w : Cable}
    (hnone : Parser.answerIn id seq c.parser w.near.queue = none) (response : Bytes) :
    ∃ near, near.queue = [] ∧ c.poll response (⟨w⟩ : SerialLink Cable) =
      { c with parser := (c.parser.feedAll w.near.queue).2 }.checkDeadline deadline response
        ⟨{ w with near }⟩ := by
  obtain ⟨bytes, w', hreads, hend⟩ := poll_awaiting hstate response (⟨w⟩ : SerialLink Cable)
  obtain ⟨near, rfl, hqueue⟩ := Cable.of_reads hreads
  cases hanswer : Parser.answerIn id seq c.parser bytes with
  | some found =>
    obtain ⟨f, rest⟩ := found
    rw [hqueue, Parser.answerIn_append_some hanswer] at hnone
    cases hnone
  | none =>
    rw [hanswer] at hend
    obtain ⟨hpoll, hnothing⟩ := hend
    have hempty : near.queue = [] := Cable.empty_of_nothing hnothing
    rw [Cable.read_empty hempty] at hpoll
    rw [hempty, List.append_nil] at hqueue
    rw [hqueue]
    exact ⟨near, hempty, hpoll⟩

/-- A poll completes with an answer that ends what waits. -/
theorem poll_answer (hstate : c.state = .awaiting id seq deadline) {w : Cable} {f : Frame}
    (hanswer : Parser.answerIn id seq c.parser w.near.queue = some (f, [])) (response : Bytes) :
    ∃ near parser, near.queue = [] ∧ c.poll response (⟨w⟩ : SerialLink Cable) =
      { c with parser }.complete f response ⟨{ w with near }⟩ := by
  obtain ⟨bytes, w', hreads, hend⟩ := poll_awaiting hstate response (⟨w⟩ : SerialLink Cable)
  obtain ⟨near, rfl, hqueue⟩ := Cable.of_reads hreads
  cases hfound : Parser.answerIn id seq c.parser bytes with
  | some found =>
    obtain ⟨g, rest⟩ := found
    rw [hfound] at hend
    obtain ⟨parser, hpoll⟩ := hend
    rw [hqueue, Parser.answerIn_append_some hfound] at hanswer
    obtain ⟨rfl, hrest⟩ := Prod.mk.inj (Option.some.inj hanswer)
    exact ⟨near, parser, (List.append_eq_nil_iff.mp hrest).2, hpoll⟩
  | none =>
    rw [hfound] at hend
    obtain ⟨-, hnothing⟩ := hend
    have hempty : near.queue = [] := Cable.empty_of_nothing hnothing
    rw [hqueue, hempty, List.append_nil, hfound] at hanswer
    cases hanswer

end Caller

namespace Callee

variable {τ : Type}

theorem poll_empty (c : Callee τ) {w : Cable} (h : w.near.queue = []) (reads : Nat) :
    c.poll (⟨w⟩ : SerialLink Cable) reads = (0, c, ⟨w⟩) := by
  cases reads with
  | zero => rfl
  | succ reads => rw [poll, Cable.read_empty h]

/-- A poll that finds the rest of a frame takes it all, answers the frame and looks again. -/
theorem poll_frame {c : Callee τ} {f : Frame} {front : Bytes} {w : Cable} {reads : Nat}
    (h : front ++ w.near.queue = f.encode) (hne : w.near.queue ≠ [])
    (hparser : c.parser = .behind front) (hreads : w.near.queue.length ≤ reads) :
    ∃ near left, near.queue = [] ∧ reads ≤ left + w.near.queue.length ∧
      c.poll (⟨w⟩ : SerialLink Cable) reads =
        let (sent, c, w) := c.answer f (⟨{ w with near }⟩ : SerialLink Cable)
        let (more, c, w) := { c with parser := .idle }.poll w left
        ((if sent then 1 else 0) + more, c, w) := by
  induction reads generalizing c front w with
  | zero => exact absurd (List.length_eq_zero_iff.mp (Nat.le_zero.mp hreads)) hne
  | succ reads ih =>
    obtain ⟨byte, chunk, near, hsplit, hread⟩ := Cable.read_waiting hne
    have hlength := congrArg List.length hsplit
    rw [List.length_append, List.length_cons] at hlength
    -- The callee writes at the frame's last byte only, and nothing stands behind that.
    by_cases hend : near.queue = []
    · rw [hend, List.append_nil] at hsplit
      refine ⟨near, reads, hend, by omega, ?_⟩
      rw [hsplit] at h
      have hserve := serve_back h (List.cons_ne_nil _ _) hparser
        (⟨{ w with near }⟩ : SerialLink Cable)
      simp only [poll, hread, hserve]
    · have hwhole : front ++ (byte :: chunk) ++ near.queue = f.encode := by
        rw [List.append_assoc, ← hsplit, h]
      have hserve := serve_front hwhole hend hparser (⟨{ w with near }⟩ : SerialLink Cable)
      obtain ⟨near', left, hempty, hleft, hpoll⟩ :=
        ih (c := { c with parser := .behind (front ++ byte :: chunk) })
          (w := { w with near }) hwhole hend rfl (by dsimp only; omega)
      refine ⟨near', left, hempty, by dsimp only at hleft; omega, ?_⟩
      simp only [poll, hread, hserve, hpoll, Nat.zero_add, answer_update]

/-- What the callee hears of its own response does nothing. -/
theorem poll_echo {c : Callee τ} {g : Frame} {w : Cable} {reads : Nat} (hkind : g.kind = .response)
    (hparser : c.parser = .idle) (hqueue : w.near.queue = []) (hreads : maxFrameSize ≤ reads) :
    ∃ near, near.queue = [] ∧
      c.poll (⟨{ w with near := w.near.hear g.encode }⟩ : SerialLink Cable) reads =
        (0, c, ⟨{ w with near }⟩) := by
  rw [Cable.End.hear]
  split
  · have hheard : (w.near.arrive g.encode).queue = g.encode := by
      rw [Cable.End.queue_arrive, hqueue, List.nil_append]
    have hsize := g.length_encode_le.trans hreads
    rw [← hheard] at hsize
    have hne : (w.near.arrive g.encode).queue ≠ [] := by
      rw [hheard]
      exact g.encode_ne_nil
    obtain ⟨directory, device, parser⟩ := c
    obtain rfl : parser = .idle := hparser
    obtain ⟨near, left, hempty, -, hpoll⟩ := poll_frame (c := ⟨directory, device, .idle⟩)
      (w := { w with near := w.near.arrive g.encode }) ((List.nil_append _).trans hheard) hne rfl
      hsize
    have hrest := poll_empty ⟨directory, device, .idle⟩ (w := { w with near }) hempty left
    refine ⟨near, hempty, ?_⟩
    simp only [hpoll, answer, Directory.respond_of_response hkind, hrest]
    rfl
  · exact ⟨w.near, hqueue, c.poll_empty hqueue reads⟩

/-- A request that waits alone is answered if its id has a handler. -/
theorem poll_request {c : Callee τ} {f : Frame} {w : Cable} {reads : Nat} {response? : Option Frame}
    {device : τ} (hqueue : w.near.queue = f.encode) (hparser : c.parser = .idle)
    (hrespond : c.directory.respond f c.device = (response?, device))
    (hreads : 2 * maxFrameSize < reads) :
    ∃ near, near.queue = [] ∧ c.poll (⟨w⟩ : SerialLink Cable) reads =
      (if response?.isSome then 1 else 0, { c with device },
        ⟨{ w with near, far := w.far.arrive (wire response?.toList) }⟩) := by
  have hsize := f.length_encode_le
  have henough : w.near.queue.length ≤ reads := by
    rw [hqueue]
    omega
  have hne : w.near.queue ≠ [] := hqueue ▸ f.encode_ne_nil
  obtain ⟨directory, before, parser⟩ := c
  obtain rfl : parser = .idle := hparser
  obtain ⟨near, left, hempty, hleft, hpoll⟩ :=
    poll_frame (c := ⟨directory, before, .idle⟩) ((List.nil_append _).trans hqueue) hne rfl henough
  rw [hqueue] at hleft
  cases response? with
  | none =>
    have hrest := poll_empty ⟨directory, device, .idle⟩ (w := { w with near }) hempty left
    refine ⟨near, hempty, ?_⟩
    simp only [hpoll, answer, hrespond, hrest, Option.toList_none, wire_nil,
      Cable.End.arrive_nil]
    rfl
  | some g =>
    have hkind := directory.kind_of_respond (congrArg Prod.fst hrespond)
    have hroom : maxFrameSize ≤ left := by omega
    obtain ⟨near', hempty', hecho⟩ := poll_echo (c := ⟨directory, device, .idle⟩)
      (w := { w with near, far := w.far.arrive g.encode }) hkind rfl hempty hroom
    refine ⟨near', hempty', ?_⟩
    simp only [hpoll, answer, hrespond, Frame.toBuffer_eq, Cable.write_frame, hecho,
      Option.toList_some, wire_cons, wire_nil, List.append_nil]
    rfl

end Callee

end HalfLink
