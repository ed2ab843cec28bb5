import HalfLink.Call.Callee
import HalfLink.Proofs.Frame.Wire

/-! What the handlers of a directory make of requests that come in one after the other, and the
callee's part in it: it hands the frames it finds to them, each once and in order. -/
namespace HalfLink

/-- A request before it is numbered. -/
abbrev Query := TransactionId × Payload

def requestFrame (n : Nat) (q : Query) : Frame := ⟨.request, q.1, UInt8.ofNat n, q.2⟩

/-- Of 256 requests in a row no two have the same number on the line. -/
theorem ofNat_ne_of_near {m n : Nat} (hlt : m < n) (hnear : n < m + 256) :
    UInt8.ofNat m ≠ UInt8.ofNat n := by
  intro h
  have := congrArg UInt8.toNat h
  simp only [UInt8.toNat_ofNat'] at this
  omega

def requestFrames (asked : List Query) : List Frame := asked.mapIdx requestFrame

theorem requestFrames_concat (asked : List Query) (q : Query) :
    requestFrames (asked ++ [q]) = requestFrames asked ++ [requestFrame asked.length q] :=
  List.mapIdx_concat

theorem take_requestFrames (asked : List Query) (k : Nat) :
    (requestFrames asked).take k = requestFrames (asked.take k) := by
  induction asked using List.reverseRecOn with
  | nil => simp [requestFrames]
  | append_singleton asked q ih =>
    rcases Nat.lt_or_ge k (asked.length + 1) with hk | hk
    · have hlength : k ≤ (requestFrames asked).length := by simp [requestFrames]; omega
      rw [requestFrames_concat, List.take_append_of_le_length hlength, ih,
        List.take_append_of_le_length (by omega)]
    · rw [List.take_of_length_le (by simp [requestFrames]; omega),
        List.take_of_length_le (by simp; omega)]

namespace Directory

variable {τ : Type} (d : Directory τ)

/-- The device after a request, whose handler runs once if there is one. -/
def attend (device : τ) (q : Query) : τ :=
  match d.lookup q.1 with
  | none => device
  | some handler => (handler q.2.toList .empty device).2

def deviceAfter (device : τ) (asked : List Query) : τ := asked.foldl d.attend device

/-- What the handler of request number `n` puts out, if there is a handler. -/
def output (device : τ) (asked : List Query) (n : Nat) : Option Payload :=
  match asked[n]? with
  | none => none
  | some q =>
    (d.lookup q.1).map fun handler =>
      (handler q.2.toList .empty (d.deviceAfter device (asked.take n))).1

def response? (device : τ) (asked : List Query) (n : Nat) : Option Frame :=
  match asked[n]? with
  | none => none
  | some q => (d.output device asked n).map (Frame.response q.1 (UInt8.ofNat n))

theorem seq_of_response? {device : τ} {asked : List Query} {n : Nat} {f : Frame}
    (h : d.response? device asked n = some f) : f.seq = UInt8.ofNat n := by
  unfold response? at h
  split at h
  · cases h
  · obtain ⟨payload, -, rfl⟩ := Option.map_eq_some_iff.mp h
    rfl

/-- The responses to all requests, in their order. -/
def responses (device : τ) (asked : List Query) : List Frame :=
  (List.range asked.length).filterMap (d.response? device asked)

theorem output_append {asked : List Query} {n : Nat} (hn : n < asked.length) (device : τ)
    (more : List Query) : d.output device (asked ++ more) n = d.output device asked n := by
  rw [output, output, List.getElem?_append_left hn, List.take_append_of_le_length hn.le]

theorem response?_append {asked : List Query} {n : Nat} (hn : n < asked.length) (device : τ)
    (more : List Query) : d.response? device (asked ++ more) n = d.response? device asked n := by
  rw [response?, response?, List.getElem?_append_left hn, d.output_append hn]

theorem responses_concat (device : τ) (asked : List Query) (q : Query) :
    d.responses device (asked ++ [q]) = d.responses device asked ++
      (d.response? device (asked ++ [q]) asked.length).toList := by
  have hfront : (List.range asked.length).filterMap (d.response? device (asked ++ [q])) =
      d.responses device asked :=
    List.filterMap_congr fun n hn => d.response?_append (List.mem_range.mp hn) device [q]
  rw [responses, List.length_append, List.length_singleton, List.range_succ, List.filterMap_append,
    hfront]
  rfl

theorem responses_append (device : τ) (asked more : List Query) :
    ∃ fs, d.responses device (asked ++ more) = d.responses device asked ++ fs ∧
      ∀ f ∈ fs, ∃ n, asked.length ≤ n ∧ n < asked.length + more.length ∧
        f.seq = UInt8.ofNat n := by
  induction more using List.reverseRecOn with
  | nil => exact ⟨[], by simp⟩
  | append_singleton more q ih =>
    obtain ⟨fs, hfs, hseq⟩ := ih
    refine ⟨fs ++ (d.response? device (asked ++ more ++ [q]) (asked ++ more).length).toList, ?_, ?_⟩
    · rw [← List.append_assoc, responses_concat, hfs, List.append_assoc]
    · intro f hf
      rcases List.mem_append.mp hf with hf | hf
      · obtain ⟨n, hle, hlt, hn⟩ := hseq f hf
        exact ⟨n, hle, by rw [List.length_append]; omega, hn⟩
      · have hn := d.seq_of_response? (Option.mem_toList.mp hf)
        exact ⟨_, by simp, by simp, hn⟩

theorem respond_of_response {d : Directory τ} {f : Frame} (h : f.kind = .response) (device : τ) :
    d.respond f device = (none, device) := by
  rw [respond, h]

theorem kind_of_respond {device : τ} {f g : Frame} (h : (d.respond f device).1 = some g) :
    g.kind = .response := by
  unfold respond at h
  split at h
  · cases h
  · split at h
    · cases h
    · obtain rfl := Option.some.inj h
      rfl

/-- The responses to frames that are served one after the other, and the device after them. -/
def respondAll (device : τ) : List Frame → List Frame × τ
  | [] => ([], device)
  | f :: fs =>
    let (response?, device) := d.respond f device
    let (responses, device) := respondAll device fs
    (response?.toList ++ responses, device)

theorem respondAll_append (device : τ) (a b : List Frame) :
    d.respondAll device (a ++ b) =
      ((d.respondAll device a).1 ++ (d.respondAll (d.respondAll device a).2 b).1,
        (d.respondAll (d.respondAll device a).2 b).2) := by
  induction a generalizing device with
  | nil => rfl
  | cons f a ih => simp only [List.cons_append, respondAll, ih, List.append_assoc]

theorem respond_request (device : τ) (asked : List Query) (q : Query) :
    d.respond (requestFrame asked.length q) (d.deviceAfter device asked) =
      (d.response? device (asked ++ [q]) asked.length, d.deviceAfter device (asked ++ [q])) := by
  have hq : (asked ++ [q])[asked.length]? = some q := by simp
  have htake : (asked ++ [q]).take asked.length = asked := by simp
  have hafter : d.deviceAfter device (asked ++ [q]) = d.attend (d.deviceAfter device asked) q := by
    simp [deviceAfter]
  simp only [respond, requestFrame, response?, output, hq, htake, hafter, attend]
  cases d.lookup q.1 <;> rfl

/-- Requests that are served in their order get the responses that their handlers put out. -/
theorem respondAll_requestFrames (device : τ) (asked : List Query) :
    d.respondAll device (requestFrames asked) =
      (d.responses device asked, d.deviceAfter device asked) := by
  induction asked using List.reverseRecOn with
  | nil => rfl
  | append_singleton asked q ih =>
    rw [requestFrames_concat, respondAll_append, ih, responses_concat]
    simp only [respondAll, respond_request, List.append_nil]

end Directory

namespace Callee

variable {τ σ : Type} [Link σ]

/-- The responses to the requests that the bytes complete. -/
def replies (c : Callee τ) (bytes : Bytes) : List Frame :=
  (c.directory.respondAll c.device (Parser.frames (c.parser.feedAll bytes).1)).1

def after (c : Callee τ) (bytes : Bytes) : Callee τ :=
  { c with
    device := (c.directory.respondAll c.device (Parser.frames (c.parser.feedAll bytes).1)).2
    parser := (c.parser.feedAll bytes).2 }

@[simp] theorem replies_nil (c : Callee τ) : c.replies [] = [] := rfl

@[simp] theorem after_nil (c : Callee τ) : c.after [] = c := rfl

theorem replies_append (c : Callee τ) (a b : Bytes) :
    c.replies (a ++ b) = c.replies a ++ (c.after a).replies b := by
  simp only [replies, after, Parser.feedAll_append, Parser.frames_append,
    Directory.respondAll_append]

theorem after_append (c : Callee τ) (a b : Bytes) : c.after (a ++ b) = (c.after a).after b := by
  simp only [after, Parser.feedAll_append, Parser.frames_append, Directory.respondAll_append]

/-- Answers frames one after the other; counts the responses that went out. -/
def answerAll (c : Callee τ) (w : σ) : List Frame → Nat × Callee τ × σ
  | [] => (0, c, w)
  | f :: fs =>
    let (sent, c, w) := c.answer f w
    let (answered, c, w) := c.answerAll w fs
    ((if sent then 1 else 0) + answered, c, w)

theorem answer_update (c : Callee τ) (p : Parser) (f : Frame) (w : σ) :
    { c with parser := p }.answer f w =
      ((c.answer f w).1, { (c.answer f w).2.1 with parser := p }, (c.answer f w).2.2) := by
  unfold answer
  dsimp only
  split
  · rfl
  · split
    · rfl
    · split <;> rfl

theorem answerAll_update (c : Callee τ) (p : Parser) (fs : List Frame) (w : σ) :
    { c with parser := p }.answerAll w fs =
      ((c.answerAll w fs).1, { (c.answerAll w fs).2.1 with parser := p },
        (c.answerAll w fs).2.2) := by
  induction fs generalizing c w with
  | nil => rfl
  | cons f fs ih => simp only [answerAll, answer_update, ih]

private theorem frames_cons (answer : Except FrameError (Option Frame))
    (answers : List (Except FrameError (Option Frame))) :
    Parser.frames (answer :: answers) = Parser.frames [answer] ++ Parser.frames answers :=
  Parser.frames_append [answer] answers

theorem serve_eq (c : Callee τ) (w : σ) (bytes : Bytes) :
    c.serve w bytes =
      ((c.answerAll w (Parser.frames (c.parser.feedAll bytes).1)).1,
        { (c.answerAll w (Parser.frames (c.parser.feedAll bytes).1)).2.1 with
          parser := (c.parser.feedAll bytes).2 },
        (c.answerAll w (Parser.frames (c.parser.feedAll bytes).1)).2.2) := by
  induction bytes generalizing c w with
  | nil => rfl
  | cons byte rest ih =>
    rw [serve, Parser.feedAll, frames_cons]
    rcases hfeed : c.parser.feed byte with ⟨answer, p⟩
    have hkeep := answerAll_update c p (Parser.frames (p.feedAll rest).1) w
    rcases answer with e | _ | f
    · simp only [ih, hkeep]
      rfl
    · simp only [ih, hkeep]
      rfl
    · have hanswer := answer_update c p f w
      have hmore := answerAll_update (c.answer f w).2.1 p (Parser.frames (p.feedAll rest).1)
        (c.answer f w).2.2
      simp only [hanswer, ih, hmore]
      rfl

/-- Nothing is answered before a frame's last byte. -/
theorem serve_front {c : Callee τ} {f : Frame} {front part back : Bytes}
    (h : front ++ part ++ back = f.encode) (hne : back ≠ []) (hparser : c.parser = .behind front)
    (w : σ) : c.serve w part = (0, { c with parser := .behind (front ++ part) }, w) := by
  obtain ⟨hframes, hbehind⟩ := Parser.feedAll_front h hne
  rw [serve_eq, hparser, hframes, hbehind]
  rfl

/-- The last byte of a frame has it answered. -/
theorem serve_back {c : Callee τ} {f : Frame} {front back : Bytes} (h : front ++ back = f.encode)
    (hne : back ≠ []) (hparser : c.parser = .behind front) (w : σ) :
    c.serve w back = (if (c.answer f w).1 then 1 else 0,
      { (c.answer f w).2.1 with parser := .idle }, (c.answer f w).2.2) := by
  rw [serve_eq, hparser, Parser.frames_inside h hne, Parser.feedAll_inside h hne]
  rfl

end Callee

end HalfLink
