import HalfLink.Call.Caller
import HalfLink.Proofs.Frame.Wire

/-! How the caller finds its answer: it takes the first answering frame that its parser gives, however
the bytes are cut into reads. -/
namespace HalfLink

namespace Parser

variable {id : TransactionId} {seq : UInt8}

/-- The first frame that answers request number `seq` of `id`, and the bytes behind it. -/
def answerIn (id : TransactionId) (seq : UInt8) (p : Parser) : Bytes → Option (Frame × Bytes)
  | [] => none
  | byte :: rest =>
    match p.feed byte with
    | (.ok (some f), p') => if f.answers id seq then some (f, rest) else answerIn id seq p' rest
    | (_, p') => answerIn id seq p' rest

theorem answerIn_cons_none {p p' : Parser} {byte : UInt8} (rest : Bytes)
    (h : p.feed byte = (.ok none, p')) : answerIn id seq p (byte :: rest) = answerIn id seq p' rest := by
  rw [answerIn, h]

theorem answerIn_cons_frame {p p' : Parser} {byte : UInt8} {f : Frame} (rest : Bytes)
    (h : p.feed byte = (.ok (some f), p')) :
    answerIn id seq p (byte :: rest) =
      if f.answers id seq then some (f, rest) else answerIn id seq p' rest := by
  rw [answerIn, h]

theorem answerIn_append (p : Parser) (a b : Bytes) :
    answerIn id seq p (a ++ b) =
      match answerIn id seq p a with
      | some (f, rest) => some (f, rest ++ b)
      | none => answerIn id seq (p.feedAll a).2 b := by
  induction a generalizing p with
  | nil => rfl
  | cons byte rest ih =>
    simp only [List.cons_append, answerIn, feedAll]
    rcases p.feed byte with ⟨_ | _ | f, p'⟩
    · exact ih p'
    · exact ih p'
    · dsimp only
      split
      · rfl
      · exact ih p'

theorem answerIn_append_none {p : Parser} {a : Bytes} (h : answerIn id seq p a = none) (b : Bytes) :
    answerIn id seq p (a ++ b) = answerIn id seq (p.feedAll a).2 b := by
  rw [answerIn_append, h]

theorem answerIn_append_some {p : Parser} {a rest : Bytes} {f : Frame}
    (h : answerIn id seq p a = some (f, rest)) (b : Bytes) :
    answerIn id seq p (a ++ b) = some (f, rest ++ b) := by
  rw [answerIn_append, h]

/-- An answer is one of the frames that the parser gives. -/
theorem mem_frames_of_answerIn {p : Parser} {bytes rest : Bytes} {f : Frame}
    (h : answerIn id seq p bytes = some (f, rest)) :
    f ∈ frames (p.feedAll bytes).1 ∧ f.answers id seq := by
  induction bytes generalizing p with
  | nil => cases h
  | cons byte tail ih =>
    rw [answerIn] at h
    rw [feedAll]
    rcases hfeed : p.feed byte with ⟨_ | _ | g, p'⟩ <;> rw [hfeed] at h
    · exact ih h
    · exact ih h
    · by_cases hanswers : g.answers id seq
      · simp only [hanswers, if_true] at h
        obtain ⟨rfl, rfl⟩ := Prod.mk.inj (Option.some.inj h)
        exact ⟨List.mem_cons_self, hanswers⟩
      · simp only [hanswers] at h
        obtain ⟨hmem, hf⟩ := ih h
        exact ⟨List.mem_cons_of_mem g hmem, hf⟩

theorem seek_of_none {p : Parser} {bytes : Bytes} (h : answerIn id seq p bytes = none) :
    seek id seq p bytes = (none, (p.feedAll bytes).2) := by
  induction bytes generalizing p with
  | nil => rfl
  | cons byte rest ih =>
    rw [answerIn] at h
    rw [seek, feedAll]
    rcases hfeed : p.feed byte with ⟨_ | _ | f, p'⟩ <;> rw [hfeed] at h
    · exact ih h
    · exact ih h
    · by_cases hanswers : f.answers id seq
      · simp [hanswers] at h
      · simp only [hanswers] at h ⊢
        exact ih h

theorem seek_of_some {p : Parser} {bytes rest : Bytes} {f : Frame}
    (h : answerIn id seq p bytes = some (f, rest)) : (seek id seq p bytes).1 = some f := by
  induction bytes generalizing p with
  | nil => cases h
  | cons byte tail ih =>
    rw [answerIn] at h
    rw [seek]
    rcases hfeed : p.feed byte with ⟨_ | _ | g, p'⟩ <;> rw [hfeed] at h
    · exact ih h
    · exact ih h
    · by_cases hanswers : g.answers id seq
      · simp only [hanswers, if_true] at h ⊢
        exact congrArg (Option.map Prod.fst) h
      · simp only [hanswers] at h ⊢
        exact ih h

/-- Bytes without a start byte leave a parser idle, and no answer is found in them. -/
theorem answerIn_quiet {bytes : Bytes} (h : frameStart ∉ bytes) (rest : Bytes) :
    answerIn id seq idle (bytes ++ rest) = answerIn id seq idle rest := by
  induction bytes with
  | nil => rfl
  | cons byte tail ih =>
    have hbyte : byte ≠ frameStart := Ne.symm (List.ne_of_not_mem_cons h)
    rw [List.cons_append, answerIn_cons_none _ (feed_idle_of_ne hbyte),
      ih (List.not_mem_of_not_mem_cons h)]

/-- A whole frame is the answer or goes by. -/
theorem answerIn_inside {f : Frame} {front back : Bytes} (h : front ++ back = f.encode)
    (hne : back ≠ []) (rest : Bytes) :
    answerIn id seq (behind front) (back ++ rest) =
      if f.answers id seq then some (f, rest) else answerIn id seq idle rest := by
  induction back generalizing front with
  | nil => exact absurd rfl hne
  | cons byte back ih =>
    have hfeed := feed_encode h
    by_cases hback : back = []
    · rw [if_pos hback] at hfeed
      rw [hback]
      exact answerIn_cons_frame rest hfeed
    · rw [if_neg hback] at hfeed
      rw [List.cons_append, answerIn_cons_none _ hfeed]
      exact ih (by rw [← h, ← List.append_cons]) hback

theorem answerIn_encode (f : Frame) (rest : Bytes) :
    answerIn id seq idle (f.encode ++ rest) =
      if f.answers id seq then some (f, rest) else answerIn id seq idle rest :=
  answerIn_inside (List.nil_append _) f.encode_ne_nil rest

theorem answerIn_wire_none {fs : List Frame} (h : ∀ f ∈ fs, ¬ f.answers id seq) (rest : Bytes) :
    answerIn id seq idle (wire fs ++ rest) = answerIn id seq idle rest := by
  induction fs with
  | nil => rfl
  | cons f fs ih =>
    rw [wire_cons, List.append_assoc, answerIn_encode, if_neg (h f List.mem_cons_self)]
    exact ih fun g hg => h g (List.mem_cons_of_mem f hg)

end Parser

/-- Reads that each give something, one after the other, and their bytes. -/
inductive Reads {σ : Type} [Link σ] : σ → Bytes → σ → Prop
  | refl (w : σ) : Reads w [] w
  | more {w w' w'' : σ} {byte : UInt8} {chunk bytes : Bytes} :
    Link.read readSize w = (.ok (byte :: chunk), w') → Reads w' bytes w'' →
      Reads w (byte :: chunk ++ bytes) w''

namespace Caller

variable {σ : Type} [Link σ]

/-- What a poll reads is one string of bytes, up to the read that gives the answer or the one that
gives nothing. -/
theorem drain_reads (id : TransactionId) (seq : UInt8) (p : Parser) (w : σ) :
    ∃ bytes w', Reads w bytes w' ∧
      match Parser.answerIn id seq p bytes with
      | some (f, _) => (drain id seq p w).1 = some f ∧ (drain id seq p w).2.2 = w'
      | none => drain id seq p w = (none, (p.feedAll bytes).2, (Link.read readSize w').2) ∧
          ∀ byte chunk, (Link.read readSize w').1 ≠ .ok (byte :: chunk) := by
  fun_induction drain id seq p w with
  | case1 p w e w' hread => exact ⟨[], w, .refl w, by simp [Parser.answerIn, Parser.feedAll, hread]⟩
  | case2 p w w' hread => exact ⟨[], w, .refl w, by simp [Parser.answerIn, Parser.feedAll, hread]⟩
  | case3 p w byte rest w' hread f p' hseek =>
    refine ⟨byte :: rest ++ [], w', .more hread (.refl w'), ?_⟩
    rw [List.append_nil]
    cases hanswer : Parser.answerIn id seq p (byte :: rest) with
    | none =>
      rw [Parser.seek_of_none hanswer] at hseek
      cases hseek
    | some found =>
      obtain ⟨g, behind⟩ := found
      have hfound := Parser.seek_of_some hanswer
      rw [hseek] at hfound
      exact ⟨hfound, rfl⟩
  | case4 p w byte rest w' hread p' hseek ih =>
    obtain ⟨bytes, w'', hreads, hend⟩ := ih
    refine ⟨byte :: rest ++ bytes, w'', .more hread hreads, ?_⟩
    cases hanswer : Parser.answerIn id seq p (byte :: rest) with
    | some found =>
      obtain ⟨g, behind⟩ := found
      have hfound := Parser.seek_of_some hanswer
      rw [hseek] at hfound
      cases hfound
    | none =>
      rw [Parser.seek_of_none hanswer] at hseek
      obtain ⟨-, rfl⟩ := Prod.mk.inj hseek
      rw [Parser.answerIn_append_none hanswer, Parser.feedAll_append]
      exact hend

variable [TickSource σ]

/-- A poll completes with the answer among the bytes it reads, or reads all that it is given. -/
theorem poll_awaiting {c : Caller} {id : TransactionId} {seq : UInt8}
    {deadline : Ticks 32} (hstate : c.state = .awaiting id seq deadline) (response : Bytes) (w : σ) :
    ∃ bytes w', Reads w bytes w' ∧
      match Parser.answerIn id seq c.parser bytes with
      | some (f, _) => ∃ parser, c.poll response w = { c with parser }.complete f response w'
      | none =>
        c.poll response w = { c with parser := (c.parser.feedAll bytes).2 }.checkDeadline deadline
          response (Link.read readSize w').2 ∧
        ∀ byte chunk, (Link.read readSize w').1 ≠ .ok (byte :: chunk) := by
  obtain ⟨bytes, w', hreads, hend⟩ := drain_reads id seq c.parser w
  refine ⟨bytes, w', hreads, ?_⟩
  match Parser.answerIn id seq c.parser bytes, hend with
  | some (f, _), hend =>
    rcases hdrain : drain id seq c.parser w with ⟨found, p, w''⟩
    rw [hdrain] at hend
    obtain ⟨rfl, rfl⟩ := hend
    exact ⟨p, by simp only [poll, hstate, hdrain]⟩
  | none, hend =>
    obtain ⟨hdrain, hnothing⟩ := hend
    exact ⟨by simp only [poll, hstate, hdrain], hnothing⟩

end Caller

end HalfLink
