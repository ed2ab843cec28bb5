import HalfLink.Proofs.Call.Acceptance

/-! The world in which a waiting poll leaves its link, and what the polls of a whole wait hear there
when nothing but their reads changes the world. -/
namespace HalfLink

section

variable {σ : Type} [Link σ]

/-- The world behind the read that gives nothing or fails. -/
def Link.leave (w : σ) : σ :=
  match _h : Link.read readSize w with
  | (.ok (_ :: _), w') => leave w'
  | (_, w') => w'
termination_by Link.backlog w
decreasing_by exact Link.backlog_read_lt _h (List.cons_ne_nil _ _)

theorem Link.leave_more {w w' : σ} {byte : UInt8} {chunk : Bytes}
    (h : Link.read readSize w = (.ok (byte :: chunk), w')) : Link.leave w = Link.leave w' := by
  rw [Link.leave]
  split
  · rename_i hread
    rw [h] at hread
    cases hread
    rfl
  · rename_i hother hread
    rw [h] at hread
    cases hread
    exact absurd rfl (hother byte chunk)

theorem Link.leave_nothing {w : σ}
    (h : ∀ byte chunk, (Link.read readSize w).1 ≠ .ok (byte :: chunk)) :
    Link.leave w = (Link.read readSize w).2 := by
  rw [Link.leave]
  split
  · rename_i byte chunk w' hread
    exact absurd (congrArg Prod.fst hread) (h byte chunk)
  · rename_i hread
    rw [hread]

theorem Reads.leave_eq {w w' : σ} {bytes : Bytes} (h : Reads w bytes w') :
    Link.leave w = Link.leave w' := by
  induction h with
  | refl w => rfl
  | more hread _ ih => rw [Link.leave_more hread, ih]

/-- The reads that give something, and the one behind them. -/
theorem Link.reads_offer (w : σ) :
    ∃ w', Reads w (Link.offer w) w' ∧
      (∀ byte chunk, (Link.read readSize w').1 ≠ .ok (byte :: chunk)) ∧
      Link.leave w = (Link.read readSize w').2 := by
  fun_induction Link.offer w with
  | case1 w byte chunk w' hread ih =>
    obtain ⟨w'', hreads, hnothing, hleave⟩ := ih
    exact ⟨w'', .more hread hreads, hnothing, (Link.leave_more hread).trans hleave⟩
  | case2 w hother =>
    have hnothing : ∀ byte chunk, (Link.read readSize w).1 ≠ .ok (byte :: chunk) :=
      fun byte chunk h => hother byte chunk (Link.read readSize w).2 (Prod.ext h rfl)
    exact ⟨w, .refl w, hnothing, Link.leave_nothing hnothing⟩

end

namespace Caller

variable {σ : Type} [Link σ] [TickSource σ] {c : Caller} {id : TransactionId} {seq : UInt8}
  {deadline : Ticks 32} {heard : Bytes}

/-- A poll that is given an answer stops reading there; any other reads all that it is offered. -/
theorem Listening.meets (h : c.Listening id seq deadline heard) (response : Bytes) (w : σ) :
    (∃ f parser bytes w', Reads w bytes w' ∧
        Parser.firstAnswer id seq (heard ++ bytes) = some f ∧
        c.poll response w = { c with parser }.complete f response w') ∨
      Parser.firstAnswer id seq (heard ++ Link.offer w) = none ∧
        c.poll response w =
          { c with parser := (Parser.idle.feedAll (heard ++ Link.offer w)).2 }.checkDeadline deadline
            response (Link.leave w) := by
  obtain ⟨bytes, w', hreads, hend⟩ := poll_awaiting h.state response w
  rw [h.parser] at hend
  cases hanswer : Parser.answerIn id seq (Parser.idle.feedAll heard).2 bytes with
  | some found =>
    obtain ⟨f, rest⟩ := found
    rw [hanswer] at hend
    obtain ⟨parser, hpoll⟩ := hend
    refine .inl ⟨f, parser, bytes, w', hreads, ?_, hpoll⟩
    rw [Parser.firstAnswer_append h.unanswered, hanswer]
    rfl
  | none =>
    rw [hanswer] at hend
    obtain ⟨hpoll, hnothing⟩ := hend
    have hoffer : Link.offer w = bytes := by
      rw [hreads.offer_eq, Link.offer_nothing hnothing, List.append_nil]
    refine .inr ⟨?_, ?_⟩
    · rw [hoffer, Parser.firstAnswer_append h.unanswered, hanswer]
      rfl
    · rw [hoffer, hreads.leave_eq, Link.leave_nothing hnothing, Parser.feedAll_append]
      exact hpoll

/-- A poll with an answer ends the wait. -/
theorem wait_answered {parser : Parser} {f : Frame} {response : Bytes} {w w' : σ}
    (h : c.poll response w = { c with parser }.complete f response w') (polls : Nat) :
    c.wait response w (polls + 1) = { c with parser }.complete f response w' := by
  by_cases hlarge : response.length < f.payload.size
  · simp only [wait, h, complete, if_pos hlarge]
  · simp only [wait, h, complete, if_neg hlarge]

/-- The wait goes on behind a poll without an answer that ends before the deadline. -/
theorem wait_unanswered {parser : Parser} {response : Bytes} {w w' : σ}
    (h : c.poll response w = { c with parser }.checkDeadline deadline response w')
    (hearly : Ticks.expired (readTicks w') deadline = false) (polls : Nat) :
    c.wait response w (polls + 1) = { c with parser }.wait response w' polls := by
  rw [wait, h, checkDeadline, hearly]
  rfl

end Caller

end HalfLink
