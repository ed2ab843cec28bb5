import HalfLink.Proofs.Firmware.Passage
import HalfLink.Proofs.Line.Basic

/-! What the forward task does with the reports, whatever the link and the other half do: each has its
turn after the one before it, with one request at most, and each change of the link's state between two
of them is told once. -/
namespace HalfLink

section

variable {σ : Type} [Link σ] [TickSource σ]

/-- A poll writes nothing, and does not end a transaction for a link that is down. -/
theorem Caller.poll_writes (c : Caller) (response : Bytes) (t : Tap σ) :
    (c.poll response t).world.posts = t.posts ∧
      (c.poll response t).outcome ≠ some (.error .disconnected) := by
  cases hstate : c.state with
  | idle =>
    rw [poll, hstate]
    exact ⟨rfl, by simp⟩
  | awaiting id seq deadline =>
    obtain ⟨bytes, t', hreads, hend⟩ := poll_awaiting hstate response t
    obtain ⟨-, hposts, -⟩ := Tap.of_reads hreads
    cases hanswer : Parser.answerIn id seq c.parser bytes with
    | some found =>
      rw [hanswer] at hend
      obtain ⟨parser, hpoll⟩ := hend
      rw [hpoll, complete]
      split <;> exact ⟨hposts, by simp⟩
    | none =>
      rw [hanswer] at hend
      obtain ⟨hpoll, hnothing⟩ := hend
      obtain ⟨-, hposts', -⟩ := Tap.read_nothing hnothing
      rw [hpoll, checkDeadline]
      split <;> exact ⟨hposts'.trans hposts, by simp⟩

namespace Call

theorem advance_writes (c : Call) (caller : Caller) (t : Tap σ) :
    (c.advance caller t).world.posts = t.posts ∧
      (c.advance caller t).outcome ≠ some (.error .disconnected) := by
  obtain ⟨hposts, hup⟩ := caller.poll_writes c.response t
  rw [advance]
  split
  · rename_i result houtcome
    exact ⟨hposts, houtcome ▸ hup⟩
  · exact ⟨hposts, by simp⟩

/-- The turn that takes the caller writes the request of a call unless the link is taken to be down. -/
theorem acquire_writes {c : Call} (hsize : c.request.length ≤ maxPayloadSize) (caller : Caller)
    (t : Tap σ) :
    ((c.acquire caller t).world.posts = t.posts ∧
        (c.acquire caller t).outcome = some (.error .disconnected)) ∨
      (c.acquire caller t).outcome ≠ some (.error .disconnected) ∧
        ∃ (seq : UInt8) (payload : Payload), payload.toList = c.request ∧
          (c.acquire caller t).world.posts = t.posts ++ [(t.turn, (c.frame seq payload).encode)] := by
  obtain ⟨free, hfree, hidle⟩ : ∃ free,
      (if caller.isBusy then caller.abandon else caller) = free ∧ free.isBusy = false := by
    cases hbusy : caller.isBusy with
    | true => exact ⟨caller.abandon, rfl, rfl⟩
    | false => exact ⟨caller, rfl, hbusy⟩
  rw [acquire, hfree]
  rcases free.start_cases c.id c.request t with
    ⟨hbusy, -⟩ | ⟨-, hlarge, -⟩ | ⟨-, -, -, hstart⟩ | ⟨-, payload, hpayload, health, -, hstart⟩
  · rw [hidle] at hbusy
    cases hbusy
  · exact absurd hsize (Nat.not_le.mpr hlarge)
  · rw [hstart]
    exact .inl ⟨rfl, rfl⟩
  · have hposts := Tap.posts_write (c.frame free.nextSeq payload).encode t
    rw [hstart]
    rcases hwrite : Link.write (c.frame free.nextSeq payload).encode t with ⟨e | ⟨⟩, t'⟩
    · rw [hwrite] at hposts
      simp only [frame] at hwrite
      simp only [Caller.transmit, hwrite]
      exact .inr ⟨by simp, free.nextSeq, payload, hpayload, hposts⟩
    · rw [hwrite] at hposts
      simp only [frame] at hwrite
      simp only [Caller.transmit, hwrite]
      obtain ⟨hkept, hup⟩ := advance_writes c _ t'
      exact .inr ⟨hup, free.nextSeq, payload, hpayload, hkept.trans hposts⟩

end Call

end

theorem Report.call_raw (report : RawReport) :
    call report.toList = .ok (.notify .hidSync report.toList) := by
  have hsize : ¬ rawReportSize < report.toList.length := Nat.not_lt.mpr report.length_le
  rw [call, check, if_neg hsize]

namespace Firmware

/-- The request for the report was written, once. -/
def Passage.Sent (p : Passage) : Prop :=
  ∃ (seq : UInt8) (payload : Payload), payload.toList = p.report.toList ∧
    p.written = [Frame.encode ⟨.request, .hidSync, seq, payload⟩]

/-- How a report is done with when the link's state that was told last is `before`: with one request, or
none when the link is down; the end of the transaction is told, and the link's state if it is another.
-/
structure Passage.Done (before : Bool) (p : Passage) : Prop where
  written : (p.written = [] ∧ p.outcome = some (.error .disconnected)) ∨
    p.Sent ∧ p.outcome ≠ some (.error .disconnected)
  told : ∃ elapsed result, p.outcome = some result ∧ p.told =
    outcomeRecord elapsed result :: if p.connected = before then [] else [linkRecord p.connected]

/-- The link's states that the records tell, in their order. -/
def links (log : List LogRecord) : List Bool := log.filterMap LogRecord.link?

theorem Passage.Done.links_told {before : Bool} {p : Passage} (h : p.Done before) :
    links p.told = if p.connected = before then [] else [p.connected] := by
  obtain ⟨elapsed, result, -, htold⟩ := h.told
  rw [htold, links, List.filterMap_cons_none (link?_outcomeRecord elapsed result)]
  split
  · rfl
  · simp

/-- The link's state after the last of the reports; at first it is taken to be up. -/
def lastConnected (ended : List Passage) : Bool := (ended.map Passage.connected).getLast?.getD true

variable {σ : Type}

/-- The task's record of the reports done with, and of the writes for the one under way. -/
structure Kept (f : Forwarding (Tap σ)) (ended : List Passage) (written : List Bytes) : Prop where
  posts : f.world.posts.map Prod.snd = ended.flatMap Passage.written ++ written
  log : f.log = openingRecord :: ended.flatMap Passage.told
  connected : f.task.connected = lastConnected ended
  done : ∀ before p after, ended = before ++ p :: after → p.Done (lastConnected before)

/-- No report is under way. -/
structure Between (f : Forwarding (Tap σ)) (ended : List Passage) : Prop where
  kept : Kept f ended []
  stage : f.task.stage = .receiving
  free : f.shared.held = false
  agrees : ended = [] ∨ f.shared.isConnected = lastConnected ended

/-- A report's request is written and its call holds the caller. -/
structure Within (f : Forwarding (Tap σ)) (ended : List Passage) (p : Passage) : Prop where
  kept : Kept f ended p.written
  sent : p.Sent
  told : p.told = []
  outcome : p.outcome = none
  holds : ∃ since call i seq, f.task.stage = .sending since call ∧ call.stage = .holding ∧
    Call.Awaits i call seq f.shared.caller f.world

/-- How the task stands with the reports that are done with and the one under way. -/
inductive Stands (f : Forwarding (Tap σ)) : List Passage → Option Passage → Prop
  | unstarted (task : f.task = {}) (log : f.log = []) (posts : f.world.posts = [])
      (free : f.shared.held = false) : Stands f [] none
  | between {ended : List Passage} (h : Between f ended) : Stands f ended none
  | within {ended : List Passage} {p : Passage} (h : Within f ended p) : Stands f ended (some p)

theorem links_ended {ended : List Passage}
    (done : ∀ before p after, ended = before ++ p :: after → p.Done (lastConnected before)) :
    links (ended.flatMap Passage.told) = changes true (ended.map Passage.connected) := by
  induction ended using List.reverseRecOn with
  | nil => rfl
  | append_singleton ended p ih =>
    have hlast : p.Done (lastConnected ended) := done ended p [] rfl
    have hbefore := ih fun before q after hsplit =>
      done before q (after ++ [p]) (by rw [hsplit, List.append_assoc, List.cons_append])
    rw [List.flatMap_append, List.flatMap_singleton, links, List.filterMap_append, ← links, ← links,
      hbefore, hlast.links_told, List.map_append, List.map_singleton, changes_concat, ← lastConnected]

theorem lastConnected_concat (ended : List Passage) (p : Passage) :
    lastConnected (ended ++ [p]) = p.connected := by
  rw [lastConnected, List.map_append, List.map_singleton, List.getLast?_concat, Option.getD_some]

variable {f : Forwarding (Tap σ)} {ended : List Passage} {p : Passage} {call : Call} {i : Nat}

theorem Passage.Sent.go {after : Forwarding (Tap σ)} {new : List (Nat × Bytes)}
    (h : Sent { p with written := p.written ++ new.map Prod.snd })
    (posts : after.world.posts = f.world.posts ++ new) (outcome : Option (Except Failure Nat)) :
    (p.go outcome f after).Sent := by
  obtain ⟨seq, payload, hreport, hwritten⟩ := h
  exact ⟨seq, payload, hreport, (p.go_written posts outcome).trans hwritten⟩

/-- One more report is done with. -/
theorem Kept.concat {after : Forwarding (Tap σ)} {written : List Bytes} (kept : Kept f ended written)
    (posts : after.world.posts.map Prod.snd = ended.flatMap Passage.written ++ p.written)
    (log : after.log = f.log ++ p.told) (connected : after.task.connected = p.connected)
    (done : p.Done (lastConnected ended)) : Kept after (ended ++ [p]) [] where
  posts := by
    rw [posts, List.flatMap_append, List.flatMap_singleton, List.append_nil]
  log := by
    rw [log, kept.log, List.flatMap_append, List.flatMap_singleton, List.cons_append]
  connected := by rw [connected, lastConnected_concat]
  done before q rest hsplit := by
    rcases List.eq_nil_or_concat rest with rfl | ⟨rest, last, rfl⟩
    · obtain ⟨rfl, hlast⟩ := List.append_inj' hsplit rfl
      obtain rfl : p = q := (List.cons.inj hlast).1
      exact done
    · rw [List.concat_eq_append, ← List.cons_append, ← List.append_assoc] at hsplit
      exact kept.done before q rest (List.append_inj' hsplit rfl).1

section

variable {current : Option Passage}

/-- The waiting reports and the state of the link and the clock have no part in this. -/
theorem Stands.of_record {world : Tap σ} (h : Stands f ended current)
    (reports : List RawReport) (posts : world.posts = f.world.posts)
    (heard : world.heard = f.world.heard) : Stands { f with reports, world } ended current := by
  have hkept : ∀ {written : List Bytes}, Kept f ended written →
      Kept { f with reports, world } ended written :=
    fun kept => ⟨posts ▸ kept.posts, kept.log, kept.connected, kept.done⟩
  cases h with
  | unstarted task log none free => exact .unstarted task log (posts.trans none) free
  | between h => exact .between ⟨hkept h.kept, h.stage, h.free, h.agrees⟩
  | within h =>
    obtain ⟨since, call, i, seq, stage, holds, awaits⟩ := h.holds
    exact .within ⟨hkept h.kept, h.sent, h.told, h.outcome,
      ⟨since, call, i, seq, stage, holds, awaits.of_record posts heard⟩⟩

theorem Stands.within_of_mem (h : Stands f ended current) (hp : p ∈ current) : Within f ended p := by
  cases hp
  cases h with
  | within h => exact h

theorem Stands.done (h : Stands f ended current) {before after : List Passage}
    (hsplit : ended = before ++ p :: after) : p.Done (lastConnected before) := by
  cases h with
  | unstarted => simp at hsplit
  | between h => exact h.kept.done before p after hsplit
  | within h => exact h.kept.done before p after hsplit

theorem Stands.written (h : Stands f ended current) (hp : p ∈ ended ++ current.toList) :
    (p.written = [] ∧ p.outcome = some (.error .disconnected)) ∨
      p.Sent ∧ p.outcome ≠ some (.error .disconnected) := by
  rcases List.mem_append.mp hp with hended | hcurrent
  · obtain ⟨before, after, hsplit⟩ := List.append_of_mem hended
    exact (h.done hsplit).written
  · have hwithin := h.within_of_mem (Option.mem_toList.mp hcurrent)
    exact .inr ⟨hwithin.sent, by simp [hwithin.outcome]⟩

theorem Stands.posts (h : Stands f ended current) :
    f.world.posts.map Prod.snd = (ended ++ current.toList).flatMap Passage.written := by
  cases h with
  | unstarted task log posts free => rw [posts]; rfl
  | between h => rw [h.kept.posts, List.append_nil, Option.toList_none, List.append_nil]
  | within h => rw [h.kept.posts, Option.toList_some, List.flatMap_append, List.flatMap_singleton]

theorem Stands.log (h : Stands f ended current) :
    f.log = [] ∧ ended = [] ∨ f.log = openingRecord :: ended.flatMap Passage.told := by
  cases h with
  | unstarted task log posts free => exact .inl ⟨log, rfl⟩
  | between h => exact .inr h.kept.log
  | within h => exact .inr h.kept.log

theorem Stands.links_log (h : Stands f ended current) :
    links f.log = changes true (ended.map Passage.connected) := by
  rcases h.log with ⟨hlog, rfl⟩ | hlog
  · rw [hlog]
    rfl
  · have hopening : LogRecord.link? openingRecord = none := by decide
    rw [hlog, links, List.filterMap_cons_none hopening]
    exact links_ended fun _ _ _ => h.done

theorem Stands.agrees (h : Stands f ended none) (hne : ended ≠ []) :
    lastConnected ended = f.shared.isConnected := by
  cases h with
  | unstarted task log posts free => exact absurd rfl hne
  | between h => exact (h.agrees.resolve_left hne).symm

end

variable [Link σ] [TickSource σ]

/-- A turn that leaves the report's transaction under way. -/
theorem Forwarding.advance_pending (fast since : Ticks 32)
    (h : (call.poll f.shared f.world).outcome = none) :
    f.advance fast since call =
      (false, { f with
        task := { f.task with stage := .sending since (call.poll f.shared f.world).call }
        shared := (call.poll f.shared f.world).shared
        world := (call.poll f.shared f.world).world }) := by
  simp only [advance, h, enter]

/-- A turn that ends the report's transaction and sets the caller free. -/
theorem Forwarding.advance_ended {result : Except Failure Nat} {caller : Caller}
    (fast since : Ticks 32) (h : (call.poll f.shared f.world).outcome = some result)
    (hfree : (call.poll f.shared f.world).shared = ⟨caller, false⟩) :
    f.advance fast since call =
      (true, { f with
        task := ⟨.receiving, caller.isConnected⟩
        shared := ⟨caller, false⟩
        world := (call.poll f.shared f.world).world
        log := f.log ++ outcomeRecord (Ticks.diff fast since) result ::
          if caller.isConnected = f.task.connected then []
          else [linkRecord caller.isConnected] }) := by
  simp only [advance, h, hfree, check, say, enter, SharedCaller.isConnected, Bool.false_eq_true,
    if_false]
  split
  · rename_i hsame
    rw [hsame]
  · rw [List.append_assoc]
    rfl

theorem Forwarding.advance_reports (f : Forwarding (Tap σ)) (fast since : Ticks 32) (call : Call) :
    (f.advance fast since call).2.reports = f.reports := by
  simp only [advance]
  split
  · rfl
  · simp only [check]
    split
    · rfl
    · split <;> rfl

/-- What a turn of the call for a report leaves behind. -/
def Moves (f : Forwarding (Tap σ)) (ended : List Passage) (p : Passage)
    (outcome : Option (Except Failure Nat)) : Bool × Forwarding (Tap σ) → Prop
  | (true, after) => Between after (ended ++ [p.go outcome f after])
  | (false, after) => Within after ended (p.go outcome f after)

section

variable {new : List (Nat × Bytes)} (kept : Kept f ended p.written) (told : p.told = [])
  (comes : Call.Comes i call (call.poll f.shared f.world))
  (posts : (call.poll f.shared f.world).world.posts = f.world.posts ++ new)
include kept told comes posts

theorem Kept.moves_pending (sent : Passage.Sent { p with written := p.written ++ new.map Prod.snd })
    (houtcome : (call.poll f.shared f.world).outcome = none) (fast since : Ticks 32) :
    Moves f ended p none (f.advance fast since call) := by
  rw [Forwarding.advance_pending fast since houtcome]
  generalize call.poll f.shared f.world = turn at comes posts houtcome
  cases comes with
  | failed busy idle => cases houtcome
  | answered payload request own heard answers fits => cases houtcome
  | @pending seq caller t awaits =>
    have awaits' : Call.Awaits i { call with stage := .holding } seq caller t :=
      ⟨awaits.state, awaits.request, awaits.parser, awaits.unanswered⟩
    refine ⟨⟨?_, kept.log, kept.connected, kept.done⟩, sent.go posts none,
      by simp [Passage.go, told], rfl, ⟨since, _, i, seq, rfl, rfl, awaits'⟩⟩
    rw [p.go_written posts, ← List.append_assoc, ← kept.posts, ← List.map_append]
    exact congrArg (List.map Prod.snd) posts

theorem Kept.moves_ended {result : Except Failure Nat}
    (writes : (p.written ++ new.map Prod.snd = [] ∧ some result = some (.error .disconnected)) ∨
      Passage.Sent { p with written := p.written ++ new.map Prod.snd } ∧
        some result ≠ some (.error .disconnected))
    (houtcome : (call.poll f.shared f.world).outcome = some result) (fast since : Ticks 32) :
    Moves f ended p (some result) (f.advance fast since call) := by
  obtain ⟨caller, hshared⟩ : ∃ caller, (call.poll f.shared f.world).shared = ⟨caller, false⟩ := by
    generalize call.poll f.shared f.world = turn at comes houtcome
    cases comes with
    | failed busy idle => exact ⟨_, rfl⟩
    | answered payload request own heard answers fits => exact ⟨_, rfl⟩
    | pending awaits => cases houtcome
  rw [Forwarding.advance_ended fast since houtcome hshared]
  refine ⟨kept.concat ?_ ?_ rfl ⟨?_, ?_⟩, rfl, rfl, .inr ?_⟩
  · rw [p.go_written posts, ← List.append_assoc, ← kept.posts, ← List.map_append]
    exact congrArg (List.map Prod.snd) posts
  · rw [p.go_told rfl, told]
    rfl
  · exact writes.imp (And.imp_left (p.go_written posts _).trans)
      (And.imp_left fun sent => sent.go posts (some result))
  · refine ⟨Ticks.diff fast since, result, rfl, ?_⟩
    rw [p.go_told rfl, told, kept.connected]
    rfl
  · rw [lastConnected_concat]
    rfl

/-- A turn moves a report on, and what is written in it goes to the report's account. -/
theorem Kept.moves
    (writes : (p.written ++ new.map Prod.snd = [] ∧
        (call.poll f.shared f.world).outcome = some (.error .disconnected)) ∨
      Passage.Sent { p with written := p.written ++ new.map Prod.snd } ∧
        (call.poll f.shared f.world).outcome ≠ some (.error .disconnected))
    (fast since : Ticks 32) :
    Moves f ended p (call.poll f.shared f.world).outcome (f.advance fast since call) := by
  cases houtcome : (call.poll f.shared f.world).outcome with
  | none =>
    rw [houtcome] at writes
    rcases writes with ⟨-, hdown⟩ | ⟨sent, -⟩
    · cases hdown
    · exact kept.moves_pending told comes posts sent houtcome fast since
  | some result =>
    rw [houtcome] at writes
    exact kept.moves_ended told comes posts writes houtcome fast since

end

/-- The first turn of a report, whose call takes the caller. -/
theorem Between.begin (h : Between f ended) (fast : Ticks 32) (report : RawReport) :
    Moves f ended { report }
      ((Call.notify .hidSync report.toList).poll f.shared f.world).outcome (f.begin fast report) := by
  have hbegin : f.begin fast report =
      f.advance fast fast (.notify .hidSync report.toList) := by
    rw [Forwarding.begin, Report.call_raw]
  have hpoll : (Call.notify .hidSync report.toList).poll f.shared f.world =
      (Call.notify .hidSync report.toList).acquire f.shared.caller f.world := by
    rw [Call.poll, Call.notify, h.free]
    rfl
  have hcomes := (Call.acquire_comes (.notify .hidSync report.toList) f.shared.caller f.world).1
  rw [← hpoll] at hcomes
  have hsize : (Call.notify .hidSync report.toList).request.length ≤ maxPayloadSize :=
    report.length_le.trans (by decide)
  rw [hbegin]
  rcases Call.acquire_writes hsize f.shared.caller f.world with
    ⟨hposts, hdown⟩ | ⟨hup, seq, payload, hpayload, hposts⟩
  · rw [← hpoll] at hposts hdown
    exact h.kept.moves rfl hcomes (hposts.trans (List.append_nil _).symm) (.inl ⟨rfl, hdown⟩) fast fast
  · rw [← hpoll] at hup hposts
    exact h.kept.moves rfl hcomes hposts (.inr ⟨⟨seq, payload, hpayload, rfl⟩, hup⟩) fast fast

/-- A later turn of a report, whose call holds the caller. -/
theorem Within.advance (h : Within f ended p) {since : Ticks 32}
    (stage : f.task.stage = .sending since call) (fast : Ticks 32) :
    Moves f ended p (call.poll f.shared f.world).outcome (f.advance fast since call) := by
  obtain ⟨since', call', i, seq, hstage, holds, awaits⟩ := h.holds
  obtain ⟨rfl, rfl⟩ : since = since' ∧ call = call' := by simpa using stage.symm.trans hstage
  have hpoll : call.poll f.shared f.world = call.advance f.shared.caller f.world := by
    rw [Call.poll, holds]
  obtain ⟨hcomes, hposts⟩ := awaits.advance
  have hup := (call.advance_writes f.shared.caller f.world).2
  rw [← hpoll] at hcomes hposts hup
  refine h.kept.moves h.told hcomes (hposts.trans (List.append_nil _).symm) (.inr ⟨?_, hup⟩) fast since
  simpa using h.sent

/-- The reports of a turn come one after the other. -/
theorem Between.receive (h : Between f ended) (fast : Ticks 32) (reports : List RawReport) :
    Stands (f.receive fast reports) (ended ++ (f.passages fast reports).1)
      (f.passages fast reports).2 := by
  induction reports generalizing f ended with
  | nil =>
    rw [Forwarding.passages, List.append_nil]
    exact (Stands.between h).of_record [] rfl rfl
  | cons report rest ih =>
    have hmoves := h.begin fast report
    rcases hbegin : f.begin fast report with ⟨_ | _, after⟩
    · rw [hbegin] at hmoves
      simp only [Forwarding.receive, Forwarding.passages, hbegin]
      rw [if_neg Bool.false_ne_true, List.append_nil]
      exact (Stands.within hmoves).of_record rest rfl rfl
    · rw [hbegin] at hmoves
      simp only [Forwarding.receive, Forwarding.passages, hbegin, if_true]
      rw [List.append_cons]
      exact ih hmoves

/-- Each report of a turn is done with, under way or still waiting, in this order. -/
theorem Forwarding.passages_reports (f : Forwarding (Tap σ)) (fast : Ticks 32)
    (reports : List RawReport) :
    ((f.passages fast reports).1 ++ (f.passages fast reports).2.toList).map Passage.report ++
        (f.receive fast reports).reports = reports ∧
      ((f.passages fast reports).2 = none → (f.receive fast reports).reports = []) := by
  induction reports generalizing f with
  | nil => exact ⟨rfl, fun _ => rfl⟩
  | cons report rest ih =>
    rcases hbegin : f.begin fast report with ⟨_ | _, after⟩
    · simp only [Forwarding.receive, Forwarding.passages, hbegin]
      exact ⟨rfl, nofun⟩
    · obtain ⟨horder, hall⟩ := ih after
      simp only [Forwarding.receive, Forwarding.passages, hbegin, if_true]
      exact ⟨congrArg (report :: ·) horder, hall⟩

namespace Shift

variable {s : Shift σ}

/-- A turn of the task goes on with the report under way and then with those that wait. -/
theorem turn_stands (h : Stands s.forwarding s.ended s.current) (fast : Ticks 32) :
    Stands (s.forwarding.poll fast) (s.ended ++ (s.turn fast).1) (s.turn fast).2 ∧
      ((s.turn fast).1 ++ (s.turn fast).2.toList).map Passage.report ++
          (s.forwarding.poll fast).reports =
        s.current.toList.map Passage.report ++ s.forwarding.reports ∧
      ((s.turn fast).2 = none → (s.forwarding.poll fast).reports = []) := by
  obtain ⟨f, accepted, ended, current⟩ := s
  dsimp only at h ⊢
  cases h with
  | unstarted task log posts free =>
    have stage : f.task.stage = .unstarted := by rw [task]
    have hbetween : Between ((f.say openingRecord).enter .receiving) [] := by
      refine ⟨⟨?_, ?_, ?_, fun before p after hsplit => ?_⟩, rfl, free, .inl rfl⟩
      · exact congrArg (List.map Prod.snd) posts
      · exact congrArg (· ++ [openingRecord]) log
      · exact congrArg Forwarder.connected task
      · simp at hsplit
    have hpoll : f.poll fast =
        ((f.say openingRecord).enter .receiving).receive fast f.reports := by
      simp only [Forwarding.poll, stage, Forwarding.goOn]
      rfl
    simp only [turn, stage, hpoll]
    exact ⟨hbetween.receive fast f.reports, Forwarding.passages_reports _ fast f.reports⟩
  | between h =>
    simp only [turn, Forwarding.poll, Forwarding.goOn, h.stage]
    exact ⟨h.receive fast f.reports, Forwarding.passages_reports f fast f.reports⟩
  | @within ended p h =>
    obtain ⟨since, call, i, seq, stage, holds, awaits⟩ := h.holds
    have hmoves := h.advance stage fast
    have hreports := f.advance_reports fast since call
    simp only [turn, Forwarding.poll, stage]
    rcases hadvance : f.advance fast since call with ⟨_ | _, after⟩
    · rw [hadvance] at hmoves hreports
      simp only [Forwarding.goOn]
      rw [if_neg Bool.false_ne_true, List.append_nil]
      exact ⟨.within hmoves, congrArg (p.report :: ·) hreports, nofun⟩
    · rw [hadvance] at hmoves hreports
      obtain ⟨horder, hall⟩ := after.passages_reports fast after.reports
      simp only [Forwarding.goOn, if_true]
      rw [List.append_cons]
      exact ⟨hmoves.receive fast after.reports,
        congrArg (p.report :: ·) (horder.trans hreports), hall⟩

/-- What holds of the task after any events. -/
structure Sound (s : Shift σ) : Prop where
  stands : Stands s.forwarding s.ended s.current
  order : s.passages.map Passage.report ++ s.forwarding.reports = s.accepted

theorem Sound.turn (h : s.Sound) (fast : Ticks 32) : (s.step (.turn fast)).Sound := by
  obtain ⟨hstands, hreports, -⟩ := turn_stands h.stands fast
  refine ⟨hstands, ?_⟩
  calc ((s.ended ++ (s.turn fast).1) ++ (s.turn fast).2.toList).map Passage.report ++
        (s.forwarding.poll fast).reports
      = s.ended.map Passage.report ++
          (((s.turn fast).1 ++ (s.turn fast).2.toList).map Passage.report ++
            (s.forwarding.poll fast).reports) := by simp only [List.map_append, List.append_assoc]
    _ = s.ended.map Passage.report ++
          (s.current.toList.map Passage.report ++ s.forwarding.reports) := by rw [hreports]
    _ = s.passages.map Passage.report ++ s.forwarding.reports := by
      rw [passages, List.map_append, List.append_assoc]
    _ = s.accepted := h.order

theorem Sound.host (h : s.Sound) (report : RawReport) : (s.step (.host report)).Sound := by
  rw [step, enqueue?]
  split_ifs with hroom
  · refine ⟨h.stands.of_record _ rfl rfl, ?_⟩
    rw [← h.order, List.append_assoc]
    rfl
  · exact h

theorem Sound.step (h : s.Sound) (event : Event σ) : (s.step event).Sound := by
  cases event with
  | host report => exact h.host report
  | turn fast => exact h.turn fast
  | pass world => exact ⟨h.stands.of_record _ rfl rfl, h.order⟩

theorem Sound.run (h : s.Sound) (events : List (Event σ)) : (s.run events).Sound := by
  induction events generalizing s with
  | nil => exact h
  | cons event events ih => exact ih (h.step event)

/-- Each report has its turn, and the changes of the link's state are told. -/
structure Faithful (s : Shift σ) : Prop where
  /-- The reports are taken up in the order of the channel, and one is under way at a time. -/
  order : s.passages.map Passage.report ++ s.forwarding.reports = s.accepted
  current : ∀ p ∈ s.current, p.outcome = none ∧ p.told = []
  /-- A turn that leaves no report under way leaves none waiting. -/
  serves : ∀ fast, (s.step (.turn fast)).current = none →
    (s.step (.turn fast)).forwarding.reports = []
  posts : s.forwarding.world.posts.map Prod.snd = s.passages.flatMap Passage.written
  offline : ∀ p ∈ s.passages, p.outcome = some (.error .disconnected) → p.written = []
  /-- A report that does not find the link down is written once. -/
  request : ∀ p ∈ s.passages, p.outcome ≠ some (.error .disconnected) →
    ∃ (seq : UInt8) (payload : Payload), payload.toList = p.report.toList ∧
      p.written = [Frame.encode ⟨.request, .hidSync, seq, payload⟩]
  log : s.forwarding.log = [] ∧ s.ended = [] ∨
    s.forwarding.log = openingRecord :: s.ended.flatMap Passage.told
  /-- A report's end is told, and the link's state behind it if it is another than at the end of the
  report before. -/
  told : ∀ before p after, s.ended = before ++ p :: after →
    ∃ elapsed result, p.outcome = some result ∧ p.told = outcomeRecord elapsed result ::
      if p.connected = lastConnected before then [] else [linkRecord p.connected]
  edges : links s.forwarding.log = changes true (s.ended.map Passage.connected)
  /-- The link is told to be lost first, and then restored and lost in turn. -/
  alternate : ∀ i connected, (links s.forwarding.log)[i]? = some connected →
    connected = decide (i % 2 = 1)
  /-- What was told of the link last when a report ends is its state then. -/
  agrees : ∀ before p after, s.ended = before ++ p :: after →
    (links ((before ++ [p]).flatMap Passage.told)).getLast?.getD true = p.connected
  /-- That is the caller's state until the next report is taken up. -/
  settled : s.current = none → ∀ p ∈ s.ended.getLast?,
    p.connected = s.forwarding.shared.isConnected

theorem Sound.faithful (h : s.Sound) : s.Faithful where
  order := h.order
  current p hp := by
    have hwithin := h.stands.within_of_mem hp
    exact ⟨hwithin.outcome, hwithin.told⟩
  serves fast := (turn_stands h.stands fast).2.2
  posts := h.stands.posts
  offline p hp hdown := by
    rcases h.stands.written hp with ⟨hnone, -⟩ | ⟨-, hup⟩
    · exact hnone
    · exact absurd hdown hup
  request p hp hup := by
    rcases h.stands.written hp with ⟨-, hdown⟩ | ⟨sent, -⟩
    · exact absurd hdown hup
    · exact sent
  log := h.stands.log
  told before p after hsplit := (h.stands.done hsplit).told
  edges := h.stands.links_log
  alternate i connected hi := by
    rw [h.stands.links_log] at hi
    rw [changes_alternate hi]
    rcases Nat.mod_two_eq_zero_or_one i with hparity | hparity <;> simp [hparity]
  agrees before p after hsplit := by
    have hdone : ∀ b q a, before ++ [p] = b ++ q :: a → q.Done (lastConnected b) := fun b q a hpart =>
      h.stands.done (by rw [hsplit, List.append_cons, hpart, List.append_assoc, List.cons_append])
    rw [links_ended hdone, getLast_changes]
    exact lastConnected_concat before p
  settled hnone p hp := by
    have hlast : p.connected = lastConnected s.ended := by
      rw [lastConnected, List.getLast?_map, Option.mem_def.mp hp]
      rfl
    have hstands := h.stands
    rw [hnone] at hstands
    rw [hlast, hstands.agrees (List.ne_nil_of_mem (List.mem_of_getLast? hp))]

/-- Whatever the host, the link and the other half do, the task forwards the reports one by one and
tells each change of the link's state once. -/
theorem run_faithful (c : Caller) (w : σ) (events : List (Event σ)) :
    ((fresh c w).run events).Faithful := by
  have hfresh : (fresh c w).Sound := ⟨.unstarted rfl rfl rfl rfl, rfl⟩
  exact (hfresh.run events).faithful

/-- The first report times out, the second finds the link down, and the third is let through later. -/
example :
    let settings : Settings := { maxErrors := 1 }
    let c : Caller := ⟨settings, .ofSettings settings, .idle, .idle, 0⟩
    let report : RawReport := ⟨[0x01], by decide⟩
    let acknowledged : LineEnd := ⟨601, ⟨[], (Frame.response .hidSync 1 .empty).encode⟩, {}, [64]⟩
    let s := (fresh c (.silent 0)).run
      [.host report, .turn 0, .pass (.silent 20), .host report, .turn 5, .pass (.silent 600),
        .host report, .turn 9, .pass acknowledged, .turn 11]
    links s.forwarding.log = [false, true] ∧ s.ended.map (·.written.length) = [1, 0, 1] := by
  decide +kernel

end Shift

end Firmware

end HalfLink
