import HalfLink.Call.Turns
import HalfLink.Proofs.Call.Seeking
import HalfLink.Proofs.Call.Starting

/-! Calls that share a caller, under any order of turns and with any of them dropped. The lock keeps
their transactions apart, and what a dropped call leaves in flight is forgotten before the next request
goes out. -/
namespace HalfLink

/-- A link with a record of what passes over it. -/
structure Tap (σ : Type) where
  world : σ
  /-- The call that has the turn. -/
  turn : Nat := 0
  /-- The writes that were tried, each with the call whose turn it was. -/
  posts : List (Nat × Bytes) := []
  /-- What has been read since the last of them. -/
  heard : Bytes := []

namespace Tap

variable {σ : Type} [Link σ]

def write (bytes : Bytes) (t : Tap σ) : Except LinkError Unit × Tap σ :=
  let (result, world) := Link.write bytes t.world
  (result, { t with world, posts := t.posts ++ [(t.turn, bytes)], heard := [] })

def read (limit : Nat) (t : Tap σ) : Except LinkError Bytes × Tap σ :=
  match Link.read limit t.world with
  | (.ok bytes, world) => (.ok bytes, { t with world, heard := t.heard ++ bytes })
  | (.error e, world) => (.error e, { t with world })

theorem read_ok {limit : Nat} {t t' : Tap σ} {bytes : Bytes} (h : t.read limit = (.ok bytes, t')) :
    Link.read limit t.world = (.ok bytes, t'.world) ∧ t'.turn = t.turn ∧ t'.posts = t.posts ∧
      t'.heard = t.heard ++ bytes := by
  unfold read at h
  split at h
  · rename_i hread
    cases h
    exact ⟨hread, rfl, rfl, rfl⟩
  · cases h

instance : Link (Tap σ) where
  write := write
  read := read
  backlog t := Link.backlog t.world
  length_read_le h := Link.length_read_le (read_ok h).1
  backlog_read_lt h hne := Link.backlog_read_lt (read_ok h).1 hne

instance [TickSource σ] : TickSource (Tap σ) where
  readTicks t := readTicks t.world
  writeTicks ticks t := { t with world := writeTicks ticks t.world }

theorem posts_write (bytes : Bytes) (t : Tap σ) :
    (Link.write bytes t).2.posts = t.posts ++ [(t.turn, bytes)] := rfl

theorem heard_write (bytes : Bytes) (t : Tap σ) : (Link.write bytes t).2.heard = [] := rfl

theorem of_reads {t t' : Tap σ} {bytes : Bytes} (h : Reads t bytes t') :
    t'.turn = t.turn ∧ t'.posts = t.posts ∧ t'.heard = t.heard ++ bytes := by
  induction h with
  | refl t => simp
  | more hread _ ih =>
    obtain ⟨-, hturn, hposts, hheard⟩ := read_ok hread
    obtain ⟨ihturn, ihposts, ihheard⟩ := ih
    exact ⟨ihturn.trans hturn, ihposts.trans hposts, by rw [ihheard, hheard, List.append_assoc]⟩

/-- A read that gives nothing or fails leaves the record as it is. -/
theorem read_nothing {t : Tap σ}
    (h : ∀ byte chunk, (Link.read readSize t).1 ≠ .ok (byte :: chunk)) :
    (Link.read readSize t).2.turn = t.turn ∧ (Link.read readSize t).2.posts = t.posts ∧
      (Link.read readSize t).2.heard = t.heard := by
  rcases hread : Link.read readSize t with ⟨e | bytes, t'⟩
  · replace hread : t.read readSize = (.error e, t') := hread
    unfold read at hread
    split at hread
    · cases hread
    · cases hread
      exact ⟨rfl, rfl, rfl⟩
  · rw [hread] at h
    cases bytes with
    | nil =>
      obtain ⟨-, hturn, hposts, hheard⟩ := read_ok hread
      exact ⟨hturn, hposts, hheard.trans (List.append_nil _)⟩
    | cons byte chunk => exact absurd rfl (h byte chunk)

end Tap

namespace Call

variable {σ : Type}

/-- The frame of a call's request. -/
def frame (c : Call) (seq : UInt8) (payload : Payload) : Frame := ⟨.request, c.id, seq, payload⟩

/-- Call `i` waits for its response: its request was the last thing written, and what was heard since
then holds no answer. -/
structure Awaits (i : Nat) (c : Call) (seq : UInt8) (caller : Caller) (t : Tap σ) : Prop where
  state : ∃ deadline, caller.state = .awaiting c.id seq deadline
  request : ∃ payload : Payload, payload.toList = c.request ∧
    t.posts.getLast? = some (i, (c.frame seq payload).encode)
  parser : caller.parser = (Parser.idle.feedAll t.heard).2
  unanswered : Parser.answerIn c.id seq .idle t.heard = none

theorem Awaits.of_record {i : Nat} {c : Call} {seq : UInt8} {caller : Caller} {t t' : Tap σ}
    (h : Awaits i c seq caller t) (hposts : t'.posts = t.posts) (hheard : t'.heard = t.heard) :
    Awaits i c seq caller t' :=
  ⟨h.state, hposts ▸ h.request, hheard ▸ h.parser, hheard ▸ h.unanswered⟩

/-- How a turn comes out for a call that takes the caller or holds it. -/
inductive Comes (i : Nat) (c : Call) : Turn (Tap σ) → Prop
  | failed {e : Failure} {caller : Caller} {t : Tap σ} (busy : e ≠ .busy) (idle : e ≠ .idle) :
      Comes i c ⟨some (.error e), { c with stage := .ended }, ⟨caller, false⟩, t⟩
  /-- What was heard since the call's request was written holds the answer. -/
  | answered {f : Frame} {seq : UInt8} {caller : Caller} {t : Tap σ} (payload : Payload)
      (request : payload.toList = c.request)
      (own : t.posts.getLast? = some (i, (c.frame seq payload).encode))
      (heard : f ∈ Parser.frames (Parser.idle.feedAll t.heard).1) (answers : f.answers c.id seq)
      (fits : f.payload.size ≤ c.response.length) :
      Comes i c ⟨some (.ok f.payload.size),
        { c with
          response := f.payload.toList ++ c.response.drop f.payload.size
          stage := .ended }, ⟨caller, false⟩, t⟩
  | pending {seq : UInt8} {caller : Caller} {t : Tap σ} (awaits : Awaits i c seq caller t) :
      Comes i c ⟨none, { c with stage := .holding }, ⟨caller, true⟩, t⟩

variable [Link σ] [TickSource σ] {i : Nat} {c : Call} {seq : UInt8} {caller : Caller} {t : Tap σ}

/-- A turn of a call that waits for its response writes nothing. -/
theorem Awaits.advance (h : Awaits i c seq caller t) :
    Comes i c (c.advance caller t) ∧ (c.advance caller t).world.posts = t.posts := by
  obtain ⟨deadline, hstate⟩ := h.state
  obtain ⟨payload, hpayload, hown⟩ := h.request
  obtain ⟨bytes, t₁, hreads, hend⟩ := Caller.poll_awaiting hstate c.response t
  obtain ⟨-, hposts, hheard⟩ := Tap.of_reads hreads
  have hall : Parser.idle.feedAll (t.heard ++ bytes) =
      ((Parser.idle.feedAll t.heard).1 ++ (caller.parser.feedAll bytes).1,
        (caller.parser.feedAll bytes).2) := by
    rw [Parser.feedAll_append, h.parser]
  cases hanswer : Parser.answerIn c.id seq caller.parser bytes with
  | some found =>
    obtain ⟨f, rest⟩ := found
    rw [hanswer] at hend
    obtain ⟨parser, hpoll⟩ := hend
    obtain ⟨hmem, hf⟩ := Parser.mem_frames_of_answerIn hanswer
    have hsplice : c.response.splice 0 f.payload.toList =
        f.payload.toList ++ c.response.drop f.payload.size := Bytes.splice_append [] c.response _
    have hframe : f ∈ Parser.frames (Parser.idle.feedAll t₁.heard).1 := by
      rw [hheard, hall, Parser.frames_append]
      exact List.mem_append_right _ hmem
    by_cases hfits : f.payload.size ≤ c.response.length
    · simp only [Call.advance, hpoll, Caller.complete, if_neg (Nat.not_lt.mpr hfits), hsplice]
      exact ⟨.answered payload hpayload (hposts ▸ hown) hframe hf hfits, hposts⟩
    · simp only [Call.advance, hpoll, Caller.complete, if_pos (Nat.not_le.mp hfits)]
      exact ⟨.failed (by decide) (by decide), hposts⟩
  | none =>
    rw [hanswer] at hend
    obtain ⟨hpoll, hnothing⟩ := hend
    obtain ⟨-, hposts', hheard'⟩ := Tap.read_nothing hnothing
    rw [hposts] at hposts'
    rw [hheard] at hheard'
    by_cases hexpired : Ticks.expired (readTicks (Link.read readSize t₁).2) deadline
    · simp only [Call.advance, hpoll, Caller.checkDeadline, if_pos hexpired]
      exact ⟨.failed (by decide) (by decide), hposts'⟩
    · simp only [Call.advance, hpoll, Caller.checkDeadline, if_neg hexpired]
      refine ⟨.pending ⟨⟨deadline, hstate⟩, ⟨payload, hpayload, ?_⟩, ?_, ?_⟩, hposts'⟩
      · rw [hposts', hown]
      · rw [hheard', hall]
      · rw [hheard', Parser.answerIn_append_none h.unanswered, ← h.parser, hanswer]

/-- A call that takes the caller has its request written, whatever a dropped call left in flight,
unless the request is too large or the link is down. -/
theorem acquire_comes (c : Call) (caller : Caller) (t : Tap σ) :
    Comes t.turn c (c.acquire caller t) ∧
      (((c.acquire caller t).world.posts = t.posts ∧
          (c.request.length ≤ maxPayloadSize → caller.isConnected = false)) ∨
        ∃ payload : Payload, payload.toList = c.request ∧ (c.acquire caller t).world.posts =
          t.posts ++ [(t.turn, (c.frame caller.nextSeq payload).encode)]) := by
  obtain ⟨free, hfree, hidle, hseq, hhealth⟩ : ∃ free,
      (if caller.isBusy then caller.abandon else caller) = free ∧ free.isBusy = false ∧
        free.nextSeq = caller.nextSeq ∧ free.health = caller.health := by
    cases hbusy : caller.isBusy with
    | true => exact ⟨caller.abandon, rfl, rfl, rfl, rfl⟩
    | false => exact ⟨caller, rfl, hbusy, rfl, rfl⟩
  rw [acquire, hfree]
  rcases free.start_cases c.id c.request t with
    ⟨hbusy, -⟩ | ⟨-, hlarge, hstart⟩ | ⟨-, -, hattempt, hstart⟩ |
      ⟨-, payload, hpayload, health, -, hstart⟩
  · rw [hidle] at hbusy
    cases hbusy
  · rw [hstart]
    exact ⟨.failed (by decide) (by decide),
      .inl ⟨rfl, fun hsize => absurd hsize (Nat.not_le.mpr hlarge)⟩⟩
  · rw [hstart]
    refine ⟨.failed (by decide) (by decide), .inl ⟨rfl, fun _ => ?_⟩⟩
    rw [hhealth, Health.attempt] at hattempt
    split at hattempt
    · cases hattempt
    · rename_i hdown
      exact Bool.eq_false_iff.mpr hdown
  · rw [hseq] at hstart
    have hposts := Tap.posts_write (c.frame caller.nextSeq payload).encode t
    have hheard := Tap.heard_write (c.frame caller.nextSeq payload).encode t
    rw [hstart]
    rcases hwrite : Link.write (c.frame caller.nextSeq payload).encode t with ⟨e | ⟨⟩, t'⟩
    · rw [hwrite] at hposts
      simp only [frame] at hwrite
      simp only [Caller.transmit, hwrite]
      exact ⟨.failed (by decide) (by decide), .inr ⟨payload, hpayload, hposts⟩⟩
    · rw [hwrite] at hposts hheard
      simp only [frame] at hwrite
      simp only [Caller.transmit, hwrite]
      have awaits : Awaits t.turn c caller.nextSeq
          ⟨free.settings, health, .idle,
            .awaiting c.id caller.nextSeq (Ticks.offset (readTicks t) free.settings.responseTimeout),
            caller.nextSeq + 1⟩ t' := by
        refine ⟨⟨_, rfl⟩, ⟨payload, hpayload, ?_⟩, ?_, ?_⟩
        · rw [hposts, List.getLast?_concat]
        · rw [hheard]
          rfl
        · rw [hheard]
          rfl
      obtain ⟨hcomes, hkept⟩ := awaits.advance
      exact ⟨hcomes, .inr ⟨payload, hpayload, hkept.trans hposts⟩⟩

end Call

/-- Calls of one shared caller, as many as there ever are, and their link. -/
structure Pool (σ : Type) where
  shared : SharedCaller
  calls : Nat → Call
  line : Tap σ

/-- What can happen to a pool. A turn in which the lock is kept from a call though it is free changes
nothing, like no turn. -/
inductive Pool.Event (σ : Type)
  | poll (i : Nat)
  | drop (i : Nat)
  /-- The link and the clock get into another state. -/
  | pass (world : σ)

/-- The call that an event is about. -/
def Pool.Event.call? {σ : Type} : Event σ → Option Nat
  | .poll i | .drop i => some i
  | .pass _ => none

namespace Pool

variable {σ : Type}

def fresh (caller : Caller) (calls : Nat → Call) (world : σ) : Pool σ :=
  ⟨⟨caller, false⟩, fun i => { calls i with stage := .waiting }, { world }⟩

def tap (p : Pool σ) (i : Nat) : Tap σ := { p.line with turn := i }

def set (p : Pool σ) (i : Nat) (c : Call) : Nat → Call := Function.update p.calls i c

@[simp] theorem set_self (p : Pool σ) (i : Nat) (c : Call) : p.set i c i = c := by
  rw [set, Function.update_self]

theorem set_of_ne (p : Pool σ) {i j : Nat} (h : j ≠ i) (c : Call) : p.set i c j = p.calls j := by
  rw [set, Function.update_of_ne h]

/-- What holds of a pool after any events: the lock is held by the call whose request was written last
and which waits for its response. -/
structure Orderly (p : Pool σ) : Prop where
  held : p.shared.held = true ↔ ∃ i, (p.calls i).stage = .holding
  awaits : ∀ i, (p.calls i).stage = .holding →
    ∃ seq, Call.Awaits i (p.calls i) seq p.shared.caller p.line
  posted : ∀ post ∈ p.line.posts, (p.calls post.1).stage ≠ .waiting

variable {p : Pool σ} {i j : Nat}

/-- No two calls hold the caller. -/
theorem Orderly.alone (h : p.Orderly) (hi : (p.calls i).stage = .holding)
    (hj : (p.calls j).stage = .holding) : i = j := by
  obtain ⟨_, hown⟩ := h.awaits i hi
  obtain ⟨_, hown'⟩ := h.awaits j hj
  obtain ⟨_, _, hlast⟩ := hown.request
  obtain ⟨_, _, hlast'⟩ := hown'.request
  rw [hlast] at hlast'
  exact (Prod.mk.inj (Option.some.inj hlast')).1

theorem orderly_fresh (caller : Caller) (calls : Nat → Call) (world : σ) :
    (fresh caller calls world).Orderly where
  held := by simp [fresh]
  awaits i hi := by cases hi
  posted post hpost := by cases hpost

/-- When the call that held the caller has ended, none holds it. -/
theorem orderly_of_ended {c : Call} {t : Tap σ} (hothers : ∀ j ≠ i, (p.calls j).stage ≠ .holding)
    (hend : c.stage = .ended)
    (hposted : ∀ post ∈ t.posts, post.1 ≠ i → (p.calls post.1).stage ≠ .waiting) (caller : Caller) :
    (⟨⟨caller, false⟩, p.set i c, t⟩ : Pool σ).Orderly := by
  have hnone : ∀ j, (p.set i c j).stage ≠ .holding := by
    intro j
    by_cases hj : j = i
    · rw [hj, set_self, hend]
      decide
    · rw [p.set_of_ne hj]
      exact hothers j hj
  refine ⟨⟨fun hheld => Bool.noConfusion hheld, fun ⟨j, hj⟩ => absurd hj (hnone j)⟩,
    fun j hj => absurd hj (hnone j), fun post hpost => ?_⟩
  dsimp only at hpost ⊢
  by_cases hpi : post.1 = i
  · rw [hpi, set_self, hend]
    decide
  · rw [p.set_of_ne hpi]
    exact hposted post hpost hpi

theorem Orderly.ended_of_free (h : p.Orderly) (hfree : p.shared.held = false) {post : Nat × Bytes}
    (hpost : post ∈ p.line.posts) : (p.calls post.1).stage = .ended := by
  cases hstage : (p.calls post.1).stage with
  | ended => rfl
  | waiting => exact absurd hstage (h.posted post hpost)
  | holding =>
    rw [h.held.mpr ⟨post.1, hstage⟩] at hfree
    cases hfree

section Events

variable [Link σ] [TickSource σ]

def turn (p : Pool σ) (i : Nat) : Call.Turn (Tap σ) := (p.calls i).poll p.shared (p.tap i)

def step (p : Pool σ) : Event σ → Pool σ
  | .poll i => ⟨(p.turn i).shared, p.set i (p.turn i).call, (p.turn i).world⟩
  | .drop i =>
    { p with shared := (p.calls i).drop p.shared, calls := p.set i { p.calls i with stage := .ended } }
  | .pass world => { p with line := { p.line with world } }

def run (p : Pool σ) (events : List (Event σ)) : Pool σ := events.foldl step p

/-- A turn of a call that has ended, or that finds the caller held, does nothing; any other is the turn
of the call that holds the caller or takes it. -/
theorem Orderly.turn_cases (h : p.Orderly) (i : Nat) :
    (p.turn i = ⟨none, p.calls i, p.shared, p.tap i⟩ ∧
      ((p.calls i).stage = .ended ∨ (p.calls i).stage = .waiting ∧ p.shared.held = true)) ∨
    (Call.Comes i (p.calls i) (p.turn i) ∧
      ((p.calls i).stage = .holding ∧ (p.turn i).world.posts = p.line.posts ∨
        (p.calls i).stage = .waiting ∧ p.shared.held = false ∧
          (((p.turn i).world.posts = p.line.posts ∧
              ((p.calls i).request.length ≤ maxPayloadSize → p.shared.isConnected = false)) ∨
            ∃ payload : Payload, payload.toList = (p.calls i).request ∧ (p.turn i).world.posts =
              p.line.posts ++
                [(i, ((p.calls i).frame p.shared.caller.nextSeq payload).encode)]))) := by
  cases hstage : (p.calls i).stage with
  | ended => exact .inl ⟨by simp only [turn, Call.poll, hstage], .inl rfl⟩
  | holding =>
    obtain ⟨seq, awaits⟩ := h.awaits i hstage
    have awaits' : Call.Awaits i (p.calls i) seq p.shared.caller (p.tap i) :=
      awaits.of_record rfl rfl
    have hturn : p.turn i = (p.calls i).advance p.shared.caller (p.tap i) := by
      simp only [turn, Call.poll, hstage]
    rw [hturn]
    exact .inr ⟨awaits'.advance.1, .inl ⟨rfl, awaits'.advance.2⟩⟩
  | waiting =>
    cases hheld : p.shared.held with
    | true => exact .inl ⟨by simp only [turn, Call.poll, hstage, hheld, if_true], .inr ⟨rfl, rfl⟩⟩
    | false =>
      have hturn : p.turn i = (p.calls i).acquire p.shared.caller (p.tap i) := by
        simp only [turn, Call.poll, hstage, hheld]
        rfl
      obtain ⟨hcomes, hposts⟩ := (p.calls i).acquire_comes p.shared.caller (p.tap i)
      rw [hturn]
      exact .inr ⟨hcomes, .inr ⟨rfl, rfl, hposts⟩⟩

theorem Orderly.poll (h : p.Orderly) (i : Nat) : (p.step (.poll i)).Orderly := by
  rcases h.turn_cases i with ⟨hturn, -⟩ | ⟨hcomes, hturn⟩
  · have hcalls : p.set i (p.calls i) = p.calls := Function.update_eq_self i p.calls
    simp only [step, hturn, hcalls]
    refine ⟨h.held, fun j hj => ?_, h.posted⟩
    obtain ⟨seq, awaits⟩ := h.awaits j hj
    exact ⟨seq, awaits.of_record rfl rfl⟩
  have hothers : ∀ j ≠ i, (p.calls j).stage ≠ .holding := by
    intro j hj hholding
    rcases hturn with ⟨hi, -⟩ | ⟨-, hfree, -⟩
    · exact hj (h.alone hholding hi)
    · rw [h.held.mpr ⟨j, hholding⟩] at hfree
      cases hfree
  have hposted : ∀ post ∈ (p.turn i).world.posts, post.1 ≠ i → (p.calls post.1).stage ≠ .waiting := by
    intro post hpost hne
    rcases hturn with ⟨-, hsame⟩ | ⟨-, -, ⟨hsame, -⟩ | ⟨payload, -, hmore⟩⟩
    · exact h.posted post (hsame ▸ hpost)
    · exact h.posted post (hsame ▸ hpost)
    · rw [hmore, List.mem_append, List.mem_singleton] at hpost
      rcases hpost with hpost | rfl
      · exact h.posted post hpost
      · exact absurd rfl hne
  rw [step]
  generalize p.turn i = turn at hcomes hposted
  cases hcomes with
  | failed busy idle => exact orderly_of_ended hothers rfl hposted _
  | answered payload request own heard answers fits => exact orderly_of_ended hothers rfl hposted _
  | @pending seq caller t awaits =>
    refine ⟨⟨fun _ => ⟨i, congrArg Call.stage (p.set_self i _)⟩, fun _ => rfl⟩, fun j hj => ?_,
      fun post hpost => ?_⟩
    · dsimp only at hj ⊢
      by_cases hji : j = i
      · subst hji
        rw [set_self]
        exact ⟨seq, awaits.state, awaits.request, awaits.parser, awaits.unanswered⟩
      · rw [p.set_of_ne hji] at hj
        exact absurd hj (hothers j hji)
    · dsimp only at hpost ⊢
      by_cases hpi : post.1 = i
      · rw [hpi, set_self]
        exact nofun
      · rw [p.set_of_ne hpi]
        exact hposted post hpost hpi

theorem Orderly.drop (h : p.Orderly) (i : Nat) : (p.step (.drop i)).Orderly := by
  have hposted : ∀ post ∈ p.line.posts, post.1 ≠ i → (p.calls post.1).stage ≠ .waiting :=
    fun post hpost _ => h.posted post hpost
  by_cases hstage : (p.calls i).stage = .holding
  · have hothers : ∀ j ≠ i, (p.calls j).stage ≠ .holding := fun j hj hholding =>
      hj (h.alone hholding hstage)
    simp only [step, Call.drop, hstage]
    exact orderly_of_ended hothers rfl hposted _
  · have hshared : (p.calls i).drop p.shared = p.shared := by
      rw [Call.drop]
      split
      · rename_i hholding
        exact absurd hholding hstage
      · rfl
      · rfl
    have hsame : ∀ j, (p.set i { p.calls i with stage := .ended } j).stage = .holding ↔
        (p.calls j).stage = .holding := by
      intro j
      by_cases hj : j = i
      · subst hj
        simp [hstage]
      · rw [p.set_of_ne hj]
    simp only [step, hshared]
    refine ⟨?_, fun j hj => ?_, fun post hpost => ?_⟩
    · simp only [hsame]
      exact h.held
    · have hholding := (hsame j).mp hj
      have hji : j ≠ i := fun hji => hstage (hji ▸ hholding)
      dsimp only
      rw [p.set_of_ne hji]
      exact h.awaits j hholding
    · dsimp only
      by_cases hpi : post.1 = i
      · rw [hpi, set_self]
        exact nofun
      · rw [p.set_of_ne hpi]
        exact hposted post hpost hpi

theorem Orderly.step (h : p.Orderly) (event : Event σ) : (p.step event).Orderly := by
  cases event with
  | poll i => exact h.poll i
  | drop i => exact h.drop i
  | pass world =>
    refine ⟨h.held, fun j hj => ?_, h.posted⟩
    obtain ⟨seq, awaits⟩ := h.awaits j hj
    exact ⟨seq, awaits.of_record rfl rfl⟩

theorem Orderly.run (h : p.Orderly) (events : List (Event σ)) : (p.run events).Orderly := by
  induction events generalizing p with
  | nil => exact h
  | cons event events ih => exact ih (h.step event)

/-- What the next event does to a pool. -/
structure Serial (p : Pool σ) : Prop where
  /-- What is written is the request of the call that has the turn, and each call that wrote before
  has ended. -/
  writes : ∀ event, (p.step event).line.posts = p.line.posts ∨
    ∃ (i : Nat) (payload : Payload), event = .poll i ∧ payload.toList = (p.calls i).request ∧
      (p.step event).line.posts =
        p.line.posts ++ [(i, ((p.calls i).frame p.shared.caller.nextSeq payload).encode)] ∧
      (p.calls i).stage = .waiting ∧ ∀ post ∈ p.line.posts, (p.calls post.1).stage = .ended
  /-- A turn ends a call exactly when it gives the call's result. -/
  ends : ∀ i, (p.calls i).stage ≠ .ended →
    ((p.turn i).call.stage = .ended ↔ (p.turn i).outcome.isSome)
  result : ∀ i, (p.turn i).outcome ≠ some (.error .busy) ∧ (p.turn i).outcome ≠ some (.error .idle)
  /-- A length is given for a response to the call's own request, heard since that was written. -/
  answer : ∀ i len, (p.turn i).outcome = some (.ok len) →
    ∃ (seq : UInt8) (payload : Payload) (f : Frame), payload.toList = (p.calls i).request ∧
      (p.turn i).world.posts.getLast? = some (i, ((p.calls i).frame seq payload).encode) ∧
      f ∈ Parser.frames (Parser.idle.feedAll (p.turn i).world.heard).1 ∧
      f.kind = .response ∧ f.id = (p.calls i).id ∧ f.seq = seq ∧
      len = f.payload.size ∧ len ≤ (p.calls i).response.length ∧
      (p.turn i).call.response = f.payload.toList ++ (p.calls i).response.drop len
  buffer : ∀ i, (∀ len, (p.turn i).outcome ≠ some (.ok len)) →
    (p.turn i).call.response = (p.calls i).response
  others : ∀ event i, event.call? ≠ some i → (p.step event).calls i = p.calls i
  /-- A dropped call ends, and sets the caller free if it held it. -/
  drop : ∀ i, (p.step (.drop i)).calls i = { p.calls i with stage := .ended } ∧
    ((p.calls i).stage = .holding → (p.step (.drop i)).shared.held = false)
  /-- What a dropped call left in flight is abandoned by the call that takes the caller. -/
  abandoned : ∀ i, p.shared.held = false → p.shared.caller.isBusy = true →
    (p.calls i).stage = .waiting →
    p.turn i = { p with shared.caller := p.shared.caller.abandon }.turn i
  /-- A call that finds the caller free has its request written. -/
  transmits : ∀ i, p.shared.held = false → (p.calls i).stage = .waiting →
    (p.calls i).request.length ≤ maxPayloadSize → p.shared.isConnected = true →
    (p.step (.poll i)).line.posts ≠ p.line.posts

theorem Orderly.writes (h : p.Orderly) (i : Nat) :
    (p.turn i).world.posts = p.line.posts ∨
      ∃ payload : Payload, payload.toList = (p.calls i).request ∧
        (p.turn i).world.posts =
          p.line.posts ++ [(i, ((p.calls i).frame p.shared.caller.nextSeq payload).encode)] ∧
        (p.calls i).stage = .waiting ∧ ∀ post ∈ p.line.posts, (p.calls post.1).stage = .ended := by
  rcases h.turn_cases i with ⟨hturn, -⟩ | ⟨-, ⟨-, hsame⟩ | ⟨hstage, hfree, ⟨hsame, -⟩ |
    ⟨payload, hpayload, hmore⟩⟩⟩
  · exact .inl (by rw [hturn]; rfl)
  · exact .inl hsame
  · exact .inl hsame
  · exact .inr ⟨payload, hpayload, hmore, hstage, fun post hpost => h.ended_of_free hfree hpost⟩

theorem Orderly.ends (h : p.Orderly) (hstage : (p.calls i).stage ≠ .ended) :
    (p.turn i).call.stage = .ended ↔ (p.turn i).outcome.isSome := by
  rcases h.turn_cases i with ⟨hturn, -⟩ | ⟨hcomes, -⟩
  · rw [hturn]
    simp [hstage]
  · generalize p.turn i = turn at hcomes ⊢
    cases hcomes <;> simp

theorem Orderly.result (h : p.Orderly) (i : Nat) :
    (p.turn i).outcome ≠ some (.error .busy) ∧ (p.turn i).outcome ≠ some (.error .idle) := by
  rcases h.turn_cases i with ⟨hturn, -⟩ | ⟨hcomes, -⟩
  · rw [hturn]
    exact ⟨nofun, nofun⟩
  · generalize p.turn i = turn at hcomes ⊢
    cases hcomes with
    | failed busy idle => exact ⟨fun h => busy (by cases h; rfl), fun h => idle (by cases h; rfl)⟩
    | answered payload request own heard answers fits => exact ⟨nofun, nofun⟩
    | pending awaits => exact ⟨nofun, nofun⟩

theorem Orderly.answer (h : p.Orderly) {len : Nat} (hok : (p.turn i).outcome = some (.ok len)) :
    ∃ (seq : UInt8) (payload : Payload) (f : Frame), payload.toList = (p.calls i).request ∧
      (p.turn i).world.posts.getLast? = some (i, ((p.calls i).frame seq payload).encode) ∧
      f ∈ Parser.frames (Parser.idle.feedAll (p.turn i).world.heard).1 ∧
      f.kind = .response ∧ f.id = (p.calls i).id ∧ f.seq = seq ∧
      len = f.payload.size ∧ len ≤ (p.calls i).response.length ∧
      (p.turn i).call.response = f.payload.toList ++ (p.calls i).response.drop len := by
  rcases h.turn_cases i with ⟨hturn, -⟩ | ⟨hcomes, -⟩
  · rw [hturn] at hok
    cases hok
  · generalize p.turn i = turn at hcomes hok ⊢
    cases hcomes with
    | failed busy idle => cases hok
    | pending awaits => cases hok
    | @answered f seq caller t payload request own heard answers fits =>
      cases hok
      obtain ⟨hkind, hid, hseq⟩ := of_decide_eq_true answers
      exact ⟨seq, payload, f, request, own, heard, hkind, hid, hseq, rfl, fits, rfl⟩

theorem Orderly.buffer (h : p.Orderly) (hnot : ∀ len, (p.turn i).outcome ≠ some (.ok len)) :
    (p.turn i).call.response = (p.calls i).response := by
  rcases h.turn_cases i with ⟨hturn, -⟩ | ⟨hcomes, -⟩
  · rw [hturn]
  · generalize p.turn i = turn at hcomes hnot ⊢
    cases hcomes with
    | failed busy idle => rfl
    | pending awaits => rfl
    | answered payload request own heard answers fits => exact absurd rfl (hnot _)

theorem Orderly.transmits (h : p.Orderly) (hfree : p.shared.held = false)
    (hstage : (p.calls i).stage = .waiting) (hsize : (p.calls i).request.length ≤ maxPayloadSize)
    (hup : p.shared.isConnected = true) : (p.turn i).world.posts ≠ p.line.posts := by
  rcases h.turn_cases i with ⟨-, hend | ⟨-, hheld⟩⟩ | ⟨-, ⟨hholding, -⟩ | ⟨-, -, ⟨-, hdown⟩ |
    ⟨payload, -, hmore⟩⟩⟩
  · rw [hstage] at hend
    cases hend
  · rw [hfree] at hheld
    cases hheld
  · rw [hstage] at hholding
    cases hholding
  · rw [hdown hsize] at hup
    cases hup
  · rw [hmore]
    simp

/-- A call that takes the caller with a transaction in flight does what it would do had that been
abandoned. -/
theorem turn_abandon (hfree : p.shared.held = false) (hbusy : p.shared.caller.isBusy = true)
    (hstage : (p.calls i).stage = .waiting) :
    p.turn i = { p with shared.caller := p.shared.caller.abandon }.turn i := by
  have hidle : p.shared.caller.abandon.isBusy = false := rfl
  simp only [turn, tap, Call.poll, hstage, hfree, Call.acquire, hbusy, hidle]
  rfl

theorem step_others {event : Event σ} (h : event.call? ≠ some i) :
    (p.step event).calls i = p.calls i := by
  cases event with
  | poll j => exact p.set_of_ne (fun hij => h (congrArg some hij.symm)) _
  | drop j => exact p.set_of_ne (fun hij => h (congrArg some hij.symm)) _
  | pass world => rfl

theorem Orderly.serial (h : p.Orderly) : p.Serial where
  writes event := by
    cases event with
    | poll i =>
      rcases h.writes i with hsame | ⟨payload, hwrite⟩
      · exact .inl hsame
      · exact .inr ⟨i, payload, rfl, hwrite⟩
    | drop i => exact .inl rfl
    | pass world => exact .inl rfl
  ends _ := h.ends
  result := h.result
  answer _ _ := h.answer
  buffer _ := h.buffer
  others _ _ := step_others
  drop i := ⟨p.set_self i _, fun hstage => by simp only [Pool.step, Call.drop, hstage]⟩
  abandoned _ := turn_abandon
  transmits _ := h.transmits

/-- Whatever the calls, their turns, the drops and the link do, the calls' transactions come one after
the other. A call that waits for an acknowledgement only is one whose buffer nobody reads. -/
theorem run_serial (caller : Caller) (calls : Nat → Call) (world : σ) (events : List (Event σ)) :
    ((fresh caller calls world).run events).Serial := by
  have h : ((fresh caller calls world).run events).Orderly :=
    (orderly_fresh caller calls world).run events
  exact h.serial

end Events

end Pool

end HalfLink
