import HalfLink.Proofs.Course.Deed

/-! The course of a caller: its operations one after the other, and the deeds that they are made of,
those inside a waiting call included. What every deed keeps, a whole course keeps. -/
namespace HalfLink

namespace Caller

theorem eq_of_ofSettings {s : Settings} {c : Caller} (h : ofSettings s = .ok c) :
    c = ⟨s, .ofSettings s, .idle, .idle, 0⟩ := by
  unfold ofSettings at h
  split at h
  · cases h
  · exact (Except.ok.inj h).symm

variable {σ : Type} [Link σ] [TickSource σ]

/-- The polls of a wait. -/
def waitDeeds (c : Caller) (response : Bytes) (w : σ) : Nat → List (Deed σ)
  | 0 => []
  | polls + 1 =>
    let p := c.poll response w
    ⟨c, w, .poll response⟩ ::
      match p.outcome with
      | some _ => []
      | none => p.caller.waitDeeds p.response p.world polls

def exchangeDeeds (polls : Nat) (c : Caller) (id : TransactionId) (request response : Bytes) (w : σ) :
    List (Deed σ) :=
  ⟨c, w, .start id request⟩ ::
    match c.start id request w with
    | (.error _, _, _) => []
    | (.ok _, c, w) => c.waitDeeds response w polls

/-- The polls that drive a transaction in flight to its end, the start and the polls behind it. -/
def sendDeeds (polls : Nat) (c : Caller) (id : TransactionId) (request response : Bytes) (w : σ) :
    List (Deed σ) :=
  if c.isBusy then
    let settled := c.wait scratch w polls
    c.waitDeeds scratch w polls ++
      match settled.outcome with
      | none => []
      | some _ => settled.caller.exchangeDeeds polls id request response settled.world
  else c.exchangeDeeds polls id request response w

/-- The operations of a caller, and what happens to its world between them. -/
inductive Op (ε : Type)
  | start (id : TransactionId) (request : Bytes)
  | poll (response : Bytes)
  | send (polls : Nat) (id : TransactionId) (request response : Bytes)
  | notify (polls : Nat) (id : TransactionId) (request : Bytes)
  | abandon
  | event (e : ε)
deriving DecidableEq, Repr

end Caller

/-- A caller and its world with all that the caller has done. -/
structure Course (σ : Type) where
  caller : Caller
  world : σ
  deeds : List (Caller.Deed σ) := []

namespace Course

open Caller

variable {σ ε : Type} [Link σ] [TickSource σ]

def fresh (c : Caller) (w : σ) : Course σ := ⟨c, w, []⟩

def act (s : Course σ) (a : Act) : Course σ :=
  let d : Deed σ := ⟨s.caller, s.world, a⟩
  ⟨d.next, d.left, s.deeds ++ [d]⟩

variable (happen : ε → σ → σ)

def step (s : Course σ) : Op ε → Course σ
  | .start id request =>
    let (_, caller, world) := s.caller.start id request s.world
    ⟨caller, world, s.deeds ++ [⟨s.caller, s.world, .start id request⟩]⟩
  | .poll response =>
    let p := s.caller.poll response s.world
    ⟨p.caller, p.world, s.deeds ++ [⟨s.caller, s.world, .poll response⟩]⟩
  | .send polls id request response =>
    let p := s.caller.send polls id request response s.world
    ⟨p.caller, p.world, s.deeds ++ s.caller.sendDeeds polls id request response s.world⟩
  | .notify polls id request =>
    let (_, caller, world) := s.caller.notify polls id request s.world
    ⟨caller, world, s.deeds ++ s.caller.sendDeeds polls id request scratch s.world⟩
  | .abandon => ⟨s.caller.abandon, s.world, s.deeds ++ [⟨s.caller, s.world, .abandon⟩]⟩
  | .event e => { s with world := happen e s.world }

def run (s : Course σ) (ops : List (Op ε)) : Course σ := ops.foldl (step happen) s

/-- What holds of a course and goes on to hold. -/
structure Kept (P : Course σ → Prop) : Prop where
  act : ∀ s a, P s → P (s.act a)
  event : ∀ s e, P s → P { s with world := happen e s.world }

variable {happen} {P : Course σ → Prop}

theorem Kept.wait (h : Kept happen P) {c : Caller} {w : σ} {deeds : List (Deed σ)}
    (hs : P ⟨c, w, deeds⟩) (response : Bytes) (polls : Nat) :
    P ⟨(c.wait response w polls).caller, (c.wait response w polls).world,
      deeds ++ c.waitDeeds response w polls⟩ := by
  induction polls generalizing c response w deeds with
  | zero => simpa only [waitDeeds, Caller.wait, List.append_nil] using hs
  | succ polls ih =>
    have hnext : P ⟨(c.poll response w).caller, (c.poll response w).world,
        deeds ++ [⟨c, w, .poll response⟩]⟩ := h.act _ (.poll response) hs
    simp only [waitDeeds, Caller.wait]
    rw [List.append_cons]
    cases (c.poll response w).outcome with
    | some result => simpa only [List.append_nil] using hnext
    | none => exact ih hnext _

theorem Kept.exchange (h : Kept happen P) {c : Caller} {w : σ} {deeds : List (Deed σ)}
    (hs : P ⟨c, w, deeds⟩) (polls : Nat) (id : TransactionId) (request response : Bytes) :
    P ⟨(c.exchange polls id request response w).caller, (c.exchange polls id request response w).world,
      deeds ++ c.exchangeDeeds polls id request response w⟩ := by
  have hnext := h.act _ (.start id request) hs
  simp only [Course.act, Deed.next, Deed.left, Deed.run] at hnext
  rw [exchangeDeeds, Caller.exchange, List.append_cons]
  rcases hstart : c.start id request w with ⟨e | ⟨⟩, c', w'⟩ <;> rw [hstart] at hnext
  · simpa only [List.append_nil] using hnext
  · exact h.wait hnext response polls

theorem Kept.send (h : Kept happen P) {s : Course σ} (hs : P s) (polls : Nat) (id : TransactionId)
    (request response : Bytes) :
    P ⟨(s.caller.send polls id request response s.world).caller,
      (s.caller.send polls id request response s.world).world,
      s.deeds ++ s.caller.sendDeeds polls id request response s.world⟩ := by
  rw [sendDeeds, Caller.send]
  split
  · have hsettled := h.wait hs scratch polls
    dsimp only
    rw [← List.append_assoc]
    cases (s.caller.wait scratch s.world polls).outcome with
    | none => simpa only [List.append_nil] using hsettled
    | some result => exact h.exchange hsettled polls id request response
  · exact h.exchange hs polls id request response

theorem Kept.step (h : Kept happen P) {s : Course σ} (hs : P s) (op : Op ε) :
    P (s.step happen op) := by
  cases op with
  | start id request =>
    have hact := h.act s (.start id request) hs
    simp only [Course.act, Deed.next, Deed.left, Deed.run] at hact
    exact hact
  | poll response => exact h.act s (.poll response) hs
  | send polls id request response => exact h.send hs polls id request response
  | notify polls id request => exact h.send hs polls id request scratch
  | abandon => exact h.act s .abandon hs
  | event e => exact h.event s e hs

theorem Kept.run (h : Kept happen P) {s : Course σ} (hs : P s) (ops : List (Op ε)) :
    P (s.run happen ops) := by
  induction ops generalizing s with
  | nil => exact hs
  | cons op ops ih => exact ih (h.step hs op)

/-- What is kept holds before each deed of a course. -/
theorem Kept.before (h : Kept happen P) {c : Caller} {w : σ} (hfresh : P (fresh c w))
    (ops : List (Op ε)) {front back : List (Deed σ)} {d : Deed σ}
    (hd : ((fresh c w).run happen ops).deeds = front ++ d :: back) :
    P ⟨d.caller, d.world, front⟩ := by
  have hall : Kept happen fun s : Course σ => P s ∧
      ∀ front d back, s.deeds = front ++ d :: back → P ⟨d.caller, d.world, front⟩ := by
    refine ⟨fun s a ⟨hs, hbefore⟩ => ⟨h.act s a hs, fun front d back hd => ?_⟩,
      fun s e ⟨hs, hbefore⟩ => ⟨h.event s e hs, hbefore⟩⟩
    rcases List.eq_nil_or_concat back with rfl | ⟨back, last, rfl⟩
    · obtain ⟨rfl, hlast⟩ := List.append_inj' hd rfl
      obtain rfl := List.head_eq_of_cons_eq hlast
      exact hs
    · rw [List.concat_eq_append, ← List.cons_append, ← List.append_assoc] at hd
      exact hbefore front d back (List.append_inj' hd rfl).1
  have hrun := hall.run ⟨hfresh, fun front d back hd => by simp [fresh] at hd⟩ ops
  exact hrun.2 front d back hd

theorem Kept.before_place (h : Kept happen P) {c : Caller} {w : σ} (hfresh : P (fresh c w))
    (ops : List (Op ε)) {j : Nat} {d : Deed σ}
    (hd : ((fresh c w).run happen ops).deeds[j]? = some d) :
    P ⟨d.caller, d.world, ((fresh c w).run happen ops).deeds.take j⟩ := by
  obtain ⟨hlt, rfl⟩ := List.getElem?_eq_some_iff.mp hd
  have hsplit := List.take_append_drop j ((fresh c w).run happen ops).deeds
  rw [← List.getElem_cons_drop hlt] at hsplit
  exact h.before hfresh ops hsplit.symm

end Course

end HalfLink
