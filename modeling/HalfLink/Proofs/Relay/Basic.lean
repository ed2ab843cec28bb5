import HalfLink.Call.Report
import HalfLink.Proofs.Call.Seeking

/-! Reports that are forwarded over a line that keeps its frames in order and alters and doubles none
of them, but may lose whole frames in either direction, be late with any byte and cut reads anywhere.
What the answering half does, and how the time goes by, is laid down from outside and happens between
the reads of the caller. -/
namespace HalfLink

/-- A frame that was put on one direction of the line. -/
structure Post where
  /-- The number of the request that it is, or that it answers. -/
  number : Nat
  bytes : Bytes
  lost : Bool := false
deriving DecidableEq, Repr

namespace Post

/-- The frames that are not lost. -/
def carried (posts : List Post) : List Post := posts.filter (!·.lost)

def content (posts : List Post) : Bytes := (carried posts).flatMap Post.bytes

/-- The frames that do not end within the first `n` bytes. -/
def beyond : Nat → List Post → List Post
  | _, [] => []
  | n, p :: posts => if p.bytes.length ≤ n then beyond (n - p.bytes.length) posts else p :: posts

theorem carried_concat (posts : List Post) (p : Post) :
    carried (posts ++ [p]) = carried posts ++ if p.lost then [] else [p] := by
  cases h : p.lost <;> simp [carried, h]

theorem content_concat (posts : List Post) (p : Post) :
    content (posts ++ [p]) = content posts ++ if p.lost then [] else p.bytes := by
  rw [content, carried_concat, List.flatMap_append, ← content]
  cases p.lost <;> simp

/-- What is not beyond the first `n` bytes lies within them. -/
theorem exists_append_beyond (n : Nat) (posts : List Post) :
    ∃ front, posts = front ++ beyond n posts ∧ (front.flatMap Post.bytes).length ≤ n := by
  induction posts generalizing n with
  | nil => exact ⟨[], by simp [beyond]⟩
  | cons p posts ih =>
    rw [beyond]
    split
    · rename_i hp
      obtain ⟨front, hfront, hlength⟩ := ih (n - p.bytes.length)
      refine ⟨p :: front, congrArg (p :: ·) hfront, ?_⟩
      rw [List.flatMap_cons, List.length_append]
      omega
    · exact ⟨[], by simp⟩

/-- Behind the first `n` bytes stands what is left of the frame in which they end, and then frames
that are beyond them. -/
theorem drop_flatMap (n : Nat) (posts : List Post) :
    ∃ back rest, (posts.flatMap Post.bytes).drop n = back ++ rest.flatMap Post.bytes ∧
      rest <:+ beyond n posts ∧
      (back = [] ∨ ∃ p ∈ posts, ∃ front, front ≠ [] ∧ p.bytes = front ++ back) := by
  induction posts generalizing n with
  | nil => exact ⟨[], [], by simp [beyond]⟩
  | cons p posts ih =>
    rw [beyond, List.flatMap_cons]
    split
    · rename_i hp
      obtain ⟨back, rest, hdrop, hrest, hback⟩ := ih (n - p.bytes.length)
      refine ⟨back, rest, ?_, hrest, ?_⟩
      · rw [List.drop_append, List.drop_eq_nil_of_le hp, List.nil_append, hdrop]
      · exact hback.imp_right fun ⟨q, hq, hsplit⟩ => ⟨q, List.mem_cons_of_mem p hq, hsplit⟩
    · rename_i hp
      by_cases hzero : n = 0
      · exact ⟨[], p :: posts, by simp [hzero], List.suffix_rfl, .inl rfl⟩
      · refine ⟨p.bytes.drop n, posts, ?_, List.suffix_cons _ _, .inr ⟨p, List.mem_cons_self,
          p.bytes.take n, ?_, (List.take_append_drop _ _).symm⟩⟩
        · rw [List.drop_append_of_le_length (by omega)]
        · exact List.ne_nil_of_length_pos (by rw [List.length_take]; omega)

end Post

/-- One direction of a line that may lose whole frames. -/
structure Lane where
  /-- Which of the frames that are put on the lane are lost. -/
  loses : Nat → Bool
  posts : List Post := []
  /-- How many bytes of the frames that are not lost have been read. -/
  taken : Nat := 0
  taken_le : taken ≤ (Post.content posts).length

namespace Lane

def empty (loses : Nat → Bool) : Lane := { loses, taken_le := le_rfl }

def content (l : Lane) : Bytes := Post.content l.posts

def read (l : Lane) : Bytes := l.content.take l.taken

def pending (l : Lane) : Bytes := l.content.drop l.taken

/-- The frames that are neither lost nor read to their end. -/
def undelivered (l : Lane) : List Post := Post.beyond l.taken (Post.carried l.posts)

/-- When `count` requests have gone out, no frame is undelivered that has 256 or more later ones
behind it. -/
def timely (count : Nat) (l : Lane) : Bool :=
  l.undelivered.all fun p => decide (count ≤ p.number + 256)

def put (l : Lane) (number : Nat) (bytes : Bytes) : Lane where
  loses := l.loses
  posts := l.posts ++ [⟨number, bytes, l.loses l.posts.length⟩]
  taken := l.taken
  taken_le := by
    rw [Post.content_concat, List.length_append]
    exact l.taken_le.trans (Nat.le_add_right _ _)

def take (l : Lane) (n : Nat) : Lane where
  loses := l.loses
  posts := l.posts
  taken := l.taken + (l.pending.take n).length
  taken_le := by
    have hall := l.taken_le
    rw [List.length_take, pending, List.length_drop, content]
    omega

theorem read_append_pending (l : Lane) : l.read ++ l.pending = l.content := List.take_append_drop _ _

theorem length_read (l : Lane) : l.read.length = l.taken := List.length_take_of_le l.taken_le

@[simp] theorem taken_put (l : Lane) (number : Nat) (bytes : Bytes) :
    (l.put number bytes).taken = l.taken := rfl

theorem content_put (l : Lane) (number : Nat) (bytes : Bytes) :
    (l.put number bytes).content =
      l.content ++ if l.loses l.posts.length then [] else bytes :=
  Post.content_concat _ _

theorem read_put (l : Lane) (number : Nat) (bytes : Bytes) : (l.put number bytes).read = l.read := by
  rw [read, content_put, taken_put]
  exact List.take_append_of_le_length l.taken_le

theorem read_take (l : Lane) (n : Nat) : (l.take n).read = l.read ++ l.pending.take n := by
  have hall : (l.read ++ l.pending.take n) ++ l.pending.drop n = l.content := by
    rw [List.append_assoc, List.take_append_drop, read_append_pending]
  have hlength : (l.take n).taken = (l.read ++ l.pending.take n).length := by
    rw [List.length_append, length_read]
    rfl
  rw [read, hlength, show (l.take n).content = l.content from rfl, ← hall]
  exact List.take_left

end Lane

/-- The line as the answering half has it before it. -/
structure Road where
  requests : Lane
  responses : Lane
  /-- How many bytes the line lets through to each of the coming reads; to those beyond, none. -/
  grants : List Nat

namespace Road

/-- Puts a response on the line. The requests are answered as they arrive, so it belongs to the first
of them that has none yet. -/
def write (bytes : Bytes) (w : Road) : Except LinkError Unit × Road :=
  let number := ((Post.carried w.requests.posts)[w.responses.posts.length]?).elim 0 Post.number
  (.ok (), { w with responses := w.responses.put number bytes })

def read (limit : Nat) (w : Road) : Except LinkError Bytes × Road :=
  match w.grants with
  | [] => (.ok [], w)
  | n :: grants =>
    (.ok (w.requests.pending.take (min limit n)),
      { w with requests := w.requests.take (min limit n), grants })

theorem read_ok {limit : Nat} {w w' : Road} {bytes : Bytes} (h : w.read limit = (.ok bytes, w')) :
    bytes.length ≤ limit ∧ w.requests.pending.length = bytes.length + w'.requests.pending.length := by
  unfold read at h
  split at h
  · cases h
    simp
  · cases h
    refine ⟨by rw [List.length_take]; omega, ?_⟩
    simp only [Lane.pending, Lane.take, Lane.content, List.length_take, List.length_drop]
    omega

instance : Link Road where
  write := write
  read := read
  backlog w := w.requests.pending.length
  length_read_le h := (read_ok h).1
  backlog_read_lt h hne := by
    have := (read_ok h).2
    have := List.length_pos_iff.mpr hne
    omega

end Road

/-- A poll of the answering half, in at most `reads` reads. -/
structure Look where
  grants : List Nat
  reads : Nat
deriving DecidableEq, Repr

/-- A time that goes by for the caller. It ends at any tick, so any wait can time out. -/
structure Lull where
  looks : List Look
  clock : Ticks 32
deriving DecidableEq, Repr

/-- The line as the caller has it before it, with the half at its other end. -/
structure Relay (τ : Type) where
  clock : Ticks 32 := 0
  callee : Callee τ
  requests : Lane
  responses : Lane
  /-- What goes by before each of the coming reads, and how many bytes the line then lets through to
  it. The reads beyond give nothing. -/
  plan : List (Lull × Nat) := []
  /-- Whether a frame was still undelivered when 256 or more later requests had gone out. -/
  overdue : Bool := false

namespace Relay

variable {τ : Type}

def fresh (d : Directory τ) (device : τ) (losesRequest losesResponse : Nat → Bool) : Relay τ where
  callee := { directory := d, device }
  requests := .empty losesRequest
  responses := .empty losesResponse

/-- The line before the callee. -/
def road (r : Relay τ) (grants : List Nat) : Road := ⟨r.requests, r.responses, grants⟩

def look (r : Relay τ) (l : Look) : Relay τ :=
  let (_, callee, w) := r.callee.poll (r.road l.grants) l.reads
  { r with callee, requests := w.requests, responses := w.responses }

def pass (r : Relay τ) (lull : Lull) : Relay τ :=
  { lull.looks.foldl look r with clock := lull.clock }

def write (bytes : Bytes) (r : Relay τ) : Except LinkError Unit × Relay τ :=
  let requests := r.requests.put r.requests.posts.length bytes
  let count := requests.posts.length
  let timely := requests.timely count && r.responses.timely count
  (.ok (), { r with requests, overdue := r.overdue || !timely })

def read (limit : Nat) (r : Relay τ) : Except LinkError Bytes × Relay τ :=
  match r.plan with
  | [] => (.ok [], r)
  | (lull, grant) :: plan =>
    let r := { r with plan }.pass lull
    (.ok (r.responses.pending.take (min limit grant)),
      { r with responses := r.responses.take (min limit grant) })

theorem plan_looks (r : Relay τ) (looks : List Look) : (looks.foldl look r).plan = r.plan := by
  induction looks generalizing r with
  | nil => rfl
  | cons l looks ih => exact ih (r.look l)

theorem plan_pass (r : Relay τ) (lull : Lull) : (r.pass lull).plan = r.plan :=
  r.plan_looks lull.looks

theorem read_ok {limit : Nat} {r r' : Relay τ} {bytes : Bytes}
    (h : r.read limit = (.ok bytes, r')) :
    bytes.length ≤ limit ∧ (bytes ≠ [] → r'.plan.length < r.plan.length) := by
  unfold read at h
  split at h
  · cases h
    simp
  · rename_i lull grant plan hplan
    cases h
    refine ⟨by rw [List.length_take]; omega, fun _ => ?_⟩
    rw [plan_pass, hplan]
    exact Nat.lt_succ_self _

instance : Link (Relay τ) where
  write := write
  read := read
  backlog r := r.plan.length
  length_read_le h := (read_ok h).1
  backlog_read_lt h := (read_ok h).2

instance : TickSource (Relay τ) where
  readTicks r := r.clock
  writeTicks ticks r := { r with clock := ticks }

end Relay

/-- A report that was to be forwarded, and what came of it. -/
structure Errand where
  report : Bytes
  outcome : Option (Except Failure Unit)
  /-- What was written for it. -/
  written : List Bytes
deriving DecidableEq, Repr

/-- A caller that does nothing but forward reports. -/
structure Station (τ : Type) where
  caller : Caller
  relay : Relay τ
  errands : List Errand := []

/-- What can happen at a station. A forward ends early when its polls run out; its transaction is then
still in flight. -/
inductive Deed
  | forward (polls : Nat) (plan : List (Lull × Nat)) (report : Bytes)
  | poll (plan : List (Lull × Nat))
  | pass (lull : Lull)

namespace Station

variable {τ : Type}

def fresh (c : Caller) (d : Directory τ) (device : τ) (losesRequest losesResponse : Nat → Bool) :
    Station τ where
  caller := c
  relay := .fresh d device losesRequest losesResponse

def step (s : Station τ) : Deed → Station τ
  | .forward polls plan report =>
    let (outcome, caller, relay) := Report.forward polls s.caller report { s.relay with plan }
    let written := relay.requests.posts.drop s.relay.requests.posts.length
    { caller, relay, errands := s.errands ++ [⟨report, outcome, written.map Post.bytes⟩] }
  | .poll plan =>
    let p := s.caller.poll Caller.scratch { s.relay with plan }
    { s with caller := p.caller, relay := p.world }
  | .pass lull => { s with relay := s.relay.pass lull }

def run (s : Station τ) (deeds : List Deed) : Station τ := deeds.foldl step s

/-- The reports for which a request went out. -/
def posted (s : Station τ) : List Errand := s.errands.filter (·.written ≠ [])

end Station

end HalfLink
