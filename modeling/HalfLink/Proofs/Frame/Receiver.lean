import HalfLink.Frame.Receiver
import HalfLink.Proofs.Frame.Resync

/-! The receiver with all its fields against the parser, and with it against the plain reading. Neither
what it was fed nor what was rejected leaves anything in a field: it is the receiver that has taken only
what the plain reading leaves undecided. -/
namespace HalfLink

open HalfLink.Parser (fromStart behind)

namespace Receiver

/-- One pass over pending bytes, which begins anew. -/
def look (r : Receiver) (found : Option Frame) (pending : Buffer maxFrameSize) : Replay :=
  r.reset.replay found (fromStart pending)

theorem look_eq (r : Receiver) (found : Option Frame) (pending : Buffer maxFrameSize) :
    r.look found pending = (Parser.look found pending).receiver := by
  rw [look, reset_eq, ← Parser.receiver_idle, Parser.receiver_replay, Parser.look]

theorem search_of_none {r : Receiver} {found : Option Frame} {pending : Buffer maxFrameSize}
    (h : (r.look found pending).unread = none) :
    r.search pending found = ((r.look found pending).found, (r.look found pending).receiver) := by
  rw [search]
  split
  · rename_i hreplay
    rw [look, fromStart, hreplay]
  · rename_i hreplay
    rw [look, fromStart, hreplay] at h
    cases h

theorem search_of_some {r : Receiver} {found : Option Frame} {pending : Buffer maxFrameSize}
    {rest : Bytes} (h : (r.look found pending).unread = some rest) :
    r.search pending found = { (r.look found pending).receiver with raw := .empty }.search
      ((r.look found pending).receiver.raw.append rest) (r.look found pending).found := by
  rw [search]
  split
  · rename_i hreplay
    rw [look, fromStart, hreplay] at h
    cases h
  · rename_i rest' hreplay
    rw [look, fromStart, hreplay] at h ⊢
    obtain rfl := Option.some.inj h
    rfl

/-- Each pass begins anew, so a search does not depend on the fields it begins with. -/
theorem search_eq (r : Receiver) (pending : Buffer maxFrameSize) (found : Option Frame) :
    r.search pending found =
      ((Parser.rescan pending found).1, (Parser.rescan pending found).2.receiver) := by
  fun_induction Parser.rescan pending found generalizing r with
  | case1 pending found p found' hreplay =>
    have hlook : r.look found pending = ⟨p.receiver, found', none⟩ := by
      rw [look_eq, Parser.look, fromStart, hreplay]
      rfl
    rw [search_of_none (congrArg Replay.unread hlook), hlook]
  | case2 pending found p found' rest hreplay ih =>
    have hlook : r.look found pending = ⟨p.receiver, found', some rest⟩ := by
      rw [look_eq, Parser.look, fromStart, hreplay]
      rfl
    rw [search_of_some (congrArg Replay.unread hlook), hlook, Parser.raw_receiver]
    exact ih _

end Receiver

namespace Parser

theorem receiver_injective : Function.Injective receiver := by
  rintro ⟨phase, raw⟩ ⟨phase', raw'⟩ h
  cases phase <;> cases phase' <;> grind [receiver, cases Header]

theorem receiver_feed (p : Parser) (byte : UInt8) :
    p.receiver.feed byte = ((p.feed byte).1, (p.feed byte).2.receiver) := by
  rw [Receiver.feed, feed, receiver_step]
  obtain ⟨answer, p'⟩ := p.step byte
  cases answer with
  | ok frame? => rfl
  | error e =>
    dsimp only
    rw [Receiver.rescan, Receiver.search_eq, raw_receiver]
    obtain ⟨found, p''⟩ := rescan p'.raw none
    cases found <;> rfl

/-- A receiver that is fed answers as the parser does, and ends in the parser's fields. -/
theorem receiver_feedAll (p : Parser) (bytes : Bytes) :
    p.receiver.feedAll bytes = ((p.feedAll bytes).1, (p.feedAll bytes).2.receiver) := by
  induction bytes generalizing p with
  | nil => rfl
  | cons byte rest ih => simp only [Receiver.feedAll, feedAll, receiver_feed, ih]

end Parser

namespace Receiver

theorem feedAll_fresh (bytes : Bytes) :
    (fresh.feedAll bytes).2 = (behind (scan bytes).2).receiver := by
  rw [← Parser.receiver_idle, Parser.receiver_feedAll, Parser.feedAll_idle]

/-- The receiver after any bytes is, in every field, the receiver after the part of them whose reading
is undecided, and an error tells that this part became invalid and holds no frame. -/
theorem feedAll_undecided (bytes : Bytes) :
    (scan bytes).2 <:+ bytes ∧ (scan bytes).2.length ≤ 255 ∧
      ((scan bytes).2 = [] ∨
        ∃ rest, (scan bytes).2 = frameStart :: rest ∧ Opening.read rest = .undecided) ∧
      (fresh.feedAll bytes).2 = (fresh.feedAll (scan bytes).2).2 ∧
      ((fresh.feedAll bytes).2.isIdle ↔ (scan bytes).2 = []) ∧
      ∀ byte e, ((fresh.feedAll bytes).2.feed byte).1 = .error e ↔
        ∃ rest, (scan bytes).2 = frameStart :: rest ∧
          Opening.read (rest ++ [byte]) = .invalid e ∧ (scan (rest ++ [byte])).1 = [] := by
  have hu := pending_scan bytes
  refine ⟨scan_suffix bytes, hu.length_le, hu.eq_nil_or, ?_, ?_, fun byte e => ?_⟩
  · rw [feedAll_fresh, feedAll_fresh, hu.scan_eq]
  · rw [feedAll_fresh, Parser.isIdle_receiver, Parser.isIdle_behind]
  · rw [feedAll_fresh, Parser.receiver_feed, Parser.feed_behind hu]
    exact Parser.verdict_eq_error_iff hu

/-- The states that a receiver comes to, with the bytes that it was fed since it was last reset. -/
inductive Fed : Bytes → Receiver → Prop
  | fresh : Fed [] fresh
  | feed {taken : Bytes} {r : Receiver} (byte : UInt8) :
    Fed taken r → Fed (taken ++ [byte]) (r.feed byte).2
  | reset {taken : Bytes} {r : Receiver} : Fed taken r → Fed [] r.reset

theorem Fed.feedAll {taken : Bytes} {r : Receiver} (h : Fed taken r) (bytes : Bytes) :
    Fed (taken ++ bytes) (r.feedAll bytes).2 := by
  induction bytes generalizing taken r with
  | nil => rwa [List.append_nil]
  | cons byte rest ih =>
    rw [List.append_cons]
    exact ih (h.feed byte)

theorem Fed.eq_behind {taken : Bytes} {r : Receiver} (h : Fed taken r) :
    r = (behind (scan taken).2).receiver := by
  induction h with
  | fresh => rw [scan]; rfl
  | @feed taken r byte _ ih =>
    rw [ih, Parser.receiver_feed, Parser.feed_behind (pending_scan _),
      ← congrArg Prod.snd (scan_append _ [byte])]
  | reset => rw [scan, reset_eq]; rfl

end Receiver

end HalfLink
