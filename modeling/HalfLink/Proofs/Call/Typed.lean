import HalfLink.Call.Contract
import HalfLink.Proofs.Relay.Clean

/-! Typed calls. A half tells the other of a failure by a response that it leaves empty, and an empty
response is never taken for a reply when no reply can be read from it. -/
namespace HalfLink

namespace Buffer

variable {n : Nat} {b : Buffer n} {bytes : Bytes}

theorem append_of_lt (h : n < b.size + bytes.length) : b.append bytes = b := by
  rw [append, dif_neg (Nat.not_le.mpr h)]

theorem ofList?_of_le (h : bytes.length ≤ n) : ofList? bytes = some (⟨bytes, h⟩ : Buffer n) :=
  dif_pos h

theorem ofList?_of_lt (h : n < bytes.length) : (ofList? bytes : Option (Buffer n)) = none :=
  dif_neg (Nat.not_le.mpr h)

end Buffer

namespace Contract

variable {α β τ : Type} {c : Contract α β} {f : α → τ → β × τ}

/-- A readable request is handed to the function once, and the reply's whole encoding is appended or
nothing is. -/
theorem serve_ok {bytes : Bytes} {request : α} (h : c.request.read bytes = .ok request)
    (response : Payload) (device : τ) :
    c.serve f bytes response device =
      (response.append (c.response.encode (f request device).1), (f request device).2) := by
  rw [serve, h]
  dsimp only
  rcases Nat.lt_or_ge maxPayloadSize (c.response.encode (f request device).1).length with
    hlarge | hfits
  · rw [Buffer.ofList?_of_lt hlarge, Buffer.append_of_lt (Nat.lt_add_left _ hlarge)]
  · rw [Buffer.ofList?_of_le hfits]

theorem serve_error {bytes : Bytes} {e : Packed.Error} (h : c.request.read bytes = .error e)
    (response : Payload) (device : τ) : c.serve f bytes response device = (response, device) := by
  rw [serve, h]

theorem readReply_ok {reply : Bytes} {b : β} (h : c.response.read reply = .ok b) (rest : Bytes) :
    c.readReply (reply ++ rest) reply.length = .ok b := by
  rw [readReply, List.take_left, h]

theorem readReply_nothing (hempty : ∀ b, c.response.read [] ≠ .ok b) (response : Bytes) :
    c.readReply response 0 = .error .decode := by
  rw [readReply, List.take_zero]
  cases hread : c.response.read [] with
  | error e => rfl
  | ok b => exact absurd hread (hempty b)

/-- A request that no payload holds is refused over any link. -/
theorem send_of_lt {σ : Type} [Link σ] [TickSource σ] (polls : Nat) (caller : Caller) {request : α}
    (w : σ) (h : maxPayloadSize < (c.request.encode request).length) :
    c.send polls caller request w = (some (.error .encode), caller, w) := by
  rw [send, Buffer.ofList?_of_lt h]

/-- A typed call on a clean line, to a callee with the contract's handler. -/
theorem send_of_le {polls : Nat} {caller : Caller} {request : α} {r : Relay τ}
    (hrequest : c.request.Faithful) (hresponse : c.response.Faithful)
    (hempty : ∀ b, c.response.read [] ≠ .ok b)
    (hfits : (c.request.encode request).length ≤ maxPayloadSize) (clean : r.Clean)
    (hidle : caller.isBusy = false) (hup : caller.isConnected = true)
    (hlookup : r.callee.directory.lookup c.id = some (c.serve f))
    (htimely : (caller.start c.id (c.request.encode request) r).2.2.InTime
      (Ticks.offset (readTicks r) caller.settings.responseTimeout) polls) :
    ∃ caller' r', c.send polls caller request r =
        (some (if (c.response.encode (f request r.callee.device).1).length ≤ maxPayloadSize then
          .ok (f request r.callee.device).1 else .error .decode), caller', r') ∧
      r'.callee = { r.callee with device := (f request r.callee.device).2 } ∧
      caller'.isBusy = false ∧ caller'.isConnected = true ∧ r'.Clean := by
  have hrun := c.serve_ok (f := f) (hrequest request) .empty r.callee.device
  generalize houtput : Buffer.append .empty (c.response.encode (f request r.callee.device).1) = output
    at hrun
  have hroom : output.size ≤ Caller.scratch.length :=
    output.length_le.trans_eq List.length_replicate.symm
  let payload : Payload := ⟨c.request.encode request, hfits⟩
  replace htimely : (caller.start c.id payload.toList r).2.2.InTime _ polls := htimely
  obtain ⟨caller', r', hsend, hidle', hup', hclean, hcallee⟩ :=
    clean.send hidle hup hlookup hrun hroom htimely
  replace hsend : caller.send polls c.id (c.request.encode request) Caller.scratch r = _ := hsend
  refine ⟨caller', r', ?_, hcallee, hidle', hup', hclean⟩
  simp only [send, Buffer.ofList?_of_le hfits, hsend]
  rcases Nat.lt_or_ge maxPayloadSize (c.response.encode (f request r.callee.device).1).length with
    hlarge | hreply
  · obtain rfl : .empty = output := by
      rw [← houtput, Buffer.append_of_lt (Nat.lt_add_left _ hlarge)]
    rw [if_neg (Nat.not_le.mpr hlarge)]
    exact congrArg (fun reply => (some reply, caller', r')) (readReply_nothing hempty _)
  · have hwhole : output.toList = c.response.encode (f request r.callee.device).1 := by
      rw [← houtput]
      exact Buffer.toList_append _ _ (by rwa [Buffer.size_empty, Nat.zero_add])
    have hread := hresponse (f request r.callee.device).1
    rw [← hwhole] at hread
    rw [if_pos hreply]
    exact congrArg (fun reply => (some reply, caller', r')) (readReply_ok hread _)

/-- A contract's calls are faithful to the function behind its handler. -/
structure Faithful (c : Contract α β) (f : α → τ → β × τ) : Prop where
  /-- A request that no payload holds is not sent, whatever the link. -/
  oversized : ∀ {σ : Type} [Link σ] [TickSource σ] (polls : Nat) (caller : Caller) (request : α)
    (w : σ), maxPayloadSize < (c.request.encode request).length →
    c.send polls caller request w = (some (.error .encode), caller, w)
  /-- On a clean line any other request is handed to the function once, and the caller is given the
  reply, or a failure if no payload holds that. -/
  answered : ∀ (polls : Nat) (caller : Caller) (request : α) (r : Relay τ),
    (c.request.encode request).length ≤ maxPayloadSize → r.Clean → caller.isBusy = false →
    caller.isConnected = true → r.callee.directory.lookup c.id = some (c.serve f) →
    (caller.start c.id (c.request.encode request) r).2.2.InTime
      (Ticks.offset (readTicks r) caller.settings.responseTimeout) polls →
    let (reply, device) := f request r.callee.device
    ∃ caller' r', c.send polls caller request r =
        (some (if (c.response.encode reply).length ≤ maxPayloadSize then .ok reply
          else .error .decode), caller', r') ∧
      r'.callee = { r.callee with device } ∧ caller'.isBusy = false ∧
      caller'.isConnected = true ∧ r'.Clean
  /-- A request that cannot be read does not get to the function. -/
  unreadable : ∀ (bytes : Bytes) (response : Payload) (device : τ),
    (∀ request, c.request.read bytes ≠ .ok request) →
    c.serve f bytes response device = (response, device)
  /-- The reply to any other is appended to the response as a whole or not at all. -/
  appended : ∀ (bytes : Bytes) (response : Payload) (device : τ) (request : α),
    c.request.read bytes = .ok request →
    let (reply, device') := f request device
    (c.serve f bytes response device).2 = device' ∧
      (c.serve f bytes response device).1.toList =
        if response.size + (c.response.encode reply).length ≤ maxPayloadSize then
          response.toList ++ c.response.encode reply
        else response.toList

/-- The codecs need to give back what they encode, and that of the responses not to find a reply in
nothing. -/
theorem calls_faithful (hrequest : c.request.Faithful) (hresponse : c.response.Faithful)
    (hempty : ∀ b, c.response.read [] ≠ .ok b) (f : α → τ → β × τ) : c.Faithful f where
  oversized _ _ _ _ h := send_of_lt _ _ _ h
  answered _ _ _ _ hfits clean hidle hup hlookup htimely :=
    send_of_le hrequest hresponse hempty hfits clean hidle hup hlookup htimely
  unreadable bytes response device h := by
    cases hread : c.request.read bytes with
    | error e => exact serve_error hread response device
    | ok request => exact absurd hread (h request)
  appended bytes response device request hread := by
    rw [serve_ok hread]
    refine ⟨rfl, ?_⟩
    split
    · rename_i hfits
      exact Buffer.toList_append _ _ hfits
    · rename_i hlarge
      exact congrArg Buffer.toList (Buffer.append_of_lt (Nat.not_le.mp hlarge))

/-- A byte, and twice as many zeros as it says. -/
def padded : Packed.Codec UInt8 := ⟨fun n => n :: List.replicate (2 * n.toNat) 0, Packed.byte⟩

def stepping : Contract UInt8 UInt8 := ⟨⟨0x41⟩, Packed.u8, padded⟩

/-- The next number; the device keeps those it was asked for. -/
def next (n : UInt8) (asked : List UInt8) : UInt8 × List UInt8 := (n + 1, asked ++ [n])

/-- The callee finds the request in two looks, and the caller has the response in three reads, of which
the last comes after the deadline. -/
def unhurried : Relay (List UInt8) :=
  { Relay.fresh ⟨[stepping.entry next]⟩ [] (fun _ => false) fun _ => false with
    plan := [(⟨[⟨[4], 1⟩], 7⟩, 64), (⟨[⟨[64], 2⟩], 19⟩, 3), (⟨[], 19⟩, 2), (⟨[], 19⟩, 0),
      (⟨[], 400⟩, 64), (⟨[], 400⟩, 64), (⟨[], 400⟩, 64), (⟨[], 400⟩, 64), (⟨[], 400⟩, 64)] }

theorem next_and_too_large :
    stepping.request.Faithful ∧ stepping.response.Faithful ∧
    (∀ n, stepping.response.read [] ≠ .ok n) ∧
    (stepping.send 3 .plain 3 unhurried).1 = some (.ok 4) ∧
    (stepping.send 3 .plain 3 unhurried).2.2.callee.device = [3] ∧
    (stepping.send 3 .plain 200 unhurried).1 = some (.error .decode) ∧
    (stepping.send 3 .plain 200 unhurried).2.2.callee.device = [200] := by
  have hrequest : stepping.request.Faithful := fun _ => rfl
  have hresponse : stepping.response.Faithful := fun _ => rfl
  have hempty : ∀ n, stepping.response.read [] ≠ .ok n := nofun
  have hclean : unhurried.Clean := ⟨rfl, rfl, rfl, rfl, rfl⟩
  have hfaithful := calls_faithful hrequest hresponse hempty next
  have htimely : ∀ n ∈ [(3 : UInt8), 200],
      (Caller.plain.start stepping.id (stepping.request.encode n) unhurried).2.2.InTime
        (Ticks.offset (readTicks unhurried) Caller.plain.settings.responseTimeout) 3 := by
    intro n hn
    refine ⟨2, by decide, ?_⟩
    revert n
    decide +kernel
  obtain ⟨_, _, hfits, hdevice, -⟩ := hfaithful.answered 3 .plain 3 unhurried (by decide) hclean
    rfl rfl rfl (htimely 3 (by decide))
  obtain ⟨_, _, hlarge, hdevice', -⟩ := hfaithful.answered 3 .plain 200 unhurried (by decide) hclean
    rfl rfl rfl (htimely 200 (by decide))
  have hlong : maxPayloadSize < (stepping.response.encode 201).length := by decide +kernel
  rw [hfits, hlarge, hdevice, hdevice']
  exact ⟨hrequest, hresponse, hempty, rfl, rfl, congrArg some (if_neg (Nat.not_le.mpr hlong)), rfl⟩

end Contract

end HalfLink
