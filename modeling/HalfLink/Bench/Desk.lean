import HalfLink.Bench.Device

/-! Scripts that build a directory, close it and call its handlers. -/
namespace HalfLink.Bench

/-- A directory while it is built, or closed with the device that its handlers serve. -/
inductive Desk
  | building (draft : Directory.Draft Device)
  | closed (directory : Directory Device) (device : Device)

inductive DeskStep
  | register (r : Registration)
  /-- Adds a handler, or loses all of them when it cannot. -/
  | add (r : Registration)
  | describe
  | close
  | contains (id : TransactionId)
  | ids
  | call (id : TransactionId) (request : Bytes) (held : Payload)

inductive DeskShown
  | nothing
  | registered (result : Except DirectoryError Unit)
  | text (s : String)
  | flag (b : Bool)
  | ids (ids : List TransactionId)
  | payload (p : Payload)

namespace Desk

def size : Desk → Nat
  | .building draft => draft.size
  | .closed directory _ => directory.size

def isEmpty : Desk → Bool
  | .building draft => draft.isEmpty
  | .closed directory _ => directory.isEmpty

def ingested : Desk → List Bytes
  | .building _ => []
  | .closed _ device => device.ingested

def forgetReports : Desk → Desk
  | .building draft => .building draft
  | .closed directory device => .closed directory device.forgetReports

def build? (draft : Directory.Draft Device) : DeskStep → Option (DeskShown × Desk)
  | .register r =>
    let (result, draft) := draft.register r.id (r.service.handler r.id)
    some (.registered result, .building draft)
  | .add r =>
    match draft.add r.id (r.service.handler r.id) with
    | .ok draft => some (.registered (.ok ()), .building draft)
    | .error e => some (.registered (.error e), .building .empty)
  | .describe => some (.text draft.describe, .building draft)
  | .close => some (.nothing, .closed draft.close {})
  | .contains _ | .ids | .call .. => none

def use? (directory : Directory Device) (device : Device) : DeskStep → Option (DeskShown × Desk)
  | .describe => some (.text directory.describe, .closed directory device)
  | .contains id => some (.flag (directory.contains id), .closed directory device)
  | .ids => some (.ids directory.ids, .closed directory device)
  | .call id request held =>
    match directory.lookup id with
    | none => some (.nothing, .closed directory device)
    | some handler =>
      let (payload, device) := handler request held device
      some (.payload payload, .closed directory device)
  | .register _ | .add _ | .close => none

/-- One step; none for a step that does not fit the desk's state. -/
def step? : Desk → DeskStep → Option (DeskShown × Desk)
  | .building draft, step => build? draft step
  | .closed directory device, step => use? directory device step

/-- All steps with the desk after each; none when one does not fit. -/
def run? (desk : Desk) : List DeskStep → Option (List (DeskShown × Desk))
  | [] => some []
  | step :: rest => do
    let (shown, desk) ← desk.forgetReports.step? step
    return (shown, desk) :: (← desk.run? rest)

end Desk

def respondAll (directory : Directory Device) (device : Device) :
    List Frame → List (Option Frame) × Device
  | [] => ([], device)
  | frame :: rest =>
    let (response, device) := directory.respond frame device
    let (responses, device) := respondAll directory device rest
    (response :: responses, device)

end HalfLink.Bench
