import HalfLink.Bench.Contracts
import HalfLink.Call.Report

/-! The answering half's device on the bench: it counts the calls of its handlers and keeps the
reports it is passed. -/
namespace HalfLink.Bench

structure Device where
  /-- The calls of each counting handler, by its id. -/
  calls : List (TransactionId × Nat) := []
  ingested : List Bytes := []
deriving DecidableEq, Repr

namespace Device

def callsOf (d : Device) (id : TransactionId) : Nat := (d.calls.lookup id).getD 0

/-- Counts a call; the count includes it. -/
def countCall (d : Device) (id : TransactionId) : Nat × Device :=
  let n := d.callsOf id + 1
  (n, { d with calls := (id, n) :: d.calls.filter (·.1 != id) })

def forgetReports (d : Device) : Device := { d with ingested := [] }

def ingest (report : Bytes) (d : Device) : Device := { d with ingested := d.ingested ++ [report] }

end Device

inductive Service
  | echo
  | reverse
  | empty
  | const (data : Bytes)
  | fill (byte : UInt8) (n : Nat)
  /-- The number of the call, then the request. -/
  | count
  | ingest
  | layer
  | blob
  | mixed
  | ping
deriving DecidableEq, Repr

def Service.handler (id : TransactionId) : Service → Handler Device
  | .echo => fun request response d => (response.append request, d)
  | .reverse => fun request response d => (response.pushAll request.reverse, d)
  | .empty => fun _ response d => (response, d)
  | .const data => fun _ response d => (response.append data, d)
  | .fill byte n => fun _ response d => (response.pushAll (List.replicate n byte), d)
  | .count => fun request response d =>
    let (n, d) := d.countCall id
    ((response.push (UInt8.ofNat n)).append request, d)
  | .ingest => Report.ingesting Device.ingest
  | .layer => layerContract.serve fun bias d => (layerReply bias, d)
  | .blob => blobContract.serve fun data d => (data ++ data, d)
  | .mixed => mixedContract.serve fun m d => (m.reply, d)
  | .ping => pingContract.serve fun _ d =>
    let (n, d) := d.countCall id
    (UInt32.ofNat (100 * n), d)

/-- A service under an id, as it is registered. -/
structure Registration where
  id : TransactionId
  service : Service
deriving DecidableEq, Repr

def Registration.entry (r : Registration) : Directory.Entry Device := ⟨r.id, r.service.handler r.id⟩

/-- The directory of registrations in order, or the first failure. -/
def directoryOf (registrations : List Registration) : Except DirectoryError (Directory Device) :=
  Directory.ofEntries (registrations.map (·.entry))

end HalfLink.Bench
