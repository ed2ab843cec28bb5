import HalfLink.Call.Callee
import HalfLink.Call.Turns

/-! Raw reports: the host talks to one half only, which forwards what concerns the other half. -/
namespace HalfLink

def rawReportSize : Nat := 32

abbrev RawReport := Buffer rawReportSize

namespace Report

/-- The handler of the answering half: passes a report on and acknowledges with what the response
already held. A request that is too large for a report is acknowledged and dropped. -/
def ingesting {τ : Type} (ingest : Bytes → τ → τ) : Handler τ := fun request response device =>
  if rawReportSize < request.length then (response, device) else (response, ingest request device)

def check (report : Bytes) : Except Failure Unit :=
  if rawReportSize < report.length then .error .payloadTooLarge else .ok ()

/-- Forwards a report and waits for its acknowledgement; one that is too large is refused before
anything is sent. -/
def forward {σ : Type} [Link σ] [TickSource σ] (polls : Nat) (c : Caller) (report : Bytes) (w : σ) :
    Option (Except Failure Unit) × Caller × σ :=
  match check report with
  | .error e => (some (.error e), c, w)
  | .ok _ => c.notify polls .hidSync report w

/-- The call that forwards a report through a shared caller; a report that is too large gets none.
-/
def call (report : Bytes) : Except Failure Call :=
  match check report with
  | .error e => .error e
  | .ok _ => .ok (.notify .hidSync report)

end Report

end HalfLink
