import HalfLink.Firmware.Log
import HalfLink.Call.Report

/-! The task of the answering half that picks up the latest forwarded report. A report that was not
picked up in time is replaced by the next. -/
namespace HalfLink.Firmware

structure Listener where
  started : Bool := false
deriving DecidableEq, Repr

/-- One turn: the report that is signalled, if any, is told and taken. -/
def Listener.poll (t : Listener) (signal : Option RawReport) : List LogRecord × Listener :=
  let told := signal.toList.map fun report : RawReport =>
    (⟨.debug, "Host report: {:02x}", [bytesText report.toList]⟩ : LogRecord)
  if t.started then (told, t) else (⟨.info, "Report task started", []⟩ :: told, ⟨true⟩)

end HalfLink.Firmware
