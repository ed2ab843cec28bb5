import HalfLink.Bench.Boot
import HalfLink.Bench.Desk
import HalfLink.Bench.Parts
import HalfLink.Bench.Schedule
import HalfLink.Build.Config
import HalfLink.Proofs.Cable.Remote
import HalfLink.Proofs.Call.Dispatch
import HalfLink.Proofs.Call.Sharing
import HalfLink.Proofs.Frame.Capacity
import HalfLink.Proofs.Frame.Segments
import HalfLink.Proofs.Line.Matching
import HalfLink.Proofs.Relay.Ingestion
import HalfLink.Settings.Json
import HalfLink.Settings.Packed
import HalfLink.Toml.Printer
import HalfLink.Proofs.Frame.Recovery
import HalfLink.Proofs.Frame.LostByte
import HalfLink.Proofs.Frame.Stream
import HalfLink.Proofs.Call.Acceptance
import HalfLink.Proofs.Course.Basic
import HalfLink.Proofs.Course.Failures
import HalfLink.Proofs.Course.Retries
import HalfLink.Proofs.Course.Transmission
import HalfLink.Proofs.Build.Checking
import HalfLink.Proofs.Course.Deadlines
import HalfLink.Proofs.Course.Ending
import HalfLink.Proofs.Firmware.Forwarding
import HalfLink.Proofs.Call.Typed
import HalfLink.Proofs.Course.Filling
import HalfLink.Proofs.Course.Refusal
import HalfLink.Proofs.Frame.Corruption
import HalfLink.Proofs.Call.Registration
import HalfLink.Proofs.Time.Reckoning
import HalfLink.Proofs.Time.DriverClock
