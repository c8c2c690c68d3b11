import Readback.BlockRange.Cursor
import Readback.Json.Canonical
import Readback.Main
import Readback.Outcome.Bench
import Readback.Program.Rehearsal
import Readback.Run.Rehearsal
import Readback.Proofs.Program.Ending
import Readback.Proofs.RangeLock.History
import Readback.Proofs.Run.Account
import Readback.Proofs.Run.Bounds
import Readback.Proofs.Run.Confinement
import Readback.Proofs.Run.Durability
import Readback.Proofs.Run.Integrity
import Readback.Proofs.Run.Overshoot
import Readback.Proofs.Run.Reason
import Readback.Proofs.Run.Reproduction
import Readback.Proofs.Run.Serial
import Readback.Proofs.Run.Startable
import Readback.Proofs.Run.Tags
import Readback.Proofs.Outcome.Compare
import Readback.Proofs.RangeLock.Claim
import Readback.Proofs.RangeLock.Foreign
import Readback.Proofs.Stop.Signal
import Readback.Proofs.Outcome.Exact
import Readback.Proofs.Verifier
import Readback.Proofs.RangeLock.Overlap
import Readback.Proofs.RangeLock.Release
import Readback.Proofs.RangeLock.Traffic
import Readback.Proofs.Worker.Runs
import Readback.Proofs.Random.Stream
import Readback.Proofs.Random.Uniform
import Readback.Proofs.RangeLock.Acquire
import Readback.Proofs.Content.Identity
import Readback.Proofs.Content.Stretch
import Readback.Proofs.Geometry.Partition
import Readback.Proofs.Device.Array
import Readback.Proofs.StateTable.Bitmap
import Readback.Proofs.Stats.Reporter
import Readback.Proofs.Worker.Diagnosis
import Readback.Proofs.Run.Diagnosis
import Readback.Proofs.Options.Merge
import Readback.Proofs.BlockRange.Queue
import Readback.Proofs.Run.Seeds
