import ObliviousRouting.BatchSize.Basic
import ObliviousRouting.BatchSize.Json
import ObliviousRouting.Bytes.Basic
import ObliviousRouting.Bytes.Text
import ObliviousRouting.Bytes.Words
import ObliviousRouting.CoinToss
import ObliviousRouting.Fault
import ObliviousRouting.Json.Skip
import ObliviousRouting.Json.Token
import ObliviousRouting.Keystream
import ObliviousRouting.Mesh.Basic
import ObliviousRouting.Mesh.Line
import ObliviousRouting.Mesh.Run
import ObliviousRouting.Mesh.Tampering
import ObliviousRouting.Mesh.Wiring
import ObliviousRouting.Message
import ObliviousRouting.Mixing
import ObliviousRouting.Pass.Roles
import ObliviousRouting.Pass.Target
import ObliviousRouting.Plan.Basic
import ObliviousRouting.Plan.Grouping
import ObliviousRouting.Plan.Layout
import ObliviousRouting.Process.Basic
import ObliviousRouting.Process.Role
import ObliviousRouting.Process.Script
import ObliviousRouting.Proofs.BatchSize.Batches
import ObliviousRouting.Proofs.BatchSize.Ranges
import ObliviousRouting.Proofs.Bytes.Ascii
import ObliviousRouting.Proofs.Bytes.Bits
import ObliviousRouting.Proofs.Bytes.Rows
import ObliviousRouting.Proofs.Bytes.Text
import ObliviousRouting.Proofs.Bytes.Xor
import ObliviousRouting.Proofs.CoinToss.Agreement
import ObliviousRouting.Proofs.CoinToss.Rounds
import ObliviousRouting.Proofs.CoinToss.Soundness
import ObliviousRouting.Proofs.Keystream.Lawful
import ObliviousRouting.Proofs.Network.Alone
import ObliviousRouting.Proofs.Network.Calls
import ObliviousRouting.Proofs.Network.Costs
import ObliviousRouting.Proofs.Network.Course
import ObliviousRouting.Proofs.Network.Histories
import ObliviousRouting.Proofs.Network.Leaving
import ObliviousRouting.Proofs.Network.Losses
import ObliviousRouting.Proofs.Network.Phases
import ObliviousRouting.Proofs.Network.Queues
import ObliviousRouting.Proofs.Network.Results
import ObliviousRouting.Proofs.Network.Rounds
import ObliviousRouting.Proofs.Network.Schedule
import ObliviousRouting.Proofs.Network.Sendings
import ObliviousRouting.Proofs.Network.Timetable
import ObliviousRouting.Proofs.Network.Traces
import ObliviousRouting.Proofs.Network.Wiring
import ObliviousRouting.Proofs.Pass.Acceptance
import ObliviousRouting.Proofs.Pass.Costs
import ObliviousRouting.Proofs.Pass.Courses
import ObliviousRouting.Proofs.Pass.Draws
import ObliviousRouting.Proofs.Pass.Failures
import ObliviousRouting.Proofs.Pass.Hiding
import ObliviousRouting.Proofs.Pass.LockStep
import ObliviousRouting.Proofs.Pass.Orders
import ObliviousRouting.Proofs.Pass.Place
import ObliviousRouting.Proofs.Pass.RoundTrip
import ObliviousRouting.Proofs.Pass.Shuffle
import ObliviousRouting.Proofs.Plan.Calls
import ObliviousRouting.Proofs.Plan.Check
import ObliviousRouting.Proofs.Plan.Consistency
import ObliviousRouting.Proofs.Plan.CountingSort
import ObliviousRouting.Proofs.Plan.Feeding
import ObliviousRouting.Proofs.Plan.FreeSlots
import ObliviousRouting.Proofs.Plan.Grouping
import ObliviousRouting.Proofs.Plan.Layout
import ObliviousRouting.Proofs.Plan.Reachable
import ObliviousRouting.Proofs.Plan.Repeats
import ObliviousRouting.Proofs.Plan.Searches
import ObliviousRouting.Proofs.Plan.Selection
import ObliviousRouting.Proofs.Reveal.Costs
import ObliviousRouting.Proofs.Reveal.Courses
import ObliviousRouting.Proofs.Reveal.Hiding
import ObliviousRouting.Proofs.Reveal.Learning
import ObliviousRouting.Proofs.Reveal.Requests
import ObliviousRouting.Proofs.Reveal.Rows
import ObliviousRouting.Proofs.Reveal.Views
import ObliviousRouting.Proofs.RowBuffer.Calls
import ObliviousRouting.Proofs.RowBuffer.Rows
import ObliviousRouting.Proofs.RowBuffer.Shapes
import ObliviousRouting.Proofs.Switching.BatchSizes
import ObliviousRouting.Proofs.Switching.Copies
import ObliviousRouting.Proofs.Switching.Costs
import ObliviousRouting.Proofs.Switching.Duplicate
import ObliviousRouting.Proofs.Switching.Excess
import ObliviousRouting.Proofs.Switching.Failures
import ObliviousRouting.Proofs.Switching.Greeting
import ObliviousRouting.Proofs.Switching.Hiding
import ObliviousRouting.Proofs.Switching.Limits
import ObliviousRouting.Proofs.Switching.Lines
import ObliviousRouting.Proofs.Switching.Logs
import ObliviousRouting.Proofs.Switching.Losses
import ObliviousRouting.Proofs.Switching.Meeting
import ObliviousRouting.Proofs.Switching.Mismatch
import ObliviousRouting.Proofs.Switching.Orders
import ObliviousRouting.Proofs.Switching.Outline
import ObliviousRouting.Proofs.Switching.Privacy
import ObliviousRouting.Proofs.Switching.Routing
import ObliviousRouting.Proofs.Switching.RowFlow
import ObliviousRouting.Proofs.Switching.Run
import ObliviousRouting.Proofs.Switching.Safety
import ObliviousRouting.Proofs.Switching.Scatter
import ObliviousRouting.Proofs.Switching.Secrecy
import ObliviousRouting.Proofs.Switching.Select
import ObliviousRouting.Proofs.Switching.State
import ObliviousRouting.Proofs.Switching.Traffic
import ObliviousRouting.Proofs.Switching.Verdicts
import ObliviousRouting.Proofs.Wire.Codec
import ObliviousRouting.Reveal.Roles
import ObliviousRouting.RowBuffer.Basic
import ObliviousRouting.RowBuffer.Storage
import ObliviousRouting.Switching.Duplicate
import ObliviousRouting.Switching.Error
import ObliviousRouting.Switching.Greeting
import ObliviousRouting.Switching.Passes
import ObliviousRouting.Switching.Roles
import ObliviousRouting.Switching.Simulation
import ObliviousRouting.Switching.State
import ObliviousRouting.Wire.Codec
