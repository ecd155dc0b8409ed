import SortLast.Address.Ip
import SortLast.Address.Participant
import SortLast.Cluster.Barrier
import SortLast.Cluster.Config
import SortLast.Cluster.Coordinator
import SortLast.Cluster.Error
import SortLast.Cluster.Network
import SortLast.Cluster.Pool
import SortLast.Cluster.Preview
import SortLast.Cluster.Schedule
import SortLast.Cluster.Setup
import SortLast.Cluster.Slots
import SortLast.Cluster.System
import SortLast.Command
import SortLast.CommandLine.Capture
import SortLast.CommandLine.CoordinatorOptions
import SortLast.CommandLine.Error
import SortLast.CommandLine.ParticipantOptions
import SortLast.CommandLine.Programs
import SortLast.CommandLine.Report
import SortLast.Compositing.Compositor
import SortLast.Compositing.Framebuffer
import SortLast.Error
import SortLast.Geometry.Box
import SortLast.Geometry.Camera
import SortLast.Geometry.Matrix
import SortLast.Geometry.Rect
import SortLast.Geometry.Vector
import SortLast.Geometry.View
import SortLast.Image
import SortLast.Main
import SortLast.Orbit
import SortLast.Participant.Renderer
import SortLast.Participant.Session
import SortLast.Partition.Bricks
import SortLast.Partition.Tree
import SortLast.Proxy
import SortLast.RenderState
import SortLast.Scalar.Circular
import SortLast.Scalar.Decimal
import SortLast.Scalar.Rounding
import SortLast.Scalar.Single
import SortLast.Text.Hidden
import SortLast.Text.Integer
import SortLast.Text.Quoted
import SortLast.Text.Words
import SortLast.Transfer
import SortLast.Volume
import SortLast.Wire.Codec
import SortLast.Wire.Message
import SortLast.Wire.Sink
import SortLast.Wire.Source
import SortLast.Proofs.Wire.Codec
import SortLast.Proofs.Wire.Message
import SortLast.Proofs.Wire.Stream
import SortLast.Proofs.Wire.Sink
import SortLast.Proofs.Discipline
import SortLast.Proofs.Mirror
import SortLast.Proofs.Compositing.Pixels
import SortLast.Proofs.Compositing.Reversal
import SortLast.Proofs.Compositing.Received
import SortLast.Proofs.Compositing.Depth
import SortLast.Proofs.Partition.Visibility
import SortLast.Proofs.Partition.Tiling
import SortLast.Proofs.Partition.Halving
import SortLast.Proofs.Cluster.Participants
import SortLast.Proofs.Cluster.Advance
import SortLast.Proofs.Cluster.Seat
import SortLast.Proofs.Cluster.Moves
import SortLast.Proofs.Cluster.Turns
import SortLast.Proofs.Cluster.Pacing
import SortLast.Proofs.Cluster.Calls
import SortLast.Proofs.Cluster.Freshness
import SortLast.Proofs.Agreement
import SortLast.Proofs.Cluster.Tally
import SortLast.Proofs.Cluster.Chronicle
import SortLast.Proofs.Cluster.Closing
import SortLast.Proofs.Cluster.Muster
import SortLast.Proofs.Cluster.Steady
import SortLast.Proofs.Cluster.Eviction
import SortLast.Proofs.Cluster.Window
import SortLast.Proofs.Cluster.Concord
import SortLast.Proofs.Cluster.Plan
import SortLast.Proofs.Cluster.Setup
import SortLast.Proofs.Participant.Calls
import SortLast.Proofs.Participant.Service
import SortLast.Proofs.Wire.Format
import SortLast.Proofs.Transfer.Lookup
import SortLast.Proofs.Participant.Watched
import SortLast.Proofs.Cluster.Delivery
import SortLast.Proofs.Cluster.Gathering
import SortLast.Proofs.Cluster.Reports
import SortLast.Proofs.Cluster.Latest
import SortLast.Proofs.Cluster.Frames
import SortLast.Proofs.Cluster.Refusals
import SortLast.Proofs.Cluster.Accounting
import SortLast.Proofs.Cluster.Retiring
import SortLast.Proofs.Cluster.Farewell
import SortLast.Proofs.Cluster.Shutdown
import SortLast.Proofs.Participant.Faults
import SortLast.Proofs.Scalar.Rounding
import SortLast.Proofs.Scalar.Arithmetic
import SortLast.Proofs.Partition.Grid
import SortLast.Proofs.Partition.Bricks
import SortLast.Proofs.Partition.Undivided
import SortLast.Proofs.Partition.Traversal
import SortLast.Proofs.Geometry.ParallelEye
import SortLast.Proofs.Partition.ParallelRays
import SortLast.Proofs.Compositing.Opaque
import SortLast.Proofs.Cluster.Dropping
import SortLast.Proofs.Wire.Isolation
import SortLast.Proofs.Replay
import SortLast.Proofs.Participant.Placeable
import SortLast.Proofs.Cluster.Answerable
import SortLast.Proofs.Outcome
import SortLast.Proofs.Text
import SortLast.Proofs.Address.Printed
import SortLast.Proofs.Transfer.Ordered
import SortLast.Proofs.Transfer.Interpolation
import SortLast.Proofs.Compositing.Premultiplied
import SortLast.Proofs.Compositing.Clipping
import SortLast.Proofs.Scalar.Underflow
import SortLast.Proofs.Geometry.Overlap
import SortLast.Proofs.CommandLine.Selection
import SortLast.Proofs.CommandLine.OptionOrder
import SortLast.Proofs.CommandLine.FileNames
import SortLast.Word
