import NupaNet.Ring.Control
import NupaNet.Ring.ControlStep
import NupaNet.Ring.Payload
import NupaNet.Ring.Delivery
import NupaNet.Ring.Sharing
import NupaNet.Ring.Routing
import NupaNet.Ring.Publication
import NupaNet.Ring.Restart
import NupaNet.Ring.Safety
import NupaNet.Ring.Wedge
import NupaNet.Foundation.Update
import NupaNet.Foundation.Chain
import NupaNet.Foundation.TextBuffer
import NupaNet.Foundation.Cuts
import NupaNet.Xdma.Descriptor
import NupaNet.Xdma.Request
import NupaNet.Xdma.Overrun
import NupaNet.Xdma.Transfer
import NupaNet.Xdma.Submit
import NupaNet.Xdma.Rounds
import NupaNet.Xdma.Mapping
import NupaNet.Xdma.Aperture
import NupaNet.Xdma.Resume
import NupaNet.Xdma.Addressing
import NupaNet.Xdma.Service
import NupaNet.Xdma.StatusDump
import NupaNet.Xdma.Channel
import NupaNet.Xdma.Slots
import NupaNet.Xdma.Blocking
import NupaNet.Xdma.Completion
import NupaNet.Ring.Accounting
import NupaNet.Ring.Admission
import NupaNet.Ring.Consumption
import NupaNet.Adapter.Address
import NupaNet.Adapter.Probe
import NupaNet.Ring.Napi
import NupaNet.Xdma.Board
import NupaNet.Xdma.Lines
import NupaNet.Xdma.Masking
import NupaNet.Xdma.Failure
import NupaNet.Xdma.Chain
import NupaNet.Xdma.Verdict
import NupaNet.Xdma.Quiescence
import NupaNet.Xdma.Writeback
import NupaNet.Adapter.Debug
import NupaNet.Adapter.DebugResult
import NupaNet.Adapter.Pages
import NupaNet.Foundation.Reservation
import NupaNet.Xdma.Nowait
import NupaNet.Xdma.Reservations
import NupaNet.Xdma.Queueing
import NupaNet.Xdma.Collision
import NupaNet.Thread.Pool
import NupaNet.Thread.Attachment
import NupaNet.Thread.Registry
import NupaNet.Thread.Teardown
import NupaNet.Thread.Wakeup
import NupaNet.Thread.Placement
import NupaNet.Thread.Handles
import NupaNet.Foundation.Refinement
import NupaNet.Foundation.Fifo
import NupaNet.Ring.Queue
import NupaNet.Ring.Drain
import NupaNet.Foundation.Fields
import NupaNet.Xdma.Vectors
import NupaNet.Xdma.Bars
import NupaNet.Xdma.Open
import NupaNet.Xdma.UserIrq
import NupaNet.Adapter.Frame
import NupaNet.Adapter.Stack
import NupaNet.Adapter.Buffers
