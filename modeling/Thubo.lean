import Thubo.Lib.Cursor
import Thubo.Lib.Merge
import Thubo.Protocol
import Thubo.Buffers.Chunk
import Thubo.Buffers.Bytes
import Thubo.Buffers.Reached
import Thubo.Buffers.Views
import Thubo.Buffers.Equality
import Thubo.Codec.Inverse
import Thubo.Codec.Chunking
import Thubo.Pipeline.Streams
import Thubo.Pipeline.Rejection
import Thubo.Pipeline.Reporting
import Thubo.Pipeline.Deadline
import Thubo.Pipeline.Framing
import Thubo.Api.Vectored
import Thubo.Pipeline.Queue
import Thubo.Pipeline.Tracing
import Thubo.Pipeline.Timeouts
import Thubo.Pipeline.Backoff
import Thubo.Pipeline.Cutting
import Thubo.Pipeline.Usable
import Thubo.Pipeline.Conservation
import Thubo.Pipeline.Accounting
import Thubo.Pipeline.Wakeup
import Thubo.Pipeline.Scheduling
import Thubo.Pipeline.Late
import Thubo.Pipeline.Refill
import Thubo.RingBuf.Ownership
import Thubo.Sync.Waiting
import Thubo.Pipeline.Obstacles
import Thubo.Pipeline.Yielder
import Thubo.Pipeline.Marked
import Thubo.Pipeline.Linearized
import Thubo.Api.Network
import Thubo.Pipeline.Draining
import Thubo.Pipeline.Deadlock
import Thubo.Pipeline.Stopping
import Thubo.Pipeline.Retained
import Thubo.Pipeline.Isolation
import Thubo.Codec.Canonical
