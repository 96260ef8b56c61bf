import Minimosq.Account
import Minimosq.Admission
import Minimosq.Answered
import Minimosq.Arrival
import Minimosq.Bed
import Minimosq.Books
import Minimosq.Broker
import Minimosq.Chunking
import Minimosq.Clearance
import Minimosq.Clock
import Minimosq.Codec
import Minimosq.Connect
import Minimosq.Conservation
import Minimosq.Continuity
import Minimosq.Contract
import Minimosq.Covers
import Minimosq.Deadline
import Minimosq.Delivery
import Minimosq.Deny
import Minimosq.Drain
import Minimosq.Episode
import Minimosq.Eviction
import Minimosq.FilterOrder
import Minimosq.Fits
import Minimosq.Flush
import Minimosq.Frame
import Minimosq.FrameChunks
import Minimosq.FrameMemory
import Minimosq.Genuine
import Minimosq.Grammar
import Minimosq.History
import Minimosq.Identity
import Minimosq.Inbound
import Minimosq.Levels
import Minimosq.Lifecycle
import Minimosq.Line
import Minimosq.Link
import Minimosq.Move
import Minimosq.NullTls
import Minimosq.Occupancy
import Minimosq.Parting
import Minimosq.Pauses
import Minimosq.Peer
import Minimosq.Pending
import Minimosq.Pipe
import Minimosq.PoolMemory
import Minimosq.Posix
import Minimosq.Provenance
import Minimosq.Publishing
import Minimosq.Quiet
import Minimosq.Reasons
import Minimosq.Receive
import Minimosq.Refusal
import Minimosq.Replay
import Minimosq.Reply
import Minimosq.Report
import Minimosq.Resume
import Minimosq.RetainedMap
import Minimosq.Retransmit
import Minimosq.RingBuffer
import Minimosq.Route
import Minimosq.Routine
import Minimosq.Run
import Minimosq.Session
import Minimosq.Slot
import Minimosq.SlotDelivery
import Minimosq.SlotTable
import Minimosq.Spell
import Minimosq.Storage
import Minimosq.StreamServer
import Minimosq.Subscribe
import Minimosq.TableAcl
import Minimosq.Teardown
import Minimosq.Tenancy
import Minimosq.Timed
import Minimosq.Tls
import Minimosq.Topic
import Minimosq.Trace
import Minimosq.Transport
import Minimosq.Unfinished
import Minimosq.Unsubscribe
import Minimosq.Upkeep
import Minimosq.Utf8
import Minimosq.Verdicts
import Minimosq.Will
import Minimosq.Wire
