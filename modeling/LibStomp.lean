import LibStomp.Verified.Runs
import LibStomp.Verified.BlockChain
import LibStomp.Verified.Lines
import LibStomp.Verified.Framing
import LibStomp.Verified.Matching
import LibStomp.Verified.Escaping
import LibStomp.Verified.Coupling
import LibStomp.Verified.Allocation
import LibStomp.Model.Apr
import LibStomp.Model.Io
import LibStomp.Model.Engine
import LibStomp.Model.Messenger
import LibStomp.Model.Process
import LibStomp.Model.Memory
import LibStomp.Stream.Grammar
import LibStomp.Stream.ReadLine
import LibStomp.Stream.Accumulators
import LibStomp.Stream.ErrorTexts
import LibStomp.Stream.ReadFrame
import LibStomp.Stream.ReadBody
import LibStomp.Stream.ReadSuccess
import LibStomp.Stream.ReadStatus
import LibStomp.Stream.Chunking
import LibStomp.Stream.WholeFrames
import LibStomp.Stream.ContentLength
import LibStomp.Stream.Truncation
import LibStomp.Stream.Acceptance
import LibStomp.Stream.HeaderEnds
import LibStomp.Stream.SendCalls
import LibStomp.Stream.WriteFrame
import LibStomp.Stream.Lengths
import LibStomp.Stream.CleanFrames
import LibStomp.Stream.HeaderTexts
import LibStomp.Stream.EmptyBodies
import LibStomp.Stream.Framings
import LibStomp.Stream.RoundTrip
import LibStomp.Stream.Receiving
import LibStomp.Stream.ReadTables
import LibStomp.Stream.Escapes
import LibStomp.Stream.LineEnds
import LibStomp.Stream.Reencoding
import LibStomp.Stream.Diagnostics
import LibStomp.Model.Pools
import LibStomp.Session.Steps
import LibStomp.Session.Diagnostics
import LibStomp.Session.Isolation
import LibStomp.Session.Reporting
import LibStomp.Session.ReceivedBodies
import LibStomp.Session.ReceiveCodes
import LibStomp.Session.Outbox
import LibStomp.Session.Confinement
import LibStomp.Session.Properties
import LibStomp.Session.LastWriter
import LibStomp.Session.OneFrame
import LibStomp.Session.Unread
import LibStomp.Session.Retries
import LibStomp.Session.Receipts
import LibStomp.Session.Deliveries
import LibStomp.Session.ControlHeaders
import LibStomp.Session.LengthOnce
import LibStomp.Session.Identifiers
import LibStomp.Session.Destinations
import LibStomp.Session.Sockets
import LibStomp.Session.CallOrder
import LibStomp.Session.Causes
import LibStomp.Session.Ownership
import LibStomp.Session.Hops
import LibStomp.Session.CreationTime
import LibStomp.Session.Script
import LibStomp.Session.Conversation
import LibStomp.Session.Custody
import LibStomp.Session.Memory
import LibStomp.Session.Teardown
import LibStomp.Model.Application
import LibStomp.Session.Application
import LibStomp.Model.Connections
import LibStomp.Session.Connections
import LibStomp.Session.ConnectionCalls
import LibStomp.Session.Layers
import LibStomp.Model.ExamplePrograms
import LibStomp.Session.ExamplePrograms
