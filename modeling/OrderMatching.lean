import OrderMatching.KeyedList
import OrderMatching.Loop
import OrderMatching.LittleEndian
import OrderMatching.Orders
import OrderMatching.Book
import OrderMatching.BookInvariant
import OrderMatching.BookUpdates
import OrderMatching.BookRuns
import OrderMatching.Engine
import OrderMatching.Walk
import OrderMatching.Crossing
import OrderMatching.Priority
import OrderMatching.Prices
import OrderMatching.Commands
import OrderMatching.Codec
import OrderMatching.Log
import OrderMatching.LogRead
import OrderMatching.Durability
import OrderMatching.Exchange
import OrderMatching.Snapshot
import OrderMatching.MatchingThread
import OrderMatching.LedgerStep
import OrderMatching.LogFold
import OrderMatching.Queues
import OrderMatching.Registry
import OrderMatching.Fills
import OrderMatching.Acceptance
import OrderMatching.Bookkeeping
import OrderMatching.Answers
import OrderMatching.Modify
import OrderMatching.KeyIndex
import OrderMatching.Isolation
import OrderMatching.Rebuild
import OrderMatching.Untimed
import OrderMatching.Resume
import OrderMatching.WalVerify
import OrderMatching.Mirror
import OrderMatching.Agreement
import OrderMatching.Uncrossed
import OrderMatching.Posting
import OrderMatching.StepCases
import OrderMatching.Accounting
import OrderMatching.EventStreams
import OrderMatching.SnapshotFile
import OrderMatching.Startup
import OrderMatching.Checkpoint
import OrderMatching.Threads
import OrderMatching.Moves
import OrderMatching.Sessions
import OrderMatching.Lifetime
import OrderMatching.Flooding
import OrderMatching.Delivery
import OrderMatching.Reclaim
import OrderMatching.Closing
import OrderMatching.ClientIds
import OrderMatching.Reusable
import OrderMatching.Inheritance
import OrderMatching.FailedAppends
import OrderMatching.Numbering
import OrderMatching.Corruption
import OrderMatching.Registration
import OrderMatching.Broadcast
import OrderMatching.Conflation
import OrderMatching.MarketData
import OrderMatching.Protocol
import OrderMatching.Subscriptions
import OrderMatching.Convergence
import OrderMatching.Wire
import OrderMatching.Requests
import OrderMatching.Framing
import OrderMatching.Messages
import OrderMatching.Parking
import OrderMatching.Notification
import OrderMatching.PriceBand
import OrderMatching.TimePriority
import OrderMatching.BookEdits
import OrderMatching.CancelAll
import OrderMatching.Truncation
import OrderMatching.Checksum
import OrderMatching.Outbound
import OrderMatching.RateLimit
import OrderMatching.SnapshotFlips
import OrderMatching.Fallback
import OrderMatching.GroupCommit
import OrderMatching.Lobster
import OrderMatching.Attendance
import OrderMatching.BookRecords
import OrderMatching.LobsterParser
import OrderMatching.PaperSim
import OrderMatching.Vouching
import OrderMatching.Heartbeats
import OrderMatching.LobsterReplay
import OrderMatching.Clients
import OrderMatching.LiveFeed
import OrderMatching.Readable
import OrderMatching.Shutdown
import OrderMatching.SmokeClient
import OrderMatching.LoadGen
import OrderMatching.Workload
