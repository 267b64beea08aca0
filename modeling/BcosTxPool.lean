import BcosTxPool.Library.KeyedTable
import BcosTxPool.Library.SortedSet
import BcosTxPool.Library.Run
import BcosTxPool.Library.Window
import BcosTxPool.Library.History
import BcosTxPool.Library.Gauge
import BcosTxPool.Library.Threads
import BcosTxPool.Library.Commute
import BcosTxPool.Library.Collect
import BcosTxPool.Library.Account
import BcosTxPool.Core.Protocol
import BcosTxPool.Core.NonceChecker
import BcosTxPool.Core.Validator
import BcosTxPool.Core.Storage
import BcosTxPool.Core.Sync
import BcosTxPool.Core.Pool
import BcosTxPool.Core.Operations
import BcosTxPool.Core.Interleaving
import BcosTxPool.Core.Requests
import BcosTxPool.Core.Concurrency
import BcosTxPool.Core.Gossip
import BcosTxPool.Core.Dispatch
import BcosTxPool.Core.Network
import BcosTxPool.Core.PreCommit
import BcosTxPool.Core.Submitters
import BcosTxPool.Core.Importers
import BcosTxPool.Theory.Effects
import BcosTxPool.Theory.Writes
import BcosTxPool.Theory.SealCounter
import BcosTxPool.Theory.Node
import BcosTxPool.Theory.Calls
import BcosTxPool.Theory.Frames
import BcosTxPool.Theory.Walk
import BcosTxPool.Theory.Seal
import BcosTxPool.Theory.Admission
import BcosTxPool.Theory.NonceWindow
import BcosTxPool.Theory.Replay
import BcosTxPool.Theory.Import
import BcosTxPool.Theory.Proposal
import BcosTxPool.Theory.Verdict
import BcosTxPool.Theory.Reservation
import BcosTxPool.Theory.Cleanup
import BcosTxPool.Theory.Receipts
import BcosTxPool.Theory.SystemTx
import BcosTxPool.Theory.Reports
import BcosTxPool.Theory.Interleaving
import BcosTxPool.Theory.BlockResult
import BcosTxPool.Theory.SealEffect
import BcosTxPool.Theory.Downloads
import BcosTxPool.Theory.FillBlock
import BcosTxPool.Theory.Exchange
import BcosTxPool.Theory.Announcements
import BcosTxPool.Theory.NonceGrant
import BcosTxPool.Theory.CommitGap
import BcosTxPool.Theory.WakeUp
import BcosTxPool.Theory.Submission
import BcosTxPool.Theory.Redelivery
import BcosTxPool.Theory.FailedImport
import BcosTxPool.Theory.BadPacket
import BcosTxPool.Theory.Gossip
import BcosTxPool.Theory.Limits
import BcosTxPool.Theory.WakeFlag
import BcosTxPool.Theory.Handlers
import BcosTxPool.Theory.Missed
import BcosTxPool.Theory.Steps
import BcosTxPool.Theory.Callbacks
import BcosTxPool.Theory.Refinement
import BcosTxPool.Theory.Queues
import BcosTxPool.Theory.Network
import BcosTxPool.Theory.Answers
import BcosTxPool.Theory.Rest
import BcosTxPool.Theory.Stages
import BcosTxPool.Theory.Meanwhile
import BcosTxPool.Theory.PreCommit
import BcosTxPool.Theory.Capacity
import BcosTxPool.Theory.Parallel
import BcosTxPool.Theory.Importers
import BcosTxPool.Theory.Signatures
import BcosTxPool.Theory.Imported
