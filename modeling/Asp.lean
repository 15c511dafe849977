import Asp.Foundation.Machine
import Asp.Foundation.RefCount
import Asp.Foundation.Tally
import Asp.Data.Nums
import Asp.Time.Detail
import Asp.Time.DurationRuns
import Asp.Time.Instant
import Asp.Time.Action
import Asp.Foundation.Fuel
import Asp.Foundation.Prog
import Asp.Collections.Growth
import Asp.Collections.Memory
import Asp.Collections.SmallVec
import Asp.Collections.Insert
import Asp.Collections.Calls
import Asp.Collections.Move
import Asp.Collections.Lifetimes
import Asp.Collections.Transfer
import Asp.Collections.Lists
import Asp.Iter.Next
import Asp.Iter.Rules
import Asp.Iter.Polls
import Asp.Iter.Serves
import Asp.Iter.Loops
import Asp.Iter.Denotation
import Asp.Iter.Pipelines
import Asp.Sync.Notify
import Asp.Ptr.Machine
import Asp.Ptr.Ledger
import Asp.Ptr.Calls
import Asp.Ptr.Steps
import Asp.Ptr.Soundness
import Asp.Ptr.PtrSwap
import Asp.Ptr.SharedPtr
import Asp.Ptr.RcuCalls
import Asp.Ptr.Rcu
import Asp.Sync.Mutex
import Asp.Sync.Channel
import Asp.Thread.Thread
import Asp.Thread.ThreadPool
import Asp.Data.Parse
import Asp.Data.ToString
import Asp.Collections.TimeToLive
import Asp.Collections.EntryLimit
import Asp.Ptr.Ownership
import Asp.Foundation.IntType
import Asp.Data.Checked
import Asp.Time.Subtract
import Asp.Time.Elapsed
import Asp.Time.Difference
import Asp.Time.RawNanos
import Asp.Time.Saturate
import Asp.Time.Expiry
import Asp.Time.UnixTime
import Asp.Time.Exact
import Asp.Time.Distance
import Asp.Time.Scaling
import Asp.Time.Windows
import Asp.Foundation.Pieces
import Asp.Iter.Concrete
import Asp.Iter.Split
import Asp.Iter.SplitJoin
import Asp.Collections.Eviction
import Asp.Collections.Overwrite
import Asp.Fs.Fs
import Asp.Sync.PosixWait
import Asp.Sync.WindowsWait
import Asp.Text.LocalFormat
import Asp.Time.Format
import Asp.Foundation.Substring
import Asp.Iter.Substring
import Asp.Foundation.Runs
import Asp.Iter.Tokens
import Asp.Collections.Erase
import Asp.Collections.Aliasing
import Asp.Collections.Throwing
import Asp.Foundation.Reach
import Asp.Ptr.Nested
import Asp.Foundation.Cycle
import Asp.Math.NumberCycle
import Asp.Iter.Range
import Asp.Foundation.Fields
import Asp.Iter.Lines
import Asp.Collections.Capacity
import Asp.Text.BoxedString
import Asp.Fs.Writer
import Asp.Foundation.Simulation
import Asp.Foundation.Monitor
import Asp.Sync.SpinLock
import Asp.Sync.Queue
import Asp.Thread.Tasks
import Asp.Thread.Returns
import Asp.Thread.Shutdown
import Asp.Thread.Finishes
import Asp.Iter.Terminals
import Asp.Iter.Extremes
import Asp.Foundation.FirstBest
import Asp.Thread.Callbacks
import Asp.Thread.Handles
import Asp.Sync.MutexThreads
import Asp.Collections.Recency
import Asp.Time.Ticks
import Asp.Ptr.FromThis
import Asp.Ptr.SelfReference
import Asp.Ptr.Kept
import Asp.Ptr.Array
import Asp.Fs.Windows
import Asp.Time.Units
import Asp.Foundation.Bytes
import Asp.Data.Byteswap
