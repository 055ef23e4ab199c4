import ShardMerge.Batch
import ShardMerge.ReadyQueue
import ShardMerge.Reply
import ShardMerge.Stats

/-!
# The ordering engine

What a sorter holds between calls. A transaction is pending from its prewrite to its commit, ready
from its commit to its release, and registered all that time. The arrival queue keeps the accepted
signals in the order in which they came, and the high watermark is the highest timestamp among the
commits that scans have taken off it.

What the parties around the engine answer (whether a commit may come in, which identifiers may be
skipped, what the clock reads) is given to each operation as an argument.
-/

namespace ShardMerge

/-- Counters over an epoch. -/
structure Totals where
  /-- Signals that joined the arrival queue. -/
  pushed : Nat := 0
  /-- Transactions handed out in batches. -/
  emitted : Nat := 0
  /-- Open transactions skipped at the head of the queue. -/
  skipped : Nat := 0
  /-- Excused commits without a prewrite. -/
  droppedCommits : Nat := 0
  /-- Commits that were not let in. -/
  discardedCommits : Nat := 0
deriving DecidableEq, Repr, Inhabited

/-- The contents of a sorter. -/
structure Engine where
  /-- Identifiers that are prewritten and not committed. -/
  pending : List Xid := []
  /-- Transactions that are prewritten and neither released nor skipped. -/
  registry : Registry := .empty
  /-- Accepted signals, oldest first. -/
  queue : List Signal := []
  /-- Keys of the committed transactions that wait for the watermark. -/
  ready : ReadyQueue := .empty
  /-- The highest timestamp among the commits scanned so far. -/
  watermark : Option Tso := none
  /-- The first item of the epoch that was not refused. -/
  firstReceived : Option Signal := none
  /-- The key of the last transaction handed out. -/
  lastEmitted : Option ReadyKey := none
  /-- Skipped transactions that have not been fetched. -/
  skipped : List Transaction := []
  totals : Totals := {}
deriving DecidableEq

namespace Engine

/-- The engine at the start of an epoch. -/
def empty : Engine :=
  {}

instance : Inhabited Engine :=
  ⟨empty⟩

/-- The number of signals in the arrival queue. -/
def size (e : Engine) : Nat :=
  e.queue.length

/-- Whether the arrival queue has no signal. -/
def isEmpty (e : Engine) : Bool :=
  e.queue.isEmpty

/-- The oldest signal in the arrival queue. -/
def firstSignal? (e : Engine) : Option Signal :=
  e.queue.head?

/-- The least key that waits for the watermark. -/
def firstReady? (e : Engine) : Option ReadyKey :=
  e.ready.min?

/-- The registered transaction of an identifier. -/
def transaction? (e : Engine) (x : Xid) : Option Transaction :=
  e.registry.get? x

/-- A snapshot for monitoring. -/
def stats (e : Engine) : Stats where
  queuedItems := e.queue.length.toUInt64
  pending := e.pending.length.toUInt64
  registered := e.registry.size.toUInt64
  ready := e.ready.size.toUInt64
  highWatermark := e.watermark.map Tso.text
  totalPushed := e.totals.pushed.toUInt64
  totalEmitted := e.totals.emitted.toUInt64
  totalSkipped := e.totals.skipped.toUInt64
  totalDroppedCommits := e.totals.droppedCommits.toUInt64
  totalDiscardedCommits := e.totals.discardedCommits.toUInt64

/-- Hands over the skipped transactions that have not been fetched. -/
def takeSkipped (e : Engine) : Reply Engine (List Transaction) :=
  { value := e.skipped, after := { e with skipped := [] } }

/-- Ends the epoch: every part of the engine is emptied or reset. -/
def clear (e : Engine) : Reply Engine Unit where
  value := ()
  after :=
    { e with
      pending := []
      registry := .empty
      queue := []
      ready := .empty
      watermark := none
      firstReceived := none
      lastEmitted := none
      skipped := []
      totals := {} }
  events := [.clearing e.queue.length e.registry.size]

/-- No part of the engine outlives a clear. -/
theorem after_clear (e : Engine) : e.clear.after = empty :=
  rfl

end Engine

end ShardMerge
