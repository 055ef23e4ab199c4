/-!
# Statistics

A snapshot of a sorter for monitoring.
-/

namespace ShardMerge

/-- The sizes of a sorter's indices and its counters. -/
structure Stats where
  /-- Signals in the arrival queue. -/
  queuedItems : UInt64 := 0
  /-- Prewritten transactions without a commit. -/
  pending : UInt64 := 0
  /-- Registered transactions. -/
  registered : UInt64 := 0
  /-- Committed transactions that wait for the watermark. -/
  ready : UInt64 := 0
  /-- The canonical text of the high watermark. -/
  highWatermark : Option String := none
  totalPushed : UInt64 := 0
  totalEmitted : UInt64 := 0
  /-- Open transactions skipped at the head of the queue. -/
  totalSkipped : UInt64 := 0
  /-- Excused commits without a prewrite. -/
  totalDroppedCommits : UInt64 := 0
  /-- Commits that were not let in. -/
  totalDiscardedCommits : UInt64 := 0
deriving DecidableEq, Repr, Inhabited

end ShardMerge
