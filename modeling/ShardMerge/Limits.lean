import ShardMerge.Text.Record

/-!
# Limits

The numbers that a drain works within.
-/

namespace ShardMerge

/-- The limits of a sorter. -/
structure Limits where
  /-- Length of the arrival queue above which a whitelisted head may be skipped. -/
  skipThreshold : UInt64 := 10000
  /-- Milliseconds that one scan of the arrival queue may take. -/
  scanBudget : UInt64 := 500
deriving DecidableEq, Repr, Inhabited

/-- The limits in record notation. -/
def Limits.record (l : Limits) : String :=
  Record.labelled "SortLimits"
    [("skip_threshold", toString l.skipThreshold), ("scan_budget_ms", toString l.scanBudget)]

end ShardMerge
