import ShardMerge.Limits
import ShardMerge.SortError
import ShardMerge.Whitelist.Text

/-!
# Configuration

What an operator sets: the limits of a sorter, its whitelist, and the share of commits that a test
environment discards. Each setting has a standard value, and `validate` names the first setting that
is out of range.
-/

namespace ShardMerge

/-- The configuration of a sorter. -/
structure Config where
  /-- Length of the arrival queue above which the head is checked against the whitelist. -/
  skipThreshold : UInt64 := ({} : Limits).skipThreshold
  /-- Milliseconds that one scan of the arrival queue may take. -/
  scanBudget : UInt64 := ({} : Limits).scanBudget
  /-- Identifiers whose other signal may be missing. -/
  whitelist : List Xid := []
  /-- Whether commits are discarded at random, for test environments. -/
  discardCommits : Bool := false
  /-- The share of the commits to discard, in percent. -/
  discardPercent : UInt8 := 5
deriving DecidableEq, Repr

namespace Config

instance : Inhabited Config :=
  ⟨{}⟩

/-- The configuration with the whitelist that a line describes. -/
def withWhitelistText (c : Config) (line : String) : Config :=
  { c with whitelist := Whitelist.xidsOfText line }

/-- Refuses a configuration that is out of range; a missing scan budget is found first. -/
def validate (c : Config) : Except SortError Unit :=
  if c.scanBudget = 0 then .error (.invalidConfig "scan_budget_ms must be positive")
  else if 100 < c.discardPercent then
    .error <| .invalidConfig <|
      "discard_commit_percent " ++ toString c.discardPercent ++ " exceeds 100"
  else .ok ()

/-- The limits that the configuration sets. -/
def limits (c : Config) : Limits :=
  ⟨c.skipThreshold, c.scanBudget⟩

end Config

end ShardMerge
