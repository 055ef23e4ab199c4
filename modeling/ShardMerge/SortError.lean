import ShardMerge.Xid

/-!
# Refusals

The reasons for which an item, a timestamp text or a configuration is refused. The first four say
that the stream of items is corrupt or out of step with the sorter: they are fatal, and the task
that owns the stream has to stop.
-/

namespace ShardMerge

/-- Why something was refused. -/
inductive SortError where
  /-- A prewrite of a transaction that is still registered. -/
  | duplicatePrewrite (xid : Xid)
  /-- A commit without a prewrite that the skip policy does not excuse. -/
  | unmatchedCommit (xid : Xid)
  /-- A second commit of a transaction. -/
  | duplicateCommit (xid : Xid)
  /-- A commit of a transaction that has a timestamp neither from it nor from its prewrite. -/
  | missingTso (xid : Xid)
  /-- A text that writes no timestamp. -/
  | invalidTso (text : String)
  /-- A configuration that is out of range. -/
  | invalidConfig (reason : String)
deriving DecidableEq, Repr

namespace SortError

/-- The wording of a refusal. -/
def message : SortError → String
  | duplicatePrewrite xid => "duplicate xid for: " ++ xid.text
  | unmatchedCommit xid => "xid is not existed in trans map for: " ++ xid.text
  | duplicateCommit xid => "duplicate commit for: " ++ xid.text
  | missingTso xid => "no virtual tso assigned at commit for: " ++ xid.text
  | invalidTso text => "invalid virtual tso: " ++ text
  | invalidConfig reason => "invalid sorter config: " ++ reason

/-- Whether the refusal means that the stream is corrupt. -/
def isFatal : SortError → Bool
  | duplicatePrewrite _ | unmatchedCommit _ | duplicateCommit _ | missingTso _ => true
  | invalidTso _ | invalidConfig _ => false

end SortError

end ShardMerge
