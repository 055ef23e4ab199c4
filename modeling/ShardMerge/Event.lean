import ShardMerge.Limits
import ShardMerge.ReadyKey
import ShardMerge.Signal

/-!
# Log events

What the library reports while it works. An event is a cause with its data; level, reporting part,
wording and labelled fields are functions of it.
-/

namespace ShardMerge

/-- How much an event matters. -/
inductive Level where
  | debug
  | info
  | warn
  | error
deriving DecidableEq, Repr

/-- The name of a level. -/
def Level.text : Level → String
  | debug => "DEBUG"
  | info => "INFO"
  | warn => "WARN"
  | error => "ERROR"

/-- Who reports an event. -/
inductive Reporter where
  | engine
  /-- The audit trail of skipped transactions, kept apart for operators. -/
  | audit
  | service
  | assembly
  | admission
  | whitelist
deriving DecidableEq, Repr

/-- A value that an event carries. -/
inductive Field where
  | number (n : Nat)
  | text (s : String)
deriving DecidableEq, Repr

/-- Something worth reporting. -/
inductive Event where
  /-- The first item of an epoch went through. -/
  | firstReceived (item : Signal)
  /-- A commit without prewrite was excused. -/
  | commitExcused (xid : Xid)
  /-- The head of the queue is on the whitelist. -/
  | headListed (xid : Xid)
  /-- The transaction at the head of the queue is skipped. -/
  | headSkipped (xid : Xid)
  /-- A scan stopped at an open prewrite. -/
  | notReady (xid : Xid)
  /-- A scan used up its time. -/
  | budgetExhausted (elapsed remaining : Nat)
  /-- A transaction leaves the sorter. -/
  | released (transaction : Transaction)
  /-- A ready key without a registered transaction. -/
  | unregistered (xid : Xid)
  /-- A batch starts below the end of the batch before it. -/
  | regressed (lastEmitted : Option ReadyKey)
  /-- A batch was handed out. -/
  | drained (count : Nat)
  /-- The sorter is about to be cleared. -/
  | clearing (queued registered : Nat)
  /-- The service refuses an item. -/
  | rejected (xid : Xid) (error : SortError)
  /-- The service takes up its work. -/
  | started (limits : Limits)
  /-- Commits are going to be discarded at random. -/
  | discardEnabled (percent : UInt8)
  /-- A commit was discarded at random. -/
  | commitDiscarded (xid : Xid)
  /-- The whitelist was replaced as a whole. -/
  | whitelistReplaced (entries : Nat)
deriving DecidableEq

namespace Event

/-- How much the event matters. -/
def level : Event → Level
  | notReady _ | budgetExhausted _ _ | released _ | drained _ => .debug
  | firstReceived _ | commitExcused _ | headListed _ | headSkipped _ | clearing _ _ | started _
  | whitelistReplaced _ => .info
  | unregistered _ | regressed _ | discardEnabled _ | commitDiscarded _ => .warn
  | rejected _ _ => .error

/-- Who reports the event. -/
def reporter : Event → Reporter
  | commitExcused _ | headSkipped _ => .audit
  | rejected _ _ | started _ => .service
  | discardEnabled _ => .assembly
  | commitDiscarded _ => .admission
  | whitelistReplaced _ => .whitelist
  | firstReceived _ | headListed _ | notReady _ | budgetExhausted _ _ | released _ | unregistered _
  | regressed _ | drained _ | clearing _ _ => .engine

/-- The wording of the event. -/
def message : Event → String
  | firstReceived _ => "First received sort item"
  | commitExcused _ => "skip commit without prewrite"
  | headListed _ => "hit the whitelist, skip transaction"
  | headSkipped _ => "skip"
  | notReady _ => "Transaction is not ready"
  | budgetExhausted _ _ => "Scan budget exhausted"
  | released _ => "Transaction released"
  | unregistered _ => "Ready transaction missing from registry"
  | regressed _ =>
    "Virtual tso regressed across batches, upstream tso allocation is not causal"
  | drained _ => "Available transactions drained"
  | clearing _ _ => "Clearing sorter"
  | rejected _ _ => "Sort item rejected, stream is corrupt"
  | started _ => "Sorting service started"
  | discardEnabled _ => "Random commit discard enabled, commits will be dropped on purpose"
  | commitDiscarded _ => "[inject trouble] discard commit event"
  | whitelistReplaced _ => "Skip whitelist replaced"

/-- The labelled data of the event. -/
def fields : Event → List (String × Field)
  | firstReceived item => [("item", .text item.text)]
  | commitExcused xid | headListed xid | headSkipped xid | notReady xid | unregistered xid
  | commitDiscarded xid => [("xid", .text xid.text)]
  | budgetExhausted elapsed remaining =>
    [("elapsed_ms", .number elapsed), ("remaining", .number remaining)]
  | released transaction => [("transaction", .text transaction.text)]
  | regressed lastEmitted =>
    [("last_emitted", .text (Record.optional ReadyKey.record lastEmitted))]
  | drained count => [("count", .number count)]
  | clearing queued registered =>
    [("queued_items", .number queued), ("registered", .number registered)]
  | rejected xid error => [("xid", .text xid.text), ("error", .text error.message)]
  | started limits => [("limits", .text limits.record)]
  | discardEnabled percent => [("percent", .number percent.toNat)]
  | whitelistReplaced entries => [("entries", .number entries)]

end Event

end ShardMerge
