import ShardMerge.Config
import ShardMerge.Json.Form
import ShardMerge.ReadyKey
import ShardMerge.Signal
import ShardMerge.Stats

/-!
# JSON forms of the domain

Identifiers are bare strings. A kind of signal is its name, which may also stand as the only member
of an object with the value null. Timestamps, keys, signals, statistics and configurations are
records; a configuration takes its standard value for every field that is not given.
-/

namespace ShardMerge

open JsonForm (toJson ofJson?)

instance : JsonForm Xid where
  toJson x := toJson x.text
  ofJson? j := (ofJson? j).map Xid.mk

/-- The kind of a name. -/
def SignalKind.ofText? (name : String) : Option SignalKind :=
  if name = SignalKind.prewrite.text then some .prewrite
  else if name = SignalKind.commit.text then some .commit
  else none

instance : JsonForm SignalKind where
  toJson kind := .ofString kind.text
  ofJson?
    | .string (some name) => SignalKind.ofText? name
    | .object [(some name, .null)] => SignalKind.ofText? name
    | _ => none

instance : JsonForm Tso where
  toJson t := .record
    [("tso", toJson t.time), ("transaction_id", toJson t.transactionId), ("seq", toJson t.seq)]
  ofJson? j := do
    let row ← Row.ofJson? ["tso", "transaction_id", "seq"] j
    let time ← row.required? "tso"
    let transactionId ← row.required? "transaction_id"
    let seq ← row.required? "seq"
    return { time, transactionId, seq }

instance : JsonForm ReadyKey where
  toJson k := .record [("virtual_tso", toJson k.tso), ("xid", toJson k.xid)]
  ofJson? j := do
    let row ← Row.ofJson? ["virtual_tso", "xid"] j
    let tso ← row.required? "virtual_tso"
    let xid ← row.required? "xid"
    return { tso, xid }

instance : JsonForm Signal where
  toJson s := .record
    [("kind", toJson s.kind), ("xid", toJson s.xid), ("virtual_tso", toJson s.tso)]
  ofJson? j := do
    let row ← Row.ofJson? ["kind", "xid", "virtual_tso"] j
    let kind ← row.required? "kind"
    let xid ← row.required? "xid"
    let tso ← row.withDefault? "virtual_tso" none
    return { kind, xid, tso }

/-- The names of the fields of the statistics. -/
def Stats.fieldNames : List String :=
  ["queued_items", "pending", "registered", "ready", "high_watermark", "total_pushed",
    "total_emitted", "total_skipped", "total_dropped_commits", "total_discarded_commits"]

instance : JsonForm Stats where
  toJson s := .record
    [("queued_items", toJson s.queuedItems), ("pending", toJson s.pending),
      ("registered", toJson s.registered), ("ready", toJson s.ready),
      ("high_watermark", toJson s.highWatermark), ("total_pushed", toJson s.totalPushed),
      ("total_emitted", toJson s.totalEmitted), ("total_skipped", toJson s.totalSkipped),
      ("total_dropped_commits", toJson s.totalDroppedCommits),
      ("total_discarded_commits", toJson s.totalDiscardedCommits)]
  ofJson? j := do
    let row ← Row.ofJson? Stats.fieldNames j
    let queuedItems ← row.required? "queued_items"
    let pending ← row.required? "pending"
    let registered ← row.required? "registered"
    let ready ← row.required? "ready"
    let highWatermark ← row.withDefault? "high_watermark" none
    let totalPushed ← row.required? "total_pushed"
    let totalEmitted ← row.required? "total_emitted"
    let totalSkipped ← row.required? "total_skipped"
    let totalDroppedCommits ← row.required? "total_dropped_commits"
    let totalDiscardedCommits ← row.required? "total_discarded_commits"
    return {
      queuedItems, pending, registered, ready, highWatermark, totalPushed, totalEmitted,
      totalSkipped, totalDroppedCommits, totalDiscardedCommits }

/-- The names of the fields of a configuration. -/
def Config.fieldNames : List String :=
  ["skip_threshold", "scan_budget_ms", "skip_whitelist", "random_discard_commit",
    "discard_commit_percent"]

instance : JsonForm Config where
  toJson c := .record
    [("skip_threshold", toJson c.skipThreshold), ("scan_budget_ms", toJson c.scanBudget),
      ("skip_whitelist", toJson c.whitelist), ("random_discard_commit", toJson c.discardCommits),
      ("discard_commit_percent", toJson c.discardPercent)]
  ofJson? j := do
    let row ← Row.ofJsonOrStart? Config.fieldNames j
    let standard : Config := {}
    let skipThreshold ← row.withDefault? "skip_threshold" standard.skipThreshold
    let scanBudget ← row.withDefault? "scan_budget_ms" standard.scanBudget
    let whitelist ← row.withDefault? "skip_whitelist" standard.whitelist
    let discardCommits ← row.withDefault? "random_discard_commit" standard.discardCommits
    let discardPercent ← row.withDefault? "discard_commit_percent" standard.discardPercent
    return { skipThreshold, scanBudget, whitelist, discardCommits, discardPercent }

end ShardMerge
