import ShardMerge.Engine.Basic

/-!
# Handing out batches

A drain looks at the head of the arrival queue if the queue is long, scans the queue, and hands out
what the watermark allows. The scan takes resolved signals off the queue and raises the watermark on
commits; it stops at the first prewrite that is still open, or when its time is used up. A commit
that has not been scanned never raises the watermark, so no transaction of a fast shard overtakes an
older one that is still open on a slow shard.
-/

namespace ShardMerge

/-- Why a scan ended. -/
inductive ScanEnd where
  /-- The queue has no signal left. -/
  | exhausted
  /-- The next signal is an open prewrite. -/
  | blocked (xid : Xid)
  /-- The time that had passed when it was over. -/
  | cut (elapsed : Nat)
deriving DecidableEq

/-- The outcome of a scan. -/
structure Scan where
  /-- The signals that are left. -/
  remaining : List Signal
  watermark : Option Tso
  /-- The number of clock readings taken since the start. -/
  readings : Nat
  reason : ScanEnd
deriving DecidableEq

/-- Scans a queue. `elapsed n` is the time that has passed at the `n`-th reading after the start. -/
def Scan.of (pending : List Xid) (budget : Nat) (elapsed : Nat → Nat) :
    List Signal → Option Tso → Nat → Scan
  | [], watermark, n => ⟨[], watermark, n, .exhausted⟩
  | head :: rest, watermark, n =>
    if head.kind = .prewrite ∧ head.xid ∈ pending then
      ⟨head :: rest, watermark, n, .blocked head.xid⟩
    else
      let raised :=
        match head.kind, head.tso with
        | .commit, some tso => Tso.raise watermark tso
        | _, _ => watermark
      let spent := elapsed (n + 1)
      if budget < spent then ⟨rest, raised, n + 1, .cut spent⟩
      else Scan.of pending budget elapsed rest raised (n + 1)

/-- What is reported of a scan. -/
def Scan.events (s : Scan) : List Event :=
  match s.reason with
  | .exhausted => []
  | .blocked x => [.notReady x]
  | .cut elapsed => [.budgetExhausted elapsed s.remaining.length]

/-- Takes the transactions of the given keys out of a registry, in the order of the keys. -/
def Registry.collect : List ReadyKey → Registry → Reply Registry (List Transaction)
  | [], registry => ⟨[], registry, [], []⟩
  | key :: keys, registry =>
    let rest := collect keys (registry.erase key.xid)
    match registry.get? key.xid with
    | some t => { rest with value := t :: rest.value, events := .released t :: rest.events }
    | none => { rest with events := .unregistered key.xid :: rest.events }

namespace Engine

/-- Moves an open transaction to the skipped ones, without its payload. -/
def setAside (x : Xid) (e : Engine) : Engine :=
  if x ∈ e.pending then
    { e with
      pending := e.pending.filter (· ≠ x)
      registry := e.registry.erase x
      skipped := e.skipped ++ (e.registry.get? x).toList.map Transaction.release
      totals := { e.totals with skipped := e.totals.skipped + 1 } }
  else e

/-- Skips the transaction at the head of the queue if it is a prewrite that may be skipped. The skip
is reported even if the transaction has been committed since and is left to drain normally. -/
def skipHead (skips : Xid → Bool) (e : Engine) : Reply Engine Unit :=
  match e.queue with
  | ⟨.prewrite, x, _⟩ :: _ =>
    if skips x then ⟨(), e.setAside x, [.headListed x, .headSkipped x], [.skip x]⟩
    else ⟨(), e, [], [.skip x]⟩
  | _ => ⟨(), e, [], []⟩

/-- Scans the arrival queue within a budget. The clock is read at the start and after each signal
taken off; a clock that has gone back counts as not having moved. -/
def scan (budget : UInt64) (clock : Nat → UInt64) (e : Engine) : Reply Engine Scan :=
  let elapsed n := (clock n).toNat - (clock 0).toNat
  let s := Scan.of e.pending budget.toNat elapsed e.queue e.watermark 0
  ⟨s, { e with queue := s.remaining, watermark := s.watermark }, s.events,
    List.replicate (s.readings + 1) .clock⟩

/-- Takes the transactions that the watermark allows out of the engine. -/
def emit (e : Engine) : Reply Engine (List Transaction) :=
  (Registry.collect (e.ready.upTo e.watermark) e.registry).within fun registry =>
    { e with registry, ready := e.ready.beyond e.watermark }

/-- Books a batch, and reports it and a start below the end of the batch before it. -/
def deliver (batch : List Transaction) (e : Engine) : Reply Engine (List Transaction) :=
  { value := batch
    after :=
      { e with
        lastEmitted := (lastKey batch).or e.lastEmitted
        totals := { e.totals with emitted := e.totals.emitted + batch.length } }
    events :=
      (if emissionOrdered e.lastEmitted batch then [] else [.regressed e.lastEmitted]) ++
        (if batch.isEmpty then [] else [.drained batch.length]) }

/-- Looks at the head of the queue only if the queue is longer than the threshold. -/
def skipStuckHead (limits : Limits) (skips : Xid → Bool) (e : Engine) : Reply Engine Unit :=
  if limits.skipThreshold.toNat < e.queue.length then e.skipHead skips else ⟨(), e, [], []⟩

/-- Hands out every committed transaction that may leave, in ascending order, given which
identifiers may be skipped and what the clock will read. With nothing queued there is nothing to do.
-/
def drain (limits : Limits) (skips : Xid → Bool) (clock : Nat → UInt64) (e : Engine) :
    Reply Engine (List Transaction) :=
  if e.queue.isEmpty then ⟨[], e, [], []⟩
  else
    (e.skipStuckHead limits skips).andThen fun _ e =>
      (e.scan limits.scanBudget clock).andThen fun _ e =>
        e.emit.andThen fun batch e => e.deliver batch

end Engine

end ShardMerge
