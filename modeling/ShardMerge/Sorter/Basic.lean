import ShardMerge.Admission
import ShardMerge.Clock
import ShardMerge.Engine.Drain
import ShardMerge.Engine.Push
import ShardMerge.Whitelist

/-!
# Sorters

An ordering engine together with the parties it asks: the skip policy, the admission strategy and
the clock. Each call puts the engine's questions to them as they are at that moment, and moves on
the strategy by one ruling for each commit and the clock by one reading for each time it was read.
-/

namespace ShardMerge

/-- A sorter whose admission strategy has type `σ`. -/
structure Sorter (σ : Type) where
  limits : Limits
  policy : SkipPolicy
  strategy : σ
  clock : Clock
  engine : Engine := {}

namespace Sorter

variable {σ : Type}

/-- Takes in one item. The admission strategy rules on every commit before it is looked at. -/
def push [Admission σ] (item : Item) (s : Sorter σ) : Reply (Sorter σ) (Except SortError Unit) :=
  match item with
  | .prewrite _ => (s.engine.push s.policy.skips true item).within ({ s with engine := · })
  | .commit x _ =>
    let ruling := Admission.judge s.strategy x
    let reply := s.engine.push s.policy.skips ruling.admitted item
    { value := reply.value
      after := { s with strategy := ruling.next, engine := reply.after }
      events := ruling.events ++ reply.events
      queries := .admission x :: reply.queries }

/-- Hands out every committed transaction that may leave, in ascending order. -/
def drain (s : Sorter σ) : Reply (Sorter σ) (List Transaction) :=
  let reply := s.engine.drain s.limits s.policy.skips s.clock.upcoming
  reply.within fun engine => { s with engine, clock := s.clock.advance reply.readings }

/-- Hands over the skipped transactions that have not been fetched. -/
def takeSkipped (s : Sorter σ) : Reply (Sorter σ) (List Transaction) :=
  s.engine.takeSkipped.within ({ s with engine := · })

/-- Ends the epoch. The parties around the engine stay as they are. -/
def clear (s : Sorter σ) : Reply (Sorter σ) Unit :=
  s.engine.clear.within ({ s with engine := · })

/-- The sorter with another skip policy. -/
def withPolicy (s : Sorter σ) (policy : SkipPolicy) : Sorter σ :=
  { s with policy }

/-- The sorter with another clock. -/
def withClock (s : Sorter σ) (clock : Clock) : Sorter σ :=
  { s with clock }

/-- The sorter with another admission strategy. -/
def withStrategy (s : Sorter σ) (strategy : σ) : Sorter σ :=
  { s with strategy }

/-- The sorter in record notation: its limits, the sizes of its indices and its watermark. -/
def record (s : Sorter σ) : String :=
  Record.labelled "Sorter"
    [("limits", s.limits.record),
      ("queued_items", toString s.engine.queue.length),
      ("pending", toString s.engine.pending.length),
      ("registered", toString s.engine.registry.size),
      ("ready", toString s.engine.ready.size),
      ("high_watermark", Record.optional Tso.record s.engine.watermark)]

end Sorter

end ShardMerge
