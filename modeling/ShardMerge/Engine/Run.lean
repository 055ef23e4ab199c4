import ShardMerge.Engine.Drain
import ShardMerge.Engine.Push

/-!
# Runs of an engine

Any finite sequence of operations, each with the answers that the parties around the engine give
while it runs. The answers are free from one operation to the next, so a run covers every way in
which the skip policy, the admission strategy and the clock may behave or be exchanged.
-/

namespace ShardMerge

/-- One operation. -/
inductive Step where
  /-- An item comes in, where `admitted` says whether a commit may. -/
  | push (skips : Xid → Bool) (admitted : Bool) (item : Item)
  /-- A batch is asked for. -/
  | drain (skips : Xid → Bool) (clock : Nat → UInt64)
  /-- The skipped transactions are fetched. -/
  | takeSkipped
  /-- The epoch ends. -/
  | clear

/-- What an operation answers. -/
inductive Answer where
  | pushed (result : Except SortError Unit)
  | drained (batch : List Transaction)
  | tookSkipped (transactions : List Transaction)
  | cleared

namespace Engine

/-- The outcome of one operation. -/
def step (limits : Limits) (e : Engine) : Step → Reply Engine Answer
  | .push skips admitted item => (e.push skips admitted item).map .pushed
  | .drain skips clock => (e.drain limits skips clock).map .drained
  | .takeSkipped => e.takeSkipped.map .tookSkipped
  | .clear => e.clear.map fun _ => .cleared

/-- The outcome of a sequence of operations. -/
def run (limits : Limits) : List Step → Engine → Reply Engine (List Answer)
  | [], e => ⟨[], e, [], []⟩
  | s :: steps, e =>
    (e.step limits s).andThen fun answer e => (run limits steps e).map (answer :: ·)

end Engine

end ShardMerge
