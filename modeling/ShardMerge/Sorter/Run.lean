import ShardMerge.Engine.Run
import ShardMerge.Sorter.Basic

/-!
# Runs of a sorter

Any finite sequence of calls on one sorter, with changes of the parties around its engine in
between.
-/

namespace ShardMerge

/-- One call on a sorter whose admission strategy has type `σ`, or a change of a party around it. -/
inductive Call (σ : Type) where
  | push (item : Item)
  | drain
  | takeSkipped
  | clear
  | setPolicy (policy : SkipPolicy)
  | setStrategy (strategy : σ)
  | setClock (clock : Clock)

namespace Sorter

variable {σ : Type}

/-- The outcome of one call; a change of a party answers nothing. -/
def call [Admission σ] (s : Sorter σ) : Call σ → Reply (Sorter σ) (Option Answer)
  | .push item => (s.push item).map (some <| .pushed ·)
  | .drain => s.drain.map (some <| .drained ·)
  | .takeSkipped => s.takeSkipped.map (some <| .tookSkipped ·)
  | .clear => s.clear.map fun _ => some .cleared
  | .setPolicy policy => { value := none, after := s.withPolicy policy }
  | .setStrategy strategy => { value := none, after := s.withStrategy strategy }
  | .setClock clock => { value := none, after := s.withClock clock }

/-- The outcome of a sequence of calls. -/
def run [Admission σ] : List (Call σ) → Sorter σ → Reply (Sorter σ) (List (Option Answer))
  | [], s => ⟨[], s, [], []⟩
  | c :: calls, s => (s.call c).andThen fun answer s => (run calls s).map (answer :: ·)

end Sorter

end ShardMerge
