import ShardMerge.Proofs.History
import ShardMerge.Sorter.Run

/-!
# Sorters as engines

A sorter only decides which answers its engine gets. Every run of a sorter is therefore a run of its
engine, in which each operation comes with what the parties around the engine answer at that moment
(`run_eq_run_engine`): what holds of all runs of an engine holds of all runs of a sorter, under any
changes of its parties.
-/

namespace ShardMerge

namespace Sorter

variable {σ : Type} [Admission σ]

/-- What the admission strategy says to an item: it is asked about commits only. -/
def ruling? (s : Sorter σ) : Item → Option (Ruling σ)
  | .prewrite _ => none
  | .commit x _ => some (Admission.judge s.strategy x)

/-- Whether an item may come in, as far as the admission strategy is concerned. -/
def admits (s : Sorter σ) (item : Item) : Bool :=
  (s.ruling? item).all Ruling.admitted

/-- The admission strategy after it has been asked about an item. -/
def strategyAfter (s : Sorter σ) (item : Item) : σ :=
  (s.ruling? item).elim s.strategy Ruling.next

/-- What the admission strategy itself reports of an item. -/
def strategyEvents (s : Sorter σ) (item : Item) : List Event :=
  (s.ruling? item).elim [] Ruling.events

/-- A push is a push of the engine under the ruling of the admission strategy, which reports
first. -/
theorem push_eq_push_engine (s : Sorter σ) (item : Item) :
    (s.push item).value = (s.engine.push s.policy.skips (s.admits item) item).value ∧
      (s.push item).after =
        { s with
          strategy := s.strategyAfter item
          engine := (s.engine.push s.policy.skips (s.admits item) item).after } ∧
      (s.push item).events =
        s.strategyEvents item ++ (s.engine.push s.policy.skips (s.admits item) item).events := by
  cases item with
  | prewrite t => exact ⟨rfl, rfl, rfl⟩
  | commit x given => exact ⟨rfl, rfl, rfl⟩

/-- The operation that a call makes on the engine, with the answers that it gets; a change of a
party makes none. -/
def engineStep (s : Sorter σ) : Call σ → Option Step
  | .push (.prewrite t) => some (.push s.policy.skips true (.prewrite t))
  | .push (.commit x given) =>
    some (.push s.policy.skips (Admission.judge s.strategy x).admitted (.commit x given))
  | .drain => some (.drain s.policy.skips s.clock.upcoming)
  | .takeSkipped => some .takeSkipped
  | .clear => some .clear
  | .setPolicy _ | .setStrategy _ | .setClock _ => none

/-- The operations that a sequence of calls makes on the engine. -/
def engineSteps : List (Call σ) → Sorter σ → List Step
  | [], _ => []
  | c :: calls, s => (s.engineStep c).toList ++ engineSteps calls (s.call c).after

/-- A call answers what the engine answers, leaves it as the engine does, and keeps the limits. -/
theorem call_eq_step (s : Sorter σ) (c : Call σ) :
    (s.call c).after.limits = s.limits ∧
      (s.call c).after.engine = (Engine.run s.limits (s.engineStep c).toList s.engine).after ∧
      (s.call c).value.toList = (Engine.run s.limits (s.engineStep c).toList s.engine).value := by
  cases c with
  | push item => cases item <;> exact ⟨rfl, rfl, rfl⟩
  | drain => exact ⟨rfl, rfl, rfl⟩
  | takeSkipped => exact ⟨rfl, rfl, rfl⟩
  | clear => exact ⟨rfl, rfl, rfl⟩
  | setPolicy => exact ⟨rfl, rfl, rfl⟩
  | setStrategy => exact ⟨rfl, rfl, rfl⟩
  | setClock => exact ⟨rfl, rfl, rfl⟩

/-- Every run of a sorter is a run of its engine. -/
theorem run_eq_run_engine (calls : List (Call σ)) (s : Sorter σ) :
    (run calls s).after.engine = (Engine.run s.limits (engineSteps calls s) s.engine).after ∧
      (run calls s).value.flatMap Option.toList =
        (Engine.run s.limits (engineSteps calls s) s.engine).value := by
  induction calls generalizing s with
  | nil => exact ⟨rfl, rfl⟩
  | cons c calls ih =>
    obtain ⟨hlimits, hengine, hvalue⟩ := s.call_eq_step c
    obtain ⟨hafter, hvalues⟩ := ih (s.call c).after
    rw [hlimits, hengine] at hafter hvalues
    rw [engineSteps, Engine.after_run_append, Engine.value_run_append, ← hafter, ← hvalues,
      ← hvalue]
    exact ⟨rfl, rfl⟩

/-- What a run of a sorter has answered is what its engine has answered. -/
theorem mem_value_run {calls : List (Call σ)} {s : Sorter σ} {answer : Answer} :
    some answer ∈ (run calls s).value ↔
      answer ∈ (Engine.run s.limits (engineSteps calls s) s.engine).value := by
  rw [← (run_eq_run_engine calls s).2]
  simp [List.mem_flatMap]

/-- What is pushed into the engine has been pushed into the sorter. -/
theorem push_mem_of_engineSteps {calls : List (Call σ)} {s : Sorter σ} {skips : Xid → Bool}
    {admitted : Bool} {item : Item} (hmem : .push skips admitted item ∈ engineSteps calls s) :
    .push item ∈ calls := by
  induction calls generalizing s with
  | nil => cases hmem
  | cons c calls ih =>
    rcases List.mem_append.1 hmem with hmem | hmem
    · cases c with
      | push item' =>
        cases item' <;> simp [engineStep] at hmem <;> simp [hmem]
      | drain | takeSkipped | clear | setPolicy | setStrategy | setClock =>
        simp [engineStep] at hmem
    · exact List.mem_cons_of_mem _ (ih hmem)

/-- A sorter that starts with an empty engine reaches what its engine reaches. -/
theorem engine_run_eq_reached (calls : List (Call σ)) {s : Sorter σ} (fresh : s.engine = .empty) :
    (run calls s).after.engine = Engine.reached s.limits (engineSteps calls s) := by
  rw [(run_eq_run_engine calls s).1, fresh]
  rfl

end Sorter

end ShardMerge
