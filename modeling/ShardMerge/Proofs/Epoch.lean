import Mathlib.Data.List.DropRight
import ShardMerge.Proofs.History

/-!
# Epochs

A clear leaves nothing of what was there before it, so what a run does after its last clear is what
a run of these operations alone does on an empty engine. `epoch` are these operations, and
`recentAnswers` what they have answered; as every epoch of a run is the last one of a part of it,
what holds of the last epoch of every run holds of all epochs.
-/

namespace ShardMerge

/-- Whether an operation ends an epoch. -/
def Step.isClear : Step → Bool
  | .clear => true
  | .push .. | .drain .. | .takeSkipped => false

theorem Step.isClear_eq_false {s : Step} (hs : s ≠ .clear) : s.isClear = false := by
  cases s with
  | clear => exact absurd rfl hs
  | push | drain | takeSkipped => rfl

/-- Whether an answer is that of a clear. -/
def Answer.isCleared : Answer → Bool
  | .cleared => true
  | .pushed _ | .drained _ | .tookSkipped _ => false

namespace Engine

variable {limits : Limits}

/-- The operations of a run since its last clear. -/
def epoch (steps : List Step) : List Step :=
  steps.rtakeWhile (!·.isClear)

/-- The answers of a run since its last clear. -/
def recentAnswers (limits : Limits) (steps : List Step) : List Answer :=
  (run limits steps .empty).value.rtakeWhile (!·.isCleared)

theorem epoch_concat_clear (steps : List Step) : epoch (steps ++ [.clear]) = [] := by
  rw [epoch, List.rtakeWhile_concat]
  rfl

theorem epoch_concat {s : Step} (hs : s ≠ .clear) (steps : List Step) :
    epoch (steps ++ [s]) = epoch steps ++ [s] := by
  rw [epoch, List.rtakeWhile_concat, Step.isClear_eq_false hs]
  rfl

/-- What holds at the start of an epoch and is kept by every operation but a clear holds of every
epoch. -/
theorem epoch_induction {P : List Step → Prop} (start : P [])
    (next : ∀ steps s, s ≠ .clear → P steps → P (steps ++ [s])) (steps : List Step) :
    P (epoch steps) := by
  induction steps using List.reverseRecOn with
  | nil => exact start
  | append_singleton steps s ih =>
    by_cases hs : s = .clear
    · rw [hs, epoch_concat_clear]
      exact start
    · rw [epoch_concat hs]
      exact next _ s hs ih

/-- The history forgets what was before the last clear. -/
theorem history_epoch (limits : Limits) (steps : List Step) :
    history limits (epoch steps) = history limits steps ∧
      reached limits (epoch steps) = reached limits steps := by
  induction steps using List.reverseRecOn with
  | nil => exact ⟨rfl, rfl⟩
  | append_singleton steps s ih =>
    by_cases hs : s = .clear
    · subst hs
      rw [epoch_concat_clear, history_concat_clear, reached_concat]
      exact ⟨rfl, rfl⟩
    · rw [epoch_concat hs, history_concat hs, history_concat hs, reached_concat, reached_concat,
        ih.1, ih.2]
      exact ⟨rfl, rfl⟩

theorem isCleared_step (limits : Limits) (e : Engine) (s : Step) :
    (e.step limits s).value.isCleared = s.isClear := by
  cases s with
  | push | drain | takeSkipped | clear => rfl

/-- The answers since the last clear are those of the operations since the last clear. -/
theorem recentAnswers_eq (limits : Limits) (steps : List Step) :
    recentAnswers limits steps = (run limits (epoch steps) .empty).value := by
  induction steps using List.reverseRecOn with
  | nil => rfl
  | append_singleton steps s ih =>
    rw [recentAnswers, value_run_concat, List.rtakeWhile_concat, isCleared_step]
    by_cases hs : s = .clear
    · subst hs
      rw [epoch_concat_clear]
      rfl
    · rw [Step.isClear_eq_false hs, epoch_concat hs, value_run_concat, (history_epoch limits _).2,
        ← ih]
      rfl

/-- What the last epoch of a run answers and reports is what its operations answer and report on an
empty engine. -/
theorem run_eq_epoch (limits : Limits) (steps : List Step) :
    ∃ before, steps = before ++ epoch steps ∧ reached limits before = .empty ∧
      (run limits steps .empty).value =
        (run limits before .empty).value ++ (run limits (epoch steps) .empty).value ∧
      (run limits steps .empty).events =
        (run limits before .empty).events ++ (run limits (epoch steps) .empty).events := by
  induction steps using List.reverseRecOn with
  | nil => exact ⟨[], rfl, rfl, rfl, rfl⟩
  | append_singleton steps s ih =>
    by_cases hs : s = .clear
    · subst hs
      rw [epoch_concat_clear]
      exact ⟨steps ++ [.clear], (List.append_nil _).symm, reached_concat steps .clear,
        (List.append_nil _).symm, (List.append_nil _).symm⟩
    · obtain ⟨before, hsteps, hempty, hvalue, hevents⟩ := ih
      refine ⟨before, ?_, hempty, ?_, ?_⟩
      · rw [epoch_concat hs, ← List.append_assoc, ← hsteps]
      · rw [epoch_concat hs, value_run_concat, value_run_concat, hvalue, (history_epoch limits _).2,
          List.append_assoc]
      · rw [epoch_concat hs, events_run_concat, events_run_concat, hevents,
          (history_epoch limits _).2, List.append_assoc]

end Engine

end ShardMerge
