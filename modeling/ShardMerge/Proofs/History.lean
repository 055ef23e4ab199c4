import Mathlib.Data.List.Induction
import ShardMerge.Engine.Run

/-!
# Histories

What happens to transactions while an engine runs, read off what its operations answer and what they
leave behind, not off how they work: an accepted item is one whose signal joined the arrival queue,
a skipped transaction is one that a drain added to the skipped ones, and an emitted one is in a
batch that was handed out. A history is the list of these happenings since the last clear; what is
said about the past of a state is said about its history.
-/

namespace ShardMerge

/-- Something that happens to a transaction, or the fetching of the skipped ones. -/
inductive Happening where
  /-- A prewrite joined the arrival queue. -/
  | prewritten (t : Transaction)
  /-- A commit joined the arrival queue: the timestamp that came with it, and the one with which it
  took effect. -/
  | committed (xid : Xid) (given : Option Tso) (tso : Tso)
  /-- A transaction was skipped at the head of the arrival queue. -/
  | skipped (t : Transaction)
  /-- A transaction was handed out in a batch. -/
  | emitted (t : Transaction)
  /-- The skipped transactions were fetched. -/
  | fetched (ts : List Transaction)
deriving DecidableEq

namespace Happening

/-- The identifier of the transaction that it happens to. -/
def xid? : Happening → Option Xid
  | prewritten t | skipped t | emitted t => some t.xid
  | committed x _ _ => some x
  | fetched _ => none

/-- The signal that joins the arrival queue with it. -/
def signal? : Happening → Option Signal
  | prewritten t => some ⟨.prewrite, t.xid, t.tso⟩
  | committed x _ tso => some ⟨.commit, x, some tso⟩
  | skipped _ | emitted _ | fetched _ => none

/-- What has happened when a signal of an item has joined the arrival queue. -/
def ofSignal (item : Item) (s : Signal) : Option Happening :=
  match item with
  | .prewrite t => some (prewritten t)
  | .commit x given => s.tso.map (committed x given)

section Projections

variable {t : Transaction} {x : Xid} {given : Option Tso} {tso : Tso} {ts : List Transaction}

@[simp] theorem xid?_prewritten : (prewritten t).xid? = some t.xid := rfl

@[simp] theorem xid?_committed : (committed x given tso).xid? = some x := rfl

@[simp] theorem xid?_skipped : (skipped t).xid? = some t.xid := rfl

@[simp] theorem xid?_emitted : (emitted t).xid? = some t.xid := rfl

@[simp] theorem xid?_fetched : (fetched ts).xid? = none := rfl

@[simp] theorem signal?_prewritten :
    (prewritten t).signal? = some ⟨.prewrite, t.xid, t.tso⟩ := rfl

@[simp] theorem signal?_committed :
    (committed x given tso).signal? = some ⟨.commit, x, some tso⟩ := rfl

@[simp] theorem signal?_skipped : (skipped t).signal? = none := rfl

@[simp] theorem signal?_emitted : (emitted t).signal? = none := rfl

@[simp] theorem signal?_fetched : (fetched ts).signal? = none := rfl

end Projections

/-- A signal joins the arrival queue with a prewrite or a commit, under the same identifier. -/
theorem signal?_cases {a : Happening} {s : Signal} (h : a.signal? = some s) :
    a.xid? = some s.xid ∧
      ((∃ t, a = prewritten t ∧ s = ⟨.prewrite, t.xid, t.tso⟩) ∨
        ∃ x given tso, a = committed x given tso ∧ s = ⟨.commit, x, some tso⟩) := by
  cases a with
  | prewritten t =>
    cases h
    exact ⟨rfl, Or.inl ⟨t, rfl, rfl⟩⟩
  | committed x given tso =>
    cases h
    exact ⟨rfl, Or.inr ⟨x, given, tso, rfl, rfl⟩⟩
  | skipped t => cases h
  | emitted t => cases h
  | fetched ts => cases h

end Happening

/-- The signals of a history, in the order in which they joined the arrival queue. -/
def signals (h : List Happening) : List Signal :=
  h.filterMap Happening.signal?

/-- The part of a history that is about one identifier. -/
def lifeOf (x : Xid) (h : List Happening) : List Happening :=
  h.filter (·.xid? = some x)

/-- The batches among the answers of a run. -/
def batches (answers : List Answer) : List (List Transaction) :=
  answers.filterMap fun
    | .drained batch => some batch
    | _ => none

namespace Engine

/-- What one operation makes happen. In a drain, skipping comes before handing out. -/
def happenings (limits : Limits) (e : Engine) : Step → List Happening
  | .push skips admitted item =>
    ((e.push skips admitted item).after.queue.drop e.queue.length).filterMap
      (Happening.ofSignal item)
  | .drain skips clock =>
    let reply := e.drain limits skips clock
    (reply.after.skipped.drop e.skipped.length).map .skipped ++ reply.value.map .emitted
  | .takeSkipped => [.fetched e.takeSkipped.value]
  | .clear => []

/-- The history after one more operation: a clear forgets it. -/
def pastAfter (limits : Limits) (past : List Happening) (e : Engine) : Step → List Happening
  | .clear => []
  | s => past ++ e.happenings limits s

/-- The history at the end of a run that starts with the given one. -/
def historyFrom (limits : Limits) : List Step → List Happening → Engine → List Happening
  | [], past, _ => past
  | s :: steps, past, e =>
    historyFrom limits steps (e.pastAfter limits past s) (e.step limits s).after

/-- The history at the end of a run that starts with an empty engine. -/
def history (limits : Limits) (steps : List Step) : List Happening :=
  historyFrom limits steps [] .empty

/-- The engine at the end of a run that starts with an empty one. -/
def reached (limits : Limits) (steps : List Step) : Engine :=
  (run limits steps .empty).after

/-- The batches of a run that starts with an empty engine. -/
def handedOut (limits : Limits) (steps : List Step) : List (List Transaction) :=
  batches (run limits steps .empty).value

end Engine

@[simp] theorem signals_nil : signals [] = [] :=
  rfl

@[simp] theorem signals_cons (a : Happening) (h : List Happening) :
    signals (a :: h) = a.signal?.toList ++ signals h := by
  cases hs : a.signal? <;> simp [signals, hs]

@[simp] theorem signals_append (h h' : List Happening) :
    signals (h ++ h') = signals h ++ signals h' := by
  simp [signals]

@[simp] theorem lifeOf_append (x : Xid) (h h' : List Happening) :
    lifeOf x (h ++ h') = lifeOf x h ++ lifeOf x h' := by
  simp [lifeOf]

theorem mem_lifeOf {x : Xid} {h : List Happening} {a : Happening} :
    a ∈ lifeOf x h ↔ a ∈ h ∧ a.xid? = some x := by
  simp [lifeOf]

theorem lifeOf_of_eq {x : Xid} {a : Happening} (h : a.xid? = some x) : lifeOf x [a] = [a] := by
  simp [lifeOf, h]

theorem lifeOf_of_ne {x : Xid} {a : Happening} (h : a.xid? ≠ some x) : lifeOf x [a] = [] := by
  simp [lifeOf, h]

theorem mem_batches {answers : List Answer} {batch : List Transaction} :
    batch ∈ batches answers ↔ .drained batch ∈ answers := by
  rw [batches, List.mem_filterMap]
  constructor
  · rintro ⟨answer, hanswer, heq⟩
    cases answer with
    | drained batch' =>
      cases heq
      exact hanswer
    | pushed | tookSkipped | cleared => cases heq
  · exact fun hanswer => ⟨_, hanswer, rfl⟩

@[simp] theorem batches_singleton_pushed (result : Except SortError Unit) :
    batches [.pushed result] = [] :=
  rfl

@[simp] theorem batches_singleton_drained (batch : List Transaction) :
    batches [.drained batch] = [batch] :=
  rfl

@[simp] theorem batches_singleton_tookSkipped (ts : List Transaction) :
    batches [.tookSkipped ts] = [] :=
  rfl

namespace Engine

variable {limits : Limits}

theorem after_run_append (steps steps' : List Step) (e : Engine) :
    (run limits (steps ++ steps') e).after =
      (run limits steps' (run limits steps e).after).after := by
  induction steps generalizing e with
  | nil => rfl
  | cons s steps ih => exact ih _

theorem value_run_append (steps steps' : List Step) (e : Engine) :
    (run limits (steps ++ steps') e).value =
      (run limits steps e).value ++ (run limits steps' (run limits steps e).after).value := by
  induction steps generalizing e with
  | nil => rfl
  | cons s steps ih => exact congrArg _ (ih _)

theorem events_run_append (steps steps' : List Step) (e : Engine) :
    (run limits (steps ++ steps') e).events =
      (run limits steps e).events ++ (run limits steps' (run limits steps e).after).events := by
  induction steps generalizing e with
  | nil => rfl
  | cons s steps ih =>
    show (e.step limits s).events ++ (run limits (steps ++ steps') (e.step limits s).after).events =
      ((e.step limits s).events ++ (run limits steps (e.step limits s).after).events) ++ _
    rw [ih, List.append_assoc]
    rfl

theorem historyFrom_append (steps steps' : List Step) (h : List Happening) (e : Engine) :
    historyFrom limits (steps ++ steps') h e =
      historyFrom limits steps' (historyFrom limits steps h e) (run limits steps e).after := by
  induction steps generalizing h e with
  | nil => rfl
  | cons s steps ih => exact ih _ _

theorem reached_concat (steps : List Step) (s : Step) :
    reached limits (steps ++ [s]) = ((reached limits steps).step limits s).after :=
  after_run_append steps [s] .empty

theorem history_concat {s : Step} (hs : s ≠ .clear) (steps : List Step) :
    history limits (steps ++ [s]) =
      history limits steps ++ (reached limits steps).happenings limits s := by
  have hpast : (reached limits steps).pastAfter limits (history limits steps) s =
      history limits steps ++ (reached limits steps).happenings limits s := by
    cases s with
    | clear => exact absurd rfl hs
    | push | drain | takeSkipped => rfl
  exact (historyFrom_append steps [s] [] .empty).trans hpast

@[simp] theorem history_concat_clear (steps : List Step) :
    history limits (steps ++ [.clear]) = [] :=
  historyFrom_append steps [.clear] [] .empty

theorem value_run_concat (steps : List Step) (s : Step) :
    (run limits (steps ++ [s]) .empty).value =
      (run limits steps .empty).value ++ [((reached limits steps).step limits s).value] :=
  value_run_append steps [s] .empty

theorem events_run_concat (steps : List Step) (s : Step) :
    (run limits (steps ++ [s]) .empty).events =
      (run limits steps .empty).events ++ ((reached limits steps).step limits s).events := by
  rw [events_run_append]
  simp [run, Reply.andThen, Reply.map, reached]

theorem handedOut_concat (steps : List Step) (s : Step) :
    handedOut limits (steps ++ [s]) =
      handedOut limits steps ++ batches [((reached limits steps).step limits s).value] := by
  rw [handedOut, value_run_concat, batches, List.filterMap_append]
  rfl

/-- With a push, a prewrite or a commit happens, or nothing. -/
theorem mem_happenings_push {e : Engine} {skips : Xid → Bool} {admitted : Bool} {item : Item}
    {a : Happening} (ha : a ∈ e.happenings limits (.push skips admitted item)) :
    (∃ t, a = .prewritten t) ∨ ∃ x given tso, a = .committed x given tso := by
  obtain ⟨s, -, hs⟩ := List.mem_filterMap.1 ha
  cases item with
  | prewrite t =>
    cases hs
    exact Or.inl ⟨t, rfl⟩
  | commit x given =>
    obtain ⟨tso, -, rfl⟩ := Option.map_eq_some_iff.1 hs
    exact Or.inr ⟨x, given, tso, rfl⟩

/-- What prewrites and commits do not show is not shown by what a push makes happen. -/
theorem filterMap_happenings_push {α : Type} {f : Happening → Option α}
    (prewritten : ∀ t, f (.prewritten t) = none)
    (committed : ∀ x given tso, f (.committed x given tso) = none) (skips : Xid → Bool)
    (admitted : Bool) (item : Item) (e : Engine) :
    (e.happenings limits (.push skips admitted item)).filterMap f = [] := by
  refine List.filterMap_eq_nil_iff.2 fun a ha => ?_
  rcases mem_happenings_push ha with ⟨t, rfl⟩ | ⟨x, given, tso, rfl⟩
  · exact prewritten t
  · exact committed x given tso

/-- An operation hands out what it makes happen as handed out. -/
theorem emitted_mem_happenings {e : Engine} {s : Step} {u : Transaction} :
    .emitted u ∈ e.happenings limits s ↔ u ∈ (batches [(e.step limits s).value]).flatten := by
  cases s with
  | push skips admitted item =>
    have hno : .emitted u ∉ e.happenings limits (.push skips admitted item) := by
      intro hu
      rcases mem_happenings_push hu with ⟨t, heq⟩ | ⟨x, given, tso, heq⟩
      · cases heq
      · cases heq
    simpa [step, Reply.map] using hno
  | drain skips clock =>
    have hno : ∀ (ts : List Transaction) (n : Nat),
        Happening.emitted u ∉ (ts.map Happening.skipped).drop n := by
      intro ts n hu
      obtain ⟨t, -, ht⟩ := List.mem_map.1 (List.mem_of_mem_drop hu)
      cases ht
    simp [happenings, step, Reply.map, hno]
  | takeSkipped => simp [happenings, step, Reply.map]
  | clear => simp [happenings, step, Reply.map, batches]

/-- Without a clear, the history tells all that the batches hold. -/
theorem emitted_mem_history {steps : List Step} (hclear : .clear ∉ steps) {u : Transaction} :
    .emitted u ∈ history limits steps ↔ u ∈ (handedOut limits steps).flatten := by
  induction steps using List.reverseRecOn with
  | nil => simp [history, historyFrom, handedOut, run, batches]
  | append_singleton steps s ih =>
    rw [List.mem_append, not_or] at hclear
    have hs : s ≠ .clear := fun heq => hclear.2 (by simp [heq])
    rw [history_concat hs, handedOut_concat, List.flatten_append, List.mem_append, List.mem_append,
      ih hclear.1, emitted_mem_happenings]

/-- Only a push makes a prewrite happen, the one of its own item. -/
theorem eq_push_of_prewritten {e : Engine} {s : Step} {t : Transaction}
    (hmem : .prewritten t ∈ e.happenings limits s) :
    ∃ skips admitted, s = .push skips admitted (.prewrite t) := by
  cases s with
  | push skips admitted item =>
    obtain ⟨s, -, hs⟩ := List.mem_filterMap.1 hmem
    cases item with
    | prewrite t' =>
      cases hs
      exact ⟨skips, admitted, rfl⟩
    | commit x given =>
      obtain ⟨tso, -, htso⟩ := Option.map_eq_some_iff.1 hs
      cases htso
  | drain skips clock =>
    rcases List.mem_append.1 hmem with hmem | hmem
    · obtain ⟨_, -, heq⟩ := List.mem_map.1 hmem
      cases heq
    · obtain ⟨_, -, heq⟩ := List.mem_map.1 hmem
      cases heq
  | takeSkipped => simp [happenings] at hmem
  | clear => simp [happenings] at hmem

/-- Only a push makes a commit happen, the one of its own item, if it is let in. -/
theorem eq_push_of_committed {e : Engine} {s : Step} {x : Xid} {given : Option Tso} {tso : Tso}
    (hmem : .committed x given tso ∈ e.happenings limits s) :
    ∃ skips, s = .push skips true (.commit x given) := by
  cases s with
  | push skips admitted item =>
    cases item with
    | prewrite t =>
      obtain ⟨s, -, hs⟩ := List.mem_filterMap.1 hmem
      cases hs
    | commit y given' =>
      cases admitted with
      | false =>
        have hqueue : (e.push skips false (.commit y given')).after.queue = e.queue := rfl
        simp [happenings, hqueue] at hmem
      | true =>
        obtain ⟨s, -, hs⟩ := List.mem_filterMap.1 hmem
        obtain ⟨tso', -, htso⟩ := Option.map_eq_some_iff.1 hs
        cases htso
        exact ⟨skips, rfl⟩
  | drain skips clock =>
    rcases List.mem_append.1 hmem with hmem | hmem
    · obtain ⟨_, -, heq⟩ := List.mem_map.1 hmem
      cases heq
    · obtain ⟨_, -, heq⟩ := List.mem_map.1 hmem
      cases heq
  | takeSkipped => simp [happenings] at hmem
  | clear => simp [happenings] at hmem

/-- What has happened in a run has happened with one of its operations. -/
theorem exists_step_of_mem_history {steps : List Step} {a : Happening}
    (ha : a ∈ history limits steps) :
    ∃ before s later, steps = before ++ s :: later ∧
      a ∈ (reached limits before).happenings limits s := by
  induction steps using List.reverseRecOn with
  | nil => cases ha
  | append_singleton steps s ih =>
    by_cases hs : s = .clear
    · rw [hs, history_concat_clear] at ha
      cases ha
    · rw [history_concat hs] at ha
      rcases List.mem_append.1 ha with ha | ha
      · obtain ⟨before, s', later, rfl, hstep⟩ := ih ha
        exact ⟨before, s', later ++ [s], by simp, hstep⟩
      · exact ⟨steps, s, [], rfl, ha⟩

/-- What has been prewritten in a run has been pushed. -/
theorem pushed_of_prewritten {steps : List Step} {t : Transaction}
    (hmem : .prewritten t ∈ history limits steps) :
    ∃ skips admitted, .push skips admitted (.prewrite t) ∈ steps := by
  obtain ⟨before, s, later, rfl, hstep⟩ := exists_step_of_mem_history hmem
  obtain ⟨skips, admitted, rfl⟩ := eq_push_of_prewritten hstep
  exact ⟨skips, admitted, by simp⟩

/-- What has been committed in a run has been pushed, and was let in. -/
theorem pushed_of_committed {steps : List Step} {x : Xid} {given : Option Tso} {tso : Tso}
    (hmem : .committed x given tso ∈ history limits steps) :
    ∃ skips, .push skips true (.commit x given) ∈ steps := by
  obtain ⟨before, s, later, rfl, hstep⟩ := exists_step_of_mem_history hmem
  obtain ⟨skips, rfl⟩ := eq_push_of_committed hstep
  exact ⟨skips, by simp⟩

/-- What a run has answered is the answer of one of its operations. -/
theorem exists_step_of_mem_value {steps : List Step} {answer : Answer}
    (hanswer : answer ∈ (run limits steps .empty).value) :
    ∃ before s later, steps = before ++ s :: later ∧
      answer = ((reached limits before).step limits s).value := by
  induction steps using List.reverseRecOn with
  | nil => cases hanswer
  | append_singleton steps s ih =>
    rw [value_run_concat] at hanswer
    rcases List.mem_append.1 hanswer with hanswer | hanswer
    · obtain ⟨before, s', later, rfl, hstep⟩ := ih hanswer
      exact ⟨before, s', later ++ [s], by simp, hstep⟩
    · exact ⟨steps, s, [], rfl, List.mem_singleton.1 hanswer⟩

/-- A property of history and engine that each operation but a clear keeps holds at the end of every
run: a clear starts over. -/
theorem run_induction {P : List Happening → Engine → Prop} (start : P [] .empty)
    (next : ∀ h e s, s ≠ .clear → P h e →
      P (h ++ e.happenings limits s) (e.step limits s).after)
    (steps : List Step) : P (history limits steps) (reached limits steps) := by
  induction steps using List.reverseRecOn with
  | nil => exact start
  | append_singleton steps s ih =>
    by_cases hs : s = .clear
    · subst hs
      rw [history_concat_clear, reached_concat]
      exact start
    · rw [history_concat hs, reached_concat]
      exact next _ _ s hs ih

end Engine

end ShardMerge
