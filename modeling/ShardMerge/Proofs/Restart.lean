import ShardMerge.Proofs.Journal
import ShardMerge.Proofs.Payloads
import ShardMerge.Proofs.Refusals
import ShardMerge.Proofs.Regression

/-!
# Restarts

A clear empties or resets every part of the engine and leaves the parties around it as they are, so
a sorter goes on like one that is newly built with these parties: whatever is done afterwards, both
answer, report and ask the same, and both are the same in the end (`run_restarts`). What a sorter
knows after a clear has therefore come in after it (`KnowsOnly`).
-/

namespace ShardMerge

namespace Engine

variable {limits : Limits} {steps : List Step} {e : Engine}

/-! ## Where it comes from -/

/-- What is registered has been pushed. -/
theorem pushed_of_registered {x : Xid} {t : Transaction}
    (hknown : (reached limits steps).transaction? x = some t) :
    ∃ t skips admitted, .push skips admitted (.prewrite t) ∈ steps ∧ t.xid = x := by
  obtain ⟨t', hmem, own⟩ := (lifeCycle_reached limits steps x).prewritten_of_registered hknown
  obtain ⟨skips, admitted, hpush⟩ := pushed_of_prewritten hmem
  exact ⟨t', skips, admitted, hpush, own⟩

/-- The watermark is the timestamp of a commit that has been pushed, or of its prewrite. -/
theorem pushed_of_watermark {mark : Tso} (hmark : (reached limits steps).watermark = some mark) :
    ∃ t given, (∃ skips admitted, .push skips admitted (.prewrite t) ∈ steps) ∧
      (∃ skips, .push skips true (.commit t.xid given) ∈ steps) ∧
      given.or t.tso = some mark := by
  rw [(journal_eq limits steps).2] at hmark
  obtain ⟨x, given, hcommitted⟩ := committed_of_mem_taken (List.max?_mem hmark)
  obtain ⟨t, hprewritten, rfl, htimed⟩ := (lifeCycle_reached limits steps x).timed hcommitted
  exact ⟨t, given, pushed_of_prewritten hprewritten, pushed_of_committed hcommitted, htimed⟩

/-- The last key that was handed out is the one of a transaction in a batch. -/
theorem drained_of_lastEmitted {key : ReadyKey}
    (hlast : (reached limits steps).lastEmitted = some key) :
    ∃ batch u, .drained batch ∈ (run limits steps .empty).value ∧ u ∈ batch ∧
      u.key? = some key := by
  -- the key stands for the batches since the last clear, whose answers are the end of the run's
  obtain ⟨before, -, -, hvalue, -⟩ := run_eq_epoch limits steps
  rw [← (history_epoch limits steps).2, (supervised_epoch limits steps).last,
    lastKey_flatten_eq_some_iff] at hlast
  obtain ⟨earlier, batch, empties, u, hbatches, -, hu, hkey⟩ := hlast
  have hbatch : .drained batch ∈ (run limits (epoch steps) .empty).value := by
    rw [← mem_batches, ← handedOut, hbatches]
    simp
  rw [hvalue]
  exact ⟨batch, u, List.mem_append_right _ hbatch, List.mem_of_getLast? hu, hkey⟩

/-- What waits to be fetched is what is left of a prewrite that has been pushed. -/
theorem pushed_of_skipped {u : Transaction} (hu : u ∈ (reached limits steps).skipped) :
    ∃ t skips admitted, .push skips admitted (.prewrite t) ∈ steps ∧ u = t.release := by
  rw [(fetches_reached limits steps).waiting] at hu
  obtain ⟨t, heq, hfollows⟩ := (lifeCycle_reached limits steps u.xid).skipped_follows
    (skipped_of_mem_unfetched hu)
  have hmem : .prewritten t ∈ history limits steps :=
    (mem_lifeOf.1 (hfollows.subset List.mem_cons_self)).1
  obtain ⟨skips, admitted, hpush⟩ := pushed_of_prewritten hmem
  exact ⟨t, skips, admitted, hpush, heq⟩

/-! ## The first item of an epoch -/

/-- A drain is not about what came in first. -/
theorem firstReceived_drain (limits : Limits) (skips : Xid → Bool) (clock : Nat → UInt64)
    (e : Engine) : (e.drain limits skips clock).after.firstReceived = e.firstReceived := by
  by_cases hqueue : e.queue = []
  · rw [drain_of_queue_nil limits skips clock hqueue]
  · rw [after_drain limits skips clock hqueue]
    show (e.skipStuckHead limits skips).after.firstReceived = e.firstReceived
    rcases skipStuckHead_cases limits skips e with ⟨x, hx, heq⟩ | ⟨heq, -⟩
    · rw [heq, setAside, if_pos hx.isOpen]
    · rw [heq]

/-- As long as every item is refused, none is the first. -/
theorem firstReceived_reached (hnone : .pushed (.ok ()) ∉ (run limits steps .empty).value) :
    (reached limits steps).firstReceived = none := by
  induction steps using List.reverseRecOn with
  | nil => rfl
  | append_singleton steps s ih =>
    rw [value_run_concat, List.mem_append, not_or, List.mem_singleton] at hnone
    have hbefore := ih hnone.1
    rw [reached_concat]
    cases s with
    | push skips admitted item =>
      cases hvalue : ((reached limits steps).push skips admitted item).value with
      | error refusal =>
        have hafter := (push_of_error hvalue).1
        simpa [step, Reply.map, hafter] using hbefore
      | ok => exact absurd (congrArg Answer.pushed hvalue.symm) hnone.2
    | drain skips clock => exact (firstReceived_drain limits skips clock _).trans hbefore
    | takeSkipped => exact hbefore
    | clear => rfl

/-- A commit without a prewrite goes through if the skip policy excuses it, and is refused if not;
the policy is asked in any case. -/
theorem push_commit_of_unregistered {skips : Xid → Bool} {x : Xid} (given : Option Tso)
    (unknown : e.transaction? x = none) :
    e.push skips true (.commit x given) =
      if skips x then
        ⟨.ok (), (e.remember (.commit x given)).book (.dropped x),
          e.pushEvents (.commit x given) (.dropped x), [.skip x]⟩
      else ⟨.error (.unmatchedCommit x), e, [], [.skip x]⟩ := by
  have hget : e.registry.get? x = none := unknown
  have hasks : e.asksPolicy true (.commit x given) = true := by
    simp [asksPolicy, Registry.contains, hget]
  unfold push
  rw [hasks]
  cases hskips : skips x <;> simp [settle, resolve, hget, hskips, Item.xid]

/-- The first item that is not refused is reported as such, and kept. -/
theorem push_of_first {skips : Xid → Bool} {admitted : Bool} {item : Item}
    (hfirst : e.firstReceived = none) (hok : (e.push skips admitted item).value = .ok ()) :
    .firstReceived item.signal ∈ (e.push skips admitted item).events ∧
      (e.push skips admitted item).after.firstReceived = some item.signal := by
  rcases settle_cases skips admitted item e with
    ⟨refusal, h⟩ | ⟨t, -, -, h⟩ | ⟨x, given, t, tso, -, -, -, -, -, h⟩ | ⟨x, h⟩ | h
  · simp [push, h] at hok
  · simp [push, h, pushEvents, book, remember, hfirst]
  · simp [push, h, pushEvents, book, remember, hfirst]
  · simp [push, h, pushEvents, book, remember, hfirst]
  · simp [push, h, pushEvents, book, remember, hfirst]

end Engine

namespace Sorter

variable {σ : Type} [Admission σ]

/-! ## Pushes -/

/-- An admitted commit of what is not registered is unmatched: it is excused or refused. -/
theorem push_commit_of_unregistered {s : Sorter σ} {x : Xid} (given : Option Tso)
    (hunknown : s.engine.transaction? x = none)
    (hadmitted : (Admission.judge s.strategy x).admitted = true) :
    if s.policy.skips x then
      (s.push (.commit x given)).value = .ok () ∧
        .commitExcused x ∈ (s.push (.commit x given)).events
    else (s.push (.commit x given)).value = .error (.unmatchedCommit x) := by
  obtain ⟨hpush, -, hevents⟩ := s.push_eq_push_engine (.commit x given)
  have hadmits : s.admits (.commit x given) = true := hadmitted
  rw [hpush, hevents, hadmits, Engine.push_commit_of_unregistered given hunknown]
  split
  next => exact ⟨rfl, List.mem_append_right _ (List.mem_append_left _ List.mem_cons_self)⟩
  next => rfl

theorem push_of_first {s : Sorter σ} {item : Item} (hfirst : s.engine.firstReceived = none)
    (hok : (s.push item).value = .ok ()) :
    .firstReceived item.signal ∈ (s.push item).events ∧
      (s.push item).after.engine.firstReceived = some item.signal := by
  obtain ⟨hpush, hafter, hevents⟩ := s.push_eq_push_engine item
  rw [hpush] at hok
  obtain ⟨hreported, hkept⟩ := Engine.push_of_first hfirst hok
  rw [hafter, hevents]
  exact ⟨List.mem_append_right _ hreported, hkept⟩

/-! ## Runs -/

section Runs

variable {calls : List (Call σ)} {s : Sorter σ} (hempty : s.engine = .empty)

include hempty

/-- What is registered has been pushed. -/
theorem pushed_of_registered {x : Xid} {t : Transaction}
    (hknown : (run calls s).after.engine.transaction? x = some t) :
    ∃ t, .push (.prewrite t) ∈ calls ∧ t.xid = x := by
  rw [engine_run_eq_reached calls hempty] at hknown
  obtain ⟨t', skips, admitted, hpush, own⟩ := Engine.pushed_of_registered hknown
  exact ⟨t', push_mem_of_engineSteps hpush, own⟩

/-- What has not been pushed is not registered. -/
theorem unregistered_of_unpushed {x : Xid}
    (hfresh : ∀ t, .push (.prewrite t) ∈ calls → t.xid ≠ x) :
    (run calls s).after.engine.transaction? x = none := by
  refine Option.eq_none_iff_forall_ne_some.2 fun t hknown => ?_
  obtain ⟨t', hpush, own⟩ := pushed_of_registered hempty hknown
  exact hfresh t' hpush own

/-- The last key that was handed out is the one of a transaction in a batch. -/
theorem drained_of_lastEmitted {key : ReadyKey}
    (hlast : (run calls s).after.engine.lastEmitted = some key) :
    ∃ batch u, some (.drained batch) ∈ (run calls s).value ∧ u ∈ batch ∧ u.key? = some key := by
  rw [engine_run_eq_reached calls hempty] at hlast
  obtain ⟨batch, u, hbatch, hu⟩ := Engine.drained_of_lastEmitted hlast
  refine ⟨batch, u, ?_, hu⟩
  rw [mem_value_run, hempty]
  exact hbatch

/-- A drain reports no other key than the last one that was handed out. -/
theorem lastEmitted_of_regressed {last : Option ReadyKey}
    (hmem : .regressed last ∈ (run calls s).after.drain.events) :
    ∃ key, last = some key ∧ (run calls s).after.engine.lastEmitted = some key := by
  have hc : (run calls s).after.engine.Consistent := by
    rw [engine_run_eq_reached calls hempty]
    exact Engine.consistent_reached s.limits _
  obtain ⟨rfl, hunordered⟩ := (Engine.regressed_mem_step_iff hc (.drain _ _)).1 hmem
  obtain ⟨key, -, hkey, -⟩ :=
    (emissionOrdered_eq_false_iff (Engine.batchOf_ordered hc (.drain _ _)).1).1 hunordered
  exact ⟨key, hkey, hkey⟩

/-- As long as every item is refused, none is the first. -/
theorem firstReceived_run (hnone : some (.pushed (.ok ())) ∉ (run calls s).value) :
    (run calls s).after.engine.firstReceived = none := by
  rw [mem_value_run, hempty] at hnone
  rw [engine_run_eq_reached calls hempty]
  exact Engine.firstReceived_reached hnone

end Runs

/-- What a sorter knows at the end of some calls has come in with them. -/
structure KnowsOnly (calls : List (Call σ)) (r : Reply (Sorter σ) (List (Option Answer))) :
    Prop where
  registered : ∀ x t, r.after.engine.transaction? x = some t →
    ∃ t, .push (.prewrite t) ∈ calls ∧ t.xid = x
  /-- What was not prewritten in these calls may be prewritten. -/
  prewrite : ∀ t, (∀ t', .push (.prewrite t') ∈ calls → t'.xid ≠ t.xid) →
    (r.after.push (.prewrite t)).value = .ok ()
  /-- A commit of what was not prewritten in these calls is unmatched. -/
  commit : ∀ x given, (∀ t, .push (.prewrite t) ∈ calls → t.xid ≠ x) →
    (Admission.judge r.after.strategy x).admitted = true →
      if r.after.policy.skips x then
        (r.after.push (.commit x given)).value = .ok () ∧
          .commitExcused x ∈ (r.after.push (.commit x given)).events
      else (r.after.push (.commit x given)).value = .error (.unmatchedCommit x)
  watermark : ∀ mark, r.after.engine.watermark = some mark →
    ∃ t given, .push (.prewrite t) ∈ calls ∧ .push (.commit t.xid given) ∈ calls ∧
      given.or t.tso = some mark
  lastEmitted : ∀ key, r.after.engine.lastEmitted = some key →
    ∃ batch u, some (.drained batch) ∈ r.value ∧ u ∈ batch ∧ u.key? = some key
  /-- A drain compares its batch only with the end of a batch of these calls. -/
  regressed : ∀ last, .regressed last ∈ r.after.drain.events →
    ∃ key batch u, last = some key ∧ some (.drained batch) ∈ r.value ∧ u ∈ batch ∧
      u.key? = some key
  skipped : ∀ u ∈ r.after.takeSkipped.value,
    ∃ t, .push (.prewrite t) ∈ calls ∧ u = t.release
  /-- If all items of these calls were refused, the next one that is not is the first. -/
  first : some (.pushed (.ok ())) ∉ r.value → ∀ item, (r.after.push item).value = .ok () →
    .firstReceived item.signal ∈ (r.after.push item).events ∧
      (r.after.push item).after.engine.firstReceived = some item.signal

/-- A sorter that starts empty knows only what has come in. -/
theorem knowsOnly_run (calls : List (Call σ)) {s : Sorter σ} (hempty : s.engine = .empty) :
    KnowsOnly calls (run calls s) where
  registered _ _ := pushed_of_registered hempty
  prewrite t hfresh :=
    (Engine.push_prewrite _ true (unregistered_of_unpushed hempty hfresh)).1
  commit x given hfresh :=
    push_commit_of_unregistered given (unregistered_of_unpushed hempty hfresh)
  watermark mark hmark := by
    rw [engine_run_eq_reached calls hempty] at hmark
    obtain ⟨t, given, ⟨_, _, hprewrite⟩, ⟨_, hcommit⟩, htimed⟩ := Engine.pushed_of_watermark hmark
    exact ⟨t, given, push_mem_of_engineSteps hprewrite, push_mem_of_engineSteps hcommit, htimed⟩
  lastEmitted _ := drained_of_lastEmitted hempty
  regressed last hmem := by
    obtain ⟨key, rfl, hlast⟩ := lastEmitted_of_regressed hempty hmem
    obtain ⟨batch, u, hbatch⟩ := drained_of_lastEmitted hempty hlast
    exact ⟨key, batch, u, rfl, hbatch⟩
  skipped u hu := by
    have hwaiting : u ∈ (run calls s).after.engine.skipped := hu
    rw [engine_run_eq_reached calls hempty] at hwaiting
    obtain ⟨t, _, _, hpush, hleft⟩ := Engine.pushed_of_skipped hwaiting
    exact ⟨t, push_mem_of_engineSteps hpush, hleft⟩
  first hnone _ := push_of_first (firstReceived_run hempty hnone)

/-! ## Clearing -/

/-- A newly built sorter with the same limits, and with the parties as they are now. -/
def renewed (s : Sorter σ) : Sorter σ where
  limits := s.limits
  policy := s.policy
  strategy := s.strategy
  clock := s.clock

omit [Admission σ] in
theorem after_clear (s : Sorter σ) : s.clear.after = s.renewed := by
  show { s with engine := s.engine.clear.after } = s.renewed
  rw [s.engine.after_clear]
  rfl

/-- Calls are answered one after the other. -/
theorem run_append (calls calls' : List (Call σ)) (s : Sorter σ) :
    run (calls ++ calls') s =
      (run calls s).andThen fun answers s => (run calls' s).map (answers ++ ·) := by
  induction calls generalizing s with
  | nil => rfl
  | cons c calls ih =>
    simp only [List.cons_append, run, ih]
    simp [Reply.andThen, Reply.map]

/-- A sorter that was cleared goes on like a newly built one: whatever is called afterwards, it
answers, reports and asks the same, and the two end up the same, so that they show the same. What it
knows then has come in since it was cleared. -/
theorem run_restarts (before later : List (Call σ)) (s : Sorter σ) :
    run later (run before s).after.clear.after = run later (run before s).after.renewed ∧
    (run (before ++ .clear :: later) s =
      (run before s).andThen fun answers s =>
        s.clear.andThen fun _ _ => (run later s.renewed).map (answers ++ some .cleared :: ·)) ∧
    KnowsOnly later (run later (run before s).after.clear.after) := by
  have hclear := after_clear (run before s).after
  refine ⟨by rw [hclear], ?_, knowsOnly_run later rfl⟩
  rw [run_append]
  rfl

/-- A sorter that skips one transaction if it ever stands at the head of the queue. -/
def listingSorter : Sorter Strategy where
  limits := ⟨0, 500⟩
  policy := .listed (.ofList [⟨"c"⟩])
  strategy := .all
  clock := .still

/-- Calls that hand out one transaction, skip another one and leave a third one open. -/
def crowdingCalls : List (Call Strategy) :=
  [.push (.prewrite { xid := ⟨"a"⟩, tso := some (.ofTime 5) }), .push (.commit ⟨"a"⟩ none), .drain,
    .push (.prewrite { xid := ⟨"c"⟩ }), .drain, .push (.prewrite { xid := ⟨"b"⟩ })]

/-- The sorter after these calls. -/
def crowdedSorter : Sorter Strategy :=
  (run crowdingCalls listingSorter).after

theorem crowdedSorter_restarts :
    (crowdedSorter.engine.watermark = some (.ofTime 5) ∧
      crowdedSorter.engine.lastEmitted = some ⟨.ofTime 5, ⟨"a"⟩⟩ ∧
      crowdedSorter.engine.skipped = [Transaction.release { xid := ⟨"c"⟩ }] ∧
      (crowdedSorter.push (.prewrite { xid := ⟨"b"⟩ })).value =
        .error (.duplicatePrewrite ⟨"b"⟩) ∧
      (crowdedSorter.push (.commit ⟨"b"⟩ none)).value = .error (.missingTso ⟨"b"⟩)) ∧
    (crowdedSorter.clear.after.push (.prewrite { xid := ⟨"b"⟩ })).value = .ok () ∧
    .firstReceived ⟨.prewrite, ⟨"b"⟩, none⟩ ∈
      (crowdedSorter.clear.after.push (.prewrite { xid := ⟨"b"⟩ })).events ∧
    (crowdedSorter.clear.after.push (.commit ⟨"b"⟩ none)).value =
      .error (.unmatchedCommit ⟨"b"⟩) ∧
    .commitExcused ⟨"c"⟩ ∈ (crowdedSorter.clear.after.push (.commit ⟨"c"⟩ none)).events := by
  have hknows := (run_restarts crowdingCalls [] listingSorter).2.2
  have hprewrite := hknows.prewrite { xid := ⟨"b"⟩ } (fun _ hmem => absurd hmem List.not_mem_nil)
  have hfirst := hknows.first List.not_mem_nil (.prewrite { xid := ⟨"b"⟩ }) hprewrite
  have hcommit := fun x =>
    hknows.commit x none (fun _ hmem => absurd hmem List.not_mem_nil) rfl
  exact ⟨⟨by rfl, by rfl, by rfl, by rfl, by rfl⟩, hprewrite, hfirst.1, hcommit ⟨"b"⟩,
    (hcommit ⟨"c"⟩).2⟩

end Sorter

end ShardMerge
