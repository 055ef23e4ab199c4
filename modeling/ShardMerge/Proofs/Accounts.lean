import Mathlib.Algebra.GroupWithZero.Nat
import ShardMerge.Proofs.Audit
import ShardMerge.Proofs.Partition

/-!
# The accounts of an epoch

The counters of an engine reconcile with what it holds and with what it has answered. One balance
carries this: each signal that joined the arrival queue is accounted for by a registered
transaction, by a ready one, by half of one that was handed out, or by one that was skipped
(`Balanced`). Every move keeps it. Which counter goes up is a matter of the operations: a push that
is not refused counts once, as pushed, dropped or discarded, and a drain counts what it hands out.
As long as the counters stay within 64 bits, the snapshot shows them as they are
(`run_reconciles`).
-/

namespace ShardMerge

/-- The transaction that is handed out. -/
@[simp] def Happening.emitted? : Happening → Option Transaction
  | emitted t => some t
  | _ => none

/-- The transactions that have been handed out in a history, in order. -/
def emittedIn (h : List Happening) : List Transaction :=
  h.filterMap Happening.emitted?

@[simp] theorem emittedIn_nil : emittedIn [] = [] :=
  rfl

@[simp] theorem emittedIn_cons (a : Happening) (h : List Happening) :
    emittedIn (a :: h) = a.emitted?.toList ++ emittedIn h := by
  cases a <;> rfl

@[simp] theorem emittedIn_append (h h' : List Happening) :
    emittedIn (h ++ h') = emittedIn h ++ emittedIn h' :=
  List.filterMap_append

@[simp] theorem emittedIn_map_skipped (ts : List Transaction) :
    emittedIn (ts.map .skipped) = [] := by
  rw [emittedIn, List.filterMap_map]
  exact List.filterMap_eq_nil_iff.2 fun _ _ => rfl

@[simp] theorem emittedIn_map_emitted (ts : List Transaction) :
    emittedIn (ts.map .emitted) = ts := by
  rw [emittedIn, List.filterMap_map]
  exact List.filterMap_some

/-- Whether an operation answers that an item was not refused. -/
def Answer.isPushed : Answer → Bool
  | .pushed (.ok ()) => true
  | .pushed (.error _) | .drained _ | .tookSkipped _ | .cleared => false

namespace Registry

theorem size_modify (r : Registry) (x : Xid) (f : Transaction → Transaction) :
    (r.modify x f).size = r.size := by
  have hlength := congrArg List.length (xids_modify r x f)
  simpa [xids, size] using hlength

/-- Erasing what is registered once leaves one entry less. -/
theorem size_erase {r : Registry} {x : Xid} {t : Transaction} (hnodup : r.xids.Nodup)
    (known : r.get? x = some t) : (r.erase x).size + 1 = r.size := by
  have hmem : x ∈ r.xids := mem_xids.2 ⟨t, known⟩
  have hxids : (r.erase x).xids = r.xids.erase x := by
    rw [xids_erase, hnodup.erase_eq_filter]
    refine List.filter_congr fun y _ => ?_
    by_cases hy : y = x
    · simp [hy]
    · simp [hy]
  have hlength := congrArg List.length hxids
  rw [List.length_erase_of_mem hmem] at hlength
  have hpos := List.length_pos_of_mem hmem
  simp only [xids, List.length_map] at hlength hpos
  unfold size
  omega

end Registry

theorem ReadyQueue.size_of_least {q rest : ReadyQueue} {k : ReadyKey}
    (least : q.keys = k :: rest.keys) : q.size = rest.size + 1 := by
  rw [size, least]
  rfl

namespace Engine

variable {limits : Limits} {e e' : Engine} {h : List Happening}

/-! ## The balance -/

/-- Every signal of a history is accounted for: a registered transaction accounts for its prewrite,
a ready one for its commit too, one that was handed out for both, and a skipped one for its
prewrite. -/
def Balanced (h : List Happening) (e : Engine) : Prop :=
  (signals h).length =
    e.registry.size + e.ready.size + 2 * (emittedIn h).length + (skippedIn h).length

/-- Every move keeps the balance. -/
theorem Move.balanced {a : List Happening} (hd : e.Distinct) (hb : Balanced h e)
    (m : Move e a e') : Balanced (h ++ a) e' := by
  unfold Balanced at hb ⊢
  simp only [signals_append, emittedIn_append, skippedIn_append, List.length_append]
  cases m with
  | @prewrite t =>
    have hsize : (e.registry.insert t.xid t).size = e.registry.size + 1 := rfl
    simp [hsize]
    omega
  | commit =>
    simp [Registry.size_modify, ReadyQueue.size_push]
    omega
  | skip head isOpen known =>
    have hsize := Registry.size_erase hd.registered known
    simp
    omega
  | release least releasable known =>
    have hsize := Registry.size_erase hd.registered known
    have hready := ReadyQueue.size_of_least least
    simp
    omega
  | pop => simpa using hb
  | fetch => simpa using hb
  | book => simpa using hb

/-- Every signal is accounted for at the end of every run. -/
theorem balanced_reached (limits : Limits) (steps : List Step) :
    Balanced (history limits steps) (reached limits steps) := by
  refine (run_invariant (P := fun h e => e.Distinct ∧ Balanced h e) ⟨⟨.nil, .nil⟩, rfl⟩ ?_ limits
    steps).2
  intro h e a e' hc hP m
  exact ⟨m.distinct hc hP.1, m.balanced hP.1 hP.2⟩

/-- The open and the ready transactions are the registered ones. -/
theorem Partitioned.size_registry (hp : e.Partitioned) :
    e.registry.size = e.pending.length + e.ready.size := by
  have hlength := hp.registered.length_eq
  simpa [Registry.xids, Registry.size, ReadyQueue.size] using hlength

/-! ## The counters -/

/-- An operation hands out what it makes happen as handed out, in the same order. -/
theorem emittedIn_happenings (limits : Limits) (e : Engine) (s : Step) :
    emittedIn (e.happenings limits s) = (batches [(e.step limits s).value]).flatten := by
  cases s with
  | push skips admitted item =>
    exact filterMap_happenings_push (fun _ => rfl) (fun _ _ _ => rfl) skips admitted item e
  | drain skips clock =>
    simp only [happenings, emittedIn_append, emittedIn_map_skipped, emittedIn_map_emitted]
    simp [step, Reply.map]
  | takeSkipped => rfl
  | clear => rfl

/-- The history of an epoch tells all that its batches hold, in the same order. -/
theorem emittedIn_history (limits : Limits) (steps : List Step) :
    emittedIn (history limits steps) = (batches (recentAnswers limits steps)).flatten := by
  rw [← (history_epoch limits steps).1, recentAnswers_eq]
  refine epoch_induction (P := fun steps =>
    emittedIn (history limits steps) = (handedOut limits steps).flatten) rfl ?_ steps
  intro steps s hs heq
  rw [history_concat hs, handedOut_concat, emittedIn_append, List.flatten_append, heq,
    emittedIn_happenings]

/-- A drain counts what it hands out, and nothing else does. -/
theorem emitted_step {s : Step} (hs : s ≠ .clear) (e : Engine) :
    (e.step limits s).after.totals.emitted =
      e.totals.emitted + (emittedIn (e.happenings limits s)).length := by
  rw [emittedIn_happenings]
  cases s with
  | push skips admitted item => exact (totals_push skips admitted item e).2.1
  | drain skips clock =>
    obtain ⟨skipped, htotals⟩ := totals_drain limits skips clock e
    simp [step, Reply.map, htotals]
  | takeSkipped => rfl
  | clear => exact absurd rfl hs

/-- What has been handed out is counted. -/
theorem emitted_reached (limits : Limits) (steps : List Step) :
    (reached limits steps).totals.emitted = (emittedIn (history limits steps)).length := by
  refine run_induction (P := fun h e => e.totals.emitted = (emittedIn h).length) rfl ?_ steps
  intro h e s hs hcount
  rw [emitted_step hs, emittedIn_append, List.length_append, hcount]

/-- What has been skipped is counted. -/
theorem skipped_reached (limits : Limits) (steps : List Step) :
    (reached limits steps).totals.skipped = (skippedIn (history limits steps)).length := by
  have hcount := (trail_epoch limits steps).counted
  rwa [(history_epoch limits steps).1, (history_epoch limits steps).2] at hcount

/-- An operation counts once as pushed, dropped or discarded if it takes in an item. -/
theorem settled_step {s : Step} (hs : s ≠ .clear) (e : Engine) :
    (e.step limits s).after.totals.pushed + (e.step limits s).after.totals.droppedCommits +
        (e.step limits s).after.totals.discardedCommits =
      e.totals.pushed + e.totals.droppedCommits + e.totals.discardedCommits +
        [(e.step limits s).value].countP Answer.isPushed := by
  cases s with
  | push skips admitted item =>
    have hcount := (totals_push skips admitted item e).1
    have hvalue : [(e.step limits (.push skips admitted item)).value].countP Answer.isPushed =
        (e.push skips admitted item).value.isOk.toNat := by
      show [Answer.pushed (e.push skips admitted item).value].countP Answer.isPushed = _
      cases (e.push skips admitted item).value with
      | ok => rfl
      | error => rfl
    rw [hvalue]
    exact hcount
  | drain skips clock =>
    obtain ⟨skipped, htotals⟩ := totals_drain limits skips clock e
    simp [step, Reply.map, htotals, Answer.isPushed]
  | takeSkipped => rfl
  | clear => exact absurd rfl hs

/-- The items that an epoch has taken in are counted. -/
theorem settled_reached (limits : Limits) (steps : List Step) :
    (reached limits steps).totals.pushed + (reached limits steps).totals.droppedCommits +
        (reached limits steps).totals.discardedCommits =
      (recentAnswers limits steps).countP Answer.isPushed := by
  rw [← (history_epoch limits steps).2, recentAnswers_eq]
  refine epoch_induction (P := fun steps =>
    (reached limits steps).totals.pushed + (reached limits steps).totals.droppedCommits +
        (reached limits steps).totals.discardedCommits =
      (run limits steps .empty).value.countP Answer.isPushed) rfl ?_ steps
  intro steps s hs hcount
  rw [reached_concat, value_run_concat, List.countP_append, settled_step hs, hcount]

/-- The contents and the counters of an engine reconcile with each other, and with what
operations have answered and made happen since the last clear. -/
structure Reconciles (limits : Limits) (steps : List Step) : Prop where
  registered : (reached limits steps).registry.size =
    (reached limits steps).pending.length + (reached limits steps).ready.size
  pushed : (reached limits steps).totals.pushed =
    (reached limits steps).registry.size + (reached limits steps).ready.size +
      2 * (reached limits steps).totals.emitted + (reached limits steps).totals.skipped
  emitted : (reached limits steps).totals.emitted =
    ((batches (recentAnswers limits steps)).map List.length).sum
  skipped : (reached limits steps).totals.skipped = (skippedIn (history limits steps)).length
  settled : (reached limits steps).totals.pushed + (reached limits steps).totals.droppedCommits +
      (reached limits steps).totals.discardedCommits =
    (recentAnswers limits steps).countP Answer.isPushed

theorem reconciles_reached (limits : Limits) (steps : List Step) : Reconciles limits steps where
  registered :=
    ((consistent_reached limits steps).partitioned (distinct_reached limits steps)).size_registry
  pushed := by
    have hbalanced := balanced_reached limits steps
    rw [pushed_reached, emitted_reached, skipped_reached]
    exact hbalanced
  emitted := by rw [emitted_reached, emittedIn_history, List.length_flatten]
  skipped := skipped_reached limits steps
  settled := settled_reached limits steps

/-! ## The snapshot -/

/-- A snapshot shows the sizes and the counters as they are. -/
structure Shown (e : Engine) : Prop where
  queuedItems : e.stats.queuedItems.toNat = e.queue.length
  pending : e.stats.pending.toNat = e.pending.length
  registered : e.stats.registered.toNat = e.registry.size
  ready : e.stats.ready.toNat = e.ready.size
  totalPushed : e.stats.totalPushed.toNat = e.totals.pushed
  totalEmitted : e.stats.totalEmitted.toNat = e.totals.emitted
  totalSkipped : e.stats.totalSkipped.toNat = e.totals.skipped
  totalDroppedCommits : e.stats.totalDroppedCommits.toNat = e.totals.droppedCommits
  totalDiscardedCommits : e.stats.totalDiscardedCommits.toNat = e.totals.discardedCommits

/-- What is queued has been pushed. -/
theorem length_queue_le (limits : Limits) (steps : List Step) :
    (reached limits steps).queue.length ≤ (reached limits steps).totals.pushed := by
  rw [pushed_reached, ← journal_eq_signals, (journal_eq limits steps).1, List.length_append]
  omega

theorem shown_reached (limits : Limits) (steps : List Step)
    (hpushed : (reached limits steps).totals.pushed < UInt64.size)
    (hdropped : (reached limits steps).totals.droppedCommits < UInt64.size)
    (hdiscarded : (reached limits steps).totals.discardedCommits < UInt64.size) :
    (reached limits steps).Shown := by
  have hr := reconciles_reached limits steps
  have hqueue := length_queue_le limits steps
  have hregistered := hr.registered
  have hbalance := hr.pushed
  have hshow : ∀ n < UInt64.size, n.toUInt64.toNat = n := fun n hn =>
    UInt64.toNat_ofNat_of_lt' hn
  refine ⟨?_, ?_, ?_, ?_, ?_, ?_, ?_, ?_, ?_⟩
  all_goals apply hshow
  all_goals omega

/-- At the end of every run, the registered transactions are the open and the ready ones, each
pushed signal is accounted for by them, by what was handed out and by what was skipped, and each
item that was taken in is counted once. As long as the counters of the items stay within 64 bits,
the snapshot shows all these numbers as they are. -/
theorem run_reconciles (limits : Limits) (steps : List Step) :
    Reconciles limits steps ∧
      ((reached limits steps).totals.pushed < UInt64.size →
        (reached limits steps).totals.droppedCommits < UInt64.size →
        (reached limits steps).totals.discardedCommits < UInt64.size →
        (reached limits steps).Shown) :=
  ⟨reconciles_reached limits steps, shown_reached limits steps⟩

/-- A run that clears a ready transaction away, and then queues three signals, refuses one commit,
drops one and discards one, and skips the open transaction and hands out the committed one. -/
def accountedRun : List Step :=
  [.push (fun _ => false) true (.prewrite { xid := ⟨"a"⟩, tso := some (.ofTime 4) }),
    .push (fun _ => false) true (.commit ⟨"a"⟩ none),
    .clear,
    .push (fun _ => false) true (.prewrite { xid := ⟨"a"⟩ }),
    .push (fun _ => false) true (.prewrite { xid := ⟨"b"⟩ }),
    .push (fun _ => false) true (.commit ⟨"b"⟩ none),
    .push (fun _ => false) true (.commit ⟨"b"⟩ (some (.ofTime 7))),
    .push (· = ⟨"c"⟩) true (.commit ⟨"c"⟩ none),
    .push (fun _ => false) false (.commit ⟨"a"⟩ none),
    .drain (· = ⟨"a"⟩) (fun _ => 0)]

theorem accountedRun_reconciles :
    Reconciles ⟨0, 500⟩ accountedRun ∧ (reached ⟨0, 500⟩ accountedRun).Shown ∧
      (reached ⟨0, 500⟩ accountedRun).totals = ⟨3, 1, 1, 1, 1⟩ :=
  ⟨(run_reconciles ⟨0, 500⟩ accountedRun).1,
    (run_reconciles ⟨0, 500⟩ accountedRun).2 (by decide) (by decide) (by decide), by decide⟩

end Engine

end ShardMerge
