import ShardMerge.Proofs.Partition
import ShardMerge.Proofs.Progress

/-!
# Registered transactions in the arrival queue

Between operations, every registered transaction still has a signal of its own in the arrival queue:
an open one a prewrite, a ready one the commit that made it ready (`anchored_reached`). For a ready
one this is the work of the drain that takes the commit off the queue: it raises the watermark to
it, so that the same drain hands the transaction out, also if its scan is cut short right there. So
the queue is never shorter than the registry, and with an empty queue nothing is registered.
-/

namespace ShardMerge

namespace Engine

variable {limits : Limits} {e : Engine}

/-- A push leaves the commits of ready transactions in the queue, and adds the one of a transaction
that it makes ready. -/
theorem push_commit_queued (skips : Xid → Bool) (admitted : Bool) (item : Item)
    (hq : ∀ k ∈ e.ready, ⟨.commit, k.xid, some k.tso⟩ ∈ e.queue) :
    ∀ k ∈ (e.push skips admitted item).after.ready,
      ⟨.commit, k.xid, some k.tso⟩ ∈ (e.push skips admitted item).after.queue := by
  intro k hk
  rcases push_cases e skips admitted item with
    ⟨t, first, totals, -, -, hafter⟩ |
    ⟨x, given, t, tso, first, totals, -, -, -, -, hafter⟩ |
    ⟨first, totals, hafter⟩
  · rw [hafter] at hk ⊢
    exact List.mem_append_left _ (hq k hk)
  · rw [hafter] at hk ⊢
    rcases ReadyQueue.mem_push.1 hk with rfl | hk
    · exact List.mem_append_right _ (List.mem_singleton_self _)
    · exact List.mem_append_left _ (hq k hk)
  · rw [hafter] at hk ⊢
    exact hq k hk

/-- At the end of every run, the commits of ready transactions are in the arrival queue. -/
theorem commit_queued_reached (limits : Limits) (steps : List Step) :
    ∀ k ∈ (reached limits steps).ready,
      ⟨.commit, k.xid, some k.tso⟩ ∈ (reached limits steps).queue := by
  induction steps using List.reverseRecOn with
  | nil => intro k hk; cases hk
  | append_singleton steps s ih =>
    cases s with
    | push skips admitted item =>
      rw [reached_concat]
      exact push_commit_queued skips admitted item ih
    | drain skips clock =>
      by_cases hqueue : (reached limits steps).queue = []
      · have hdrain := drain_of_queue_nil limits skips clock hqueue
        rw [reached_concat]
        simpa only [step, Reply.map, hdrain] using ih
      · have hc := consistent_reached limits steps
        have hawaits := awaits_after_drain limits skips clock hc hqueue
        intro k hk
        refine AwaitsWatermark.commit_queued ?_ (mirrors_reached limits _)
          (consistent_reached limits _) (lifeCycle_reached limits _ k.xid) hk
        rw [reached_concat]
        exact hawaits
    | takeSkipped =>
      rw [reached_concat]
      exact ih
    | clear =>
      rw [reached_concat]
      intro k hk
      cases hk

theorem anchored_reached (limits : Limits) (steps : List Step) :
    (reached limits steps).Anchored :=
  ⟨prewrite_queued_reached limits steps, commit_queued_reached limits steps⟩

/-- Each registered transaction has a signal of its own in the queue. -/
theorem Anchored.size_registry_le (ha : e.Anchored) (hp : e.Partitioned) :
    e.registry.size ≤ e.size := by
  have hsub : e.registry.xids ⊆ e.queue.map Signal.xid := by
    intro x hx
    rcases List.mem_append.1 (hp.registered.mem_iff.1 hx) with hx | hx
    · obtain ⟨tso, hmem⟩ := ha.opened x hx
      exact List.mem_map_of_mem hmem
    · obtain ⟨k, hk, rfl⟩ := List.mem_map.1 hx
      exact List.mem_map_of_mem (ha.ready k hk)
  have hle := (hp.registered.nodup_iff.2 hp.distinct).length_le_of_subset hsub
  simpa [Registry.xids, Registry.size, size] using hle

/-- Nothing that is registered is stranded outside the arrival queue, whatever the operations of a
run and the answers to them were: every registered transaction still has a signal there. So the
queue is at least as long as the registry, and a drain that finds it empty withholds nothing. -/
theorem run_strands_nothing (limits : Limits) (steps : List Step) :
    (reached limits steps).Anchored ∧
    (reached limits steps).registry.size ≤ (reached limits steps).size ∧
    ((reached limits steps).isEmpty = true → (reached limits steps).Idle) := by
  have ha := anchored_reached limits steps
  have hc := consistent_reached limits steps
  exact ⟨ha, ha.size_registry_le (hc.partitioned (distinct_reached limits steps)),
    fun hempty => ha.idle hc (List.isEmpty_iff.1 hempty)⟩

/-- A run whose scans are cut short after each signal. -/
def cutRun : List Step :=
  [.push (fun _ => false) true (.prewrite { xid := ⟨"a"⟩ }),
    .push (fun _ => false) true (.commit ⟨"a"⟩ (some (.ofTime 5))),
    .drain (fun _ => false) (fun n => 501 * n.toUInt64),
    .drain (fun _ => false) (fun n => 501 * n.toUInt64)]

theorem cutRun_strands_nothing :
    (reached {} cutRun).isEmpty = true ∧ (reached {} cutRun).Idle :=
  ⟨by decide, (run_strands_nothing {} cutRun).2.2 (by decide)⟩

end Engine

end ShardMerge
