import ShardMerge.Proofs.EmissionOrder
import ShardMerge.Proofs.LifeCycle
import ShardMerge.Proofs.Scan

/-!
# Progress

A drain takes at least one signal off the arrival queue unless the head is an open prewrite that it
does not skip (`size_drain_lt`), however short the time of its scan is. Nothing is stranded behind a
scan that ends early: an open transaction still has its prewrite in the arrival queue, and one above
the watermark its commit (`AwaitsWatermark.commit_queued`). So at the end of a causal epoch an
engine whose queue is empty is empty altogether (`idle_reached`).
-/

namespace ShardMerge

namespace Engine

variable {limits : Limits} {e : Engine} {h : List Happening} {skips : Xid → Bool}
  {clock : Nat → UInt64}

/-! ## Shorter queues -/

/-- A drain takes the head off the arrival queue unless it is an open prewrite that is not skipped.
-/
theorem queue_drain_suffix (limits : Limits) (skips : Xid → Bool) (clock : Nat → UInt64)
    {s : Signal} {rest : List Signal} (head : e.queue = s :: rest)
    (hskip : s.kind = .prewrite → s.xid ∈ e.pending → SkipsHead limits skips e s.xid) :
    (e.drain limits skips clock).after.queue <:+ rest := by
  have hresolved : (e.skipStuckHead limits skips).after.queue = s :: rest ∧
      ¬ (s.kind = .prewrite ∧ s.xid ∈ (e.skipStuckHead limits skips).after.pending) := by
    rcases skipStuckHead_cases limits skips e with ⟨x, hx, heq⟩ | ⟨heq, hno⟩
    · obtain ⟨tso, rest', hqueue⟩ := hx.head
      cases head.symm.trans hqueue
      rw [heq]
      exact ⟨(queue_setAside _ e).trans head, fun h => not_mem_pending_setAside _ e h.2⟩
    · rw [heq]
      exact ⟨head, fun h => hno _ (hskip h.1 h.2)⟩
  have hsuffix : (e.scanned limits skips clock).queue <:+ rest := by
    simp only [scanned, scan, hresolved.1]
    exact Scan.remaining_suffix_rest rest _ _ hresolved.2
  rw [after_drain limits skips clock (by simp [head])]
  exact hsuffix

/-- So it shortens the queue. -/
theorem size_drain_lt (limits : Limits) (skips : Xid → Bool) (clock : Nat → UInt64) {s : Signal}
    {rest : List Signal} (head : e.queue = s :: rest)
    (hskip : s.kind = .prewrite → s.xid ∈ e.pending → SkipsHead limits skips e s.xid) :
    (e.drain limits skips clock).after.size < e.size := by
  have hle := (queue_drain_suffix limits skips clock head hskip).length_le
  simp only [size, head, List.length_cons]
  omega

/-! ## Nothing is stranded -/

/-- The commit of a ready transaction is in the history. -/
theorem LifeCycle.committed_of_ready {k : ReadyKey} (hl : LifeCycle k.xid h e) (hc : e.Consistent)
    (hk : k ∈ e.ready) : ∃ given, .committed k.xid given k.tso ∈ h := by
  obtain ⟨t, hknown, htso⟩ := hc.ready_known hk
  obtain ⟨past, now, hlife, -, hnow⟩ := hl
  obtain ⟨t', given, tso, -, -, rfl, rfl⟩ := hnow.eq_committed hc hk hknown
  cases (Option.some.inj htso : tso = k.tso)
  have hmem : .committed k.xid given k.tso ∈ lifeOf k.xid h := by simp [hlife]
  exact ⟨given, (mem_lifeOf.1 hmem).1⟩

/-- The commit of a transaction above the watermark is still in the arrival queue: a scan would
have raised the watermark to it. -/
theorem AwaitsWatermark.commit_queued (ha : e.AwaitsWatermark) (hm : Mirrors h e)
    (hc : e.Consistent) {k : ReadyKey} (hl : LifeCycle k.xid h e) (hk : k ∈ e.ready) :
    ⟨.commit, k.xid, some k.tso⟩ ∈ e.queue := by
  obtain ⟨given, hmem⟩ := hl.committed_of_ready hc hk
  obtain ⟨scanned, hsignals, hmark⟩ := hm
  have hsignal : ⟨.commit, k.xid, some k.tso⟩ ∈ signals h := mem_signals.2 ⟨_, hmem, rfl⟩
  rw [hsignals] at hsignal
  rcases List.mem_append.1 hsignal with hscanned | hqueued
  · have hle := le_highest hscanned
    rw [← hmark] at hle
    exact absurd hle (Tso.lt_some_iff.1 (ha k hk))
  · exact hqueued

/-- Every open transaction has a prewrite in the arrival queue, and every ready one its commit. -/
structure Anchored (e : Engine) : Prop where
  opened : ∀ x ∈ e.pending, ∃ tso, ⟨.prewrite, x, tso⟩ ∈ e.queue
  ready : ∀ k ∈ e.ready, ⟨.commit, k.xid, some k.tso⟩ ∈ e.queue

/-- No transaction is open, ready or registered. -/
structure Idle (e : Engine) : Prop where
  pending : e.pending = []
  ready : e.ready.keys = []
  registered : e.registry.entries = []

/-- With an empty queue, there is no signal for anything open, ready or registered. -/
theorem Anchored.idle (ha : e.Anchored) (hc : e.Consistent) (hqueue : e.queue = []) : e.Idle := by
  have hpending : ∀ x, x ∉ e.pending := by
    intro x hx
    obtain ⟨tso, hmem⟩ := ha.opened x hx
    simp [hqueue] at hmem
  have hready : ∀ k, k ∉ e.ready := by
    intro k hk
    have hmem := ha.ready k hk
    simp [hqueue] at hmem
  refine ⟨List.eq_nil_iff_forall_not_mem.2 hpending, List.eq_nil_iff_forall_not_mem.2 hready, ?_⟩
  cases hentries : e.registry.entries with
  | nil => rfl
  | cons entry entries =>
    have hknown : e.registry.get? entry.1 = some entry.2 := by
      simp [Registry.get?, hentries]
    rcases hc.open_or_ready hknown with hopen | ⟨k, hk, -⟩
    · exact absurd hopen (hpending _)
    · exact absurd hk (hready k)

/-- At the end of every run, the prewrites of open transactions are in the arrival queue. -/
theorem prewrite_queued_reached (limits : Limits) (steps : List Step) :
    ∀ x ∈ (reached limits steps).pending,
      ∃ tso, ⟨.prewrite, x, tso⟩ ∈ (reached limits steps).queue := by
  intro x hx
  obtain ⟨before, t, after, -, hheld⟩ := holds_reached limits steps x hx
  have hmem : ⟨.prewrite, t.xid, t.tso⟩ ∈ signals (.prewritten t :: after) := by simp
  exact ⟨t.tso, hheld.own ▸ hheld.queued.subset hmem⟩

/-- At the end of a causal epoch, an engine with an empty arrival queue is idle. -/
theorem idle_reached {steps : List Step} (hclear : .clear ∉ steps)
    (hcausal : Causal (history limits steps)) (hsize : (reached limits steps).size = 0) :
    (reached limits steps).Idle := by
  have hc := consistent_reached limits steps
  have hawaits := (parts_reached hclear hcausal).awaits
  have ha : (reached limits steps).Anchored :=
    ⟨prewrite_queued_reached limits steps, fun k hk => hawaits.commit_queued
      (mirrors_reached limits steps) hc (lifeCycle_reached limits steps k.xid) hk⟩
  exact ha.idle hc (List.length_eq_zero_iff.1 hsize)

end Engine

end ShardMerge
