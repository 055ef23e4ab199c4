import ShardMerge.Proofs.Audit
import ShardMerge.Proofs.Batches

/-!
# Skipping the head

A drain decides at its start whether it skips: the arrival queue must be longer than the threshold,
and its head the prewrite of an open transaction that may be skipped (`Engine.SkipsHead`). Setting
that transaction aside resolves the head, so the scan takes it off whatever the clock reads. What is
handed out afterwards was ready before, and so it is never the transaction that has been skipped
(`Engine.SkipsHead.skipsOnly`). A drain that does not skip leaves everything open as it is
(`Engine.run_skips_head_only`).
-/

namespace ShardMerge

namespace Engine

variable {limits : Limits} {e : Engine} {skips : Xid → Bool} {x : Xid} {t : Transaction}

/-- A drain that hands out `batch` moves the transaction `t` of the head to the skipped ones, and no
other transaction. -/
structure SkipsOnly (x : Xid) (t : Transaction) (e : Engine) (batch : List Transaction)
    (e' : Engine) : Prop where
  /-- It was registered. -/
  known : e.transaction? x = some t
  /-- It is the last of the skipped ones, without its payload. -/
  moved : e'.skipped = e.skipped ++ [t.release]
  counted : e'.totals.skipped = e.totals.skipped + 1
  /-- It is no longer open, and the others are. -/
  closed : e'.pending = e.pending.filter (· ≠ x)
  gone : e'.transaction? x = none
  /-- It is not handed out. -/
  withheld : ∀ u ∈ batch, u.xid ≠ x
  /-- Its prewrite has been taken off the queue. -/
  taken : e'.queue <:+ e.queue.tail
  /-- What was ready has been handed out or is still ready. -/
  ready : batch.map Transaction.key? ++ e'.ready.keys.map some = e.ready.keys.map some
  /-- What else has not been handed out is registered as before. -/
  others : ∀ y ≠ x, ∀ u, e'.transaction? y = some u ↔ e.transaction? y = some u ∧ u ∉ batch

/-- What is skipped was open, and what is handed out was ready. -/
theorem SkipsHead.withheld (hx : SkipsHead limits skips e x) (clock : Nat → UInt64)
    (hc : e.Consistent) : ∀ u ∈ (e.drain limits skips clock).value, u.xid ≠ x := by
  have hhands := drain_handsOut limits skips clock hc hx.listsHead.ne_nil
  intro u hu heq
  obtain ⟨k, hready, -, hknown⟩ := (hhands.exact u).1 hu
  have hkey : k.xid = x := (hc.own hknown).symm.trans heq
  exact hc.ready_closed hready (hkey ▸ hx.isOpen)

/-- A drain whose head is to be skipped skips it, under any clock. -/
theorem SkipsHead.skipsOnly (hx : SkipsHead limits skips e x) (known : e.transaction? x = some t)
    (clock : Nat → UInt64) (hc : e.Consistent) :
    SkipsOnly x t e (e.drain limits skips clock).value (e.drain limits skips clock).after := by
  have hqueue := hx.listsHead.ne_nil
  obtain ⟨hskipped, hpending, hcount⟩ := skipped_drain limits skips clock e
  rw [hx.after_skipStuckHead, setAside_of_open hx.isOpen known] at hskipped hpending hcount
  refine ⟨known, hskipped, hcount, hpending, hx.gone clock hc, hx.withheld clock hc, ?_, ?_, ?_⟩
  · obtain ⟨tso, rest, head⟩ := hx.head
    rw [head]
    exact queue_drain_suffix limits skips clock head fun _ _ => hx
  · obtain ⟨hbatch, hready⟩ := drain_keys limits skips clock hc hqueue
    rw [hbatch, hready, ← List.map_append, ReadyQueue.upTo_append_beyond]
  · intro y hy u
    have hother : ¬ SkipsHead limits skips e y := fun h => hy (h.listsHead.eq hx.listsHead)
    rw [(drain_handsOut limits skips clock hc hqueue).kept y u, and_iff_left hother]

/-- Every drain of every run either skips the transaction of the head, and no other, or leaves the
open and the skipped transactions as they are. It skips one exactly if the queue is longer than the
threshold and its head is the prewrite of an open transaction that may be skipped. -/
theorem run_skips_head_only (limits : Limits) (steps : List Step) (skips : Xid → Bool)
    (clock : Nat → UInt64) :
    ((∃ t, ((reached limits steps).drain limits skips clock).after.skipped =
        (reached limits steps).skipped ++ [t]) ↔
      ∃ x, SkipsHead limits skips (reached limits steps) x) ∧
    ((∃ x t, SkipsHead limits skips (reached limits steps) x ∧
        SkipsOnly x t (reached limits steps)
          ((reached limits steps).drain limits skips clock).value
          ((reached limits steps).drain limits skips clock).after) ∨
      (∀ x, ¬ SkipsHead limits skips (reached limits steps) x) ∧
        ((reached limits steps).drain limits skips clock).after.skipped =
          (reached limits steps).skipped ∧
        ((reached limits steps).drain limits skips clock).after.pending =
          (reached limits steps).pending ∧
        ((reached limits steps).drain limits skips clock).after.totals.skipped =
          (reached limits steps).totals.skipped) := by
  have hc := consistent_reached limits steps
  have hdrain := skipped_drain limits skips clock (reached limits steps)
  rcases skipStuckHead_cases limits skips (reached limits steps) with ⟨x, hx, -⟩ | ⟨heq, hno⟩
  · obtain ⟨t, known⟩ := hc.open_known hx.isOpen
    have honly := hx.skipsOnly known clock hc
    exact ⟨iff_of_true ⟨_, honly.moved⟩ ⟨x, hx⟩, .inl ⟨x, t, hx, honly⟩⟩
  · rw [heq] at hdrain
    refine ⟨iff_of_false ?_ (not_exists.2 hno), .inr ⟨hno, hdrain⟩⟩
    rintro ⟨t, hmoved⟩
    exact absurd (hmoved.symm.trans hdrain.1) (by simp)

/-- One drain skips the transaction that holds up the queue and hands out the one behind it. -/
theorem skippingRun_skips_head_only :
    (∃ x t, SkipsHead ⟨0, 500⟩ (· = ⟨"a"⟩) (reached ⟨0, 500⟩ (skippingRun.take 3)) x ∧
      SkipsOnly x t (reached ⟨0, 500⟩ (skippingRun.take 3))
        ((reached ⟨0, 500⟩ (skippingRun.take 3)).drain ⟨0, 500⟩ (· = ⟨"a"⟩) fun _ => 0).value
        ((reached ⟨0, 500⟩ (skippingRun.take 3)).drain ⟨0, 500⟩ (· = ⟨"a"⟩) fun _ => 0).after) ∧
      ((reached ⟨0, 500⟩ (skippingRun.take 3)).drain ⟨0, 500⟩ (· = ⟨"a"⟩)
        fun _ => 0).value.map Transaction.xid = [⟨"b"⟩] := by
  have hskips : SkipsHead ⟨0, 500⟩ (· = ⟨"a"⟩) (reached ⟨0, 500⟩ (skippingRun.take 3)) ⟨"a"⟩ :=
    ⟨by decide, ⟨none, _, rfl⟩, by decide, by decide⟩
  refine ⟨?_, by decide⟩
  exact (run_skips_head_only ⟨0, 500⟩ (skippingRun.take 3) (· = ⟨"a"⟩) fun _ => 0).2.resolve_right
    fun hkeeps => hkeeps.1 ⟨"a"⟩ hskips

end Engine

end ShardMerge
