import Mathlib.Data.List.Basic
import Mathlib.Logic.Relation
import ShardMerge.Proofs.Partition

/-!
# The work of drains

What drains do, one piece at a time and with all that they book: a transaction is set aside, a
signal is taken off the queue, or a transaction is handed out (`Work`). Which pieces are possible
does not depend on a clock, and two that are possible at once do not disturb each other
(`Work.diamond`). So there is one way only in which the work comes to its end (`done_unique`). A
drain does some of the work and nothing else (`drain_works`); its clock decides how much.
-/

namespace ShardMerge

open Relation

theorem Registry.erase_comm (r : Registry) (x y : Xid) :
    (r.erase x).erase y = (r.erase y).erase x :=
  congrArg mk (List.filter_comm _ _ _)

namespace Engine

variable {limits : Limits} {skips : Xid → Bool} {e : Engine} {out : List Transaction}

/-- The engine after its first signal has been taken off the queue. -/
def popped (s : Signal) (rest : List Signal) (e : Engine) : Engine :=
  { e with queue := rest, watermark := s.lift e.watermark }

/-- The engine after the transaction of its least ready key has been handed out. -/
def handOver (k : ReadyKey) (ready : ReadyQueue) (e : Engine) : Engine :=
  { e with
    registry := e.registry.erase k.xid
    ready
    lastEmitted := some k
    totals := { e.totals with emitted := e.totals.emitted + 1 } }

/-- One piece of the work of drains, on what they have handed out so far and the engine. -/
inductive Work (limits : Limits) (skips : Xid → Bool) :
    List Transaction × Engine → List Transaction × Engine → Prop where
  /-- The transaction at the head of the queue is skipped. -/
  | skip {out : List Transaction} {e : Engine} {x : Xid} (head : SkipsHead limits skips e x) :
      Work limits skips (out, e) (out, e.setAside x)
  /-- A signal that is no open prewrite is taken off the queue. -/
  | pop {out : List Transaction} {e : Engine} {s : Signal} {rest : List Signal}
      (head : e.queue = s :: rest) (resolved : ¬ (s.kind = .prewrite ∧ s.xid ∈ e.pending)) :
      Work limits skips (out, e) (out, e.popped s rest)
  /-- The transaction of the least ready key is handed out. -/
  | release {out : List Transaction} {e : Engine} {k : ReadyKey} {ready : ReadyQueue}
      {t : Transaction} (least : e.ready.keys = k :: ready.keys)
      (releasable : ReadyQueue.releasable e.watermark k) (known : e.registry.get? k.xid = some t)
      (closed : k.xid ∉ e.pending) :
      Work limits skips (out, e) (out ++ [t], e.handOver k ready)

/-! ## The end of the work -/

/-- A skip and a release do not disturb each other: they are about different transactions. -/
theorem Work.skip_release (out : List Transaction) {x : Xid} {k : ReadyKey} {ready : ReadyQueue}
    {t : Transaction} (head : SkipsHead limits skips e x) (least : e.ready.keys = k :: ready.keys)
    (releasable : ReadyQueue.releasable e.watermark k) (known : e.registry.get? k.xid = some t)
    (closed : k.xid ∉ e.pending) :
    ∃ p, Work limits skips (out, e.setAside x) p ∧
      Work limits skips (out ++ [t], e.handOver k ready) p := by
  have hne : x ≠ k.xid := fun heq => closed (heq ▸ head.isOpen)
  have hcomm : (e.handOver k ready).setAside x = (e.setAside x).handOver k ready := by
    simp only [setAside, handOver, if_pos head.isOpen, Registry.get?_erase, if_neg hne.symm,
      Registry.erase_comm]
  refine ⟨(out ++ [t], (e.setAside x).handOver k ready), .release ?_ ?_ ?_ ?_, ?_⟩
  · rwa [ready_setAside]
  · rwa [watermark_setAside]
  · simp only [setAside, if_pos head.isOpen]
    rwa [Registry.get?_erase, if_neg hne]
  · simp only [setAside, if_pos head.isOpen]
    exact fun hmem => closed (List.mem_filter.1 hmem).1
  · rw [← hcomm]
    exact .skip ⟨head.long, head.head, head.listed, head.isOpen⟩

/-- Taking a signal off the queue and a release do not disturb each other: the watermark only goes
up. -/
theorem Work.pop_release (out : List Transaction) {s : Signal} {rest : List Signal} {k : ReadyKey}
    {ready : ReadyQueue} {t : Transaction} (head : e.queue = s :: rest)
    (resolved : ¬ (s.kind = .prewrite ∧ s.xid ∈ e.pending)) (least : e.ready.keys = k :: ready.keys)
    (releasable : ReadyQueue.releasable e.watermark k) (known : e.registry.get? k.xid = some t)
    (closed : k.xid ∉ e.pending) :
    ∃ p, Work limits skips (out, e.popped s rest) p ∧
      Work limits skips (out ++ [t], e.handOver k ready) p := by
  have hraised : ReadyQueue.releasable (s.lift e.watermark) k :=
    ReadyQueue.releasable_iff.2 (le_trans (ReadyQueue.releasable_iff.1 releasable) (s.le_lift _))
  exact ⟨(out ++ [t], (e.popped s rest).handOver k ready), .release least hraised known closed,
    .pop head resolved⟩

/-- Two pieces of work that are possible at once are the same, or each can still be done after the
other, with the same result. -/
theorem Work.diamond {p q r : List Transaction × Engine} (hq : Work limits skips p q)
    (hr : Work limits skips p r) :
    q = r ∨ ∃ d, Work limits skips q d ∧ Work limits skips r d := by
  cases hq with
  | skip head =>
    cases hr with
    | skip head' =>
      obtain ⟨tso, rest, hqueue⟩ := head.head
      obtain ⟨tso', rest', hqueue'⟩ := head'.head
      cases hqueue.symm.trans hqueue'
      exact Or.inl rfl
    | pop head' resolved =>
      -- a head that may be skipped is open, and an open one stays on the queue
      obtain ⟨tso, rest, hqueue⟩ := head.head
      cases hqueue.symm.trans head'
      exact absurd ⟨rfl, head.isOpen⟩ resolved
    | release least releasable known closed =>
      exact Or.inr (skip_release _ head least releasable known closed)
  | pop head resolved =>
    cases hr with
    | skip head' =>
      obtain ⟨tso, rest, hqueue⟩ := head'.head
      cases hqueue.symm.trans head
      exact absurd ⟨rfl, head'.isOpen⟩ resolved
    | pop head' =>
      cases head.symm.trans head'
      exact Or.inl rfl
    | release least releasable known closed =>
      exact Or.inr (pop_release _ head resolved least releasable known closed)
  | release least releasable known closed =>
    cases hr with
    | skip head =>
      obtain ⟨d, hskip, hrelease⟩ := skip_release _ head least releasable known closed
      exact Or.inr ⟨d, hrelease, hskip⟩
    | pop head resolved =>
      obtain ⟨d, hpop, hrelease⟩ := pop_release _ head resolved least releasable known closed
      exact Or.inr ⟨d, hrelease, hpop⟩
    | release least' _ known' =>
      obtain ⟨rfl, hkeys⟩ := List.cons.inj (least.symm.trans least')
      cases ReadyQueue.ext_keys hkeys
      cases known.symm.trans known'
      exact Or.inl rfl

/-- No piece of work is possible. -/
def Done (limits : Limits) (skips : Xid → Bool) (e : Engine) : Prop :=
  ∀ out p, ¬ Work limits skips (out, e) p

/-- When the work is done, it goes nowhere. -/
theorem Done.eq_of_works (hdone : Done limits skips e) {p : List Transaction × Engine}
    (h : ReflTransGen (Work limits skips) (out, e) p) : p = (out, e) := by
  rcases h.cases_head with heq | ⟨q, hq, -⟩
  · exact heq.symm
  · exact absurd hq (hdone out q)

/-- The work comes to one end only, in whatever order it is done. -/
theorem done_unique {p : List Transaction × Engine} {out' : List Transaction} {e' : Engine}
    (h : ReflTransGen (Work limits skips) p (out, e)) (hdone : Done limits skips e)
    (h' : ReflTransGen (Work limits skips) p (out', e')) (hdone' : Done limits skips e') :
    out = out' ∧ e = e' := by
  have hjoin : Join (ReflTransGen (Work limits skips)) (out, e) (out', e') := by
    refine church_rosser (fun p q r hq hr => ?_) h h'
    rcases hq.diamond hr with rfl | ⟨d, hqd, hrd⟩
    · exact ⟨q, .refl, .refl⟩
    · exact ⟨d, .single hqd, .single hrd⟩
  obtain ⟨d, hd, hd'⟩ := hjoin
  rw [hdone.eq_of_works hd] at hd'
  exact Prod.ext_iff.1 (hdone'.eq_of_works hd')

/-! ## Drains -/

theorem skipStuckHead_works (limits : Limits) (skips : Xid → Bool) (e : Engine)
    (out : List Transaction) :
    ReflTransGen (Work limits skips) (out, e) (out, (e.skipStuckHead limits skips).after) := by
  rcases skipStuckHead_cases limits skips e with ⟨x, hx, heq⟩ | ⟨heq, -⟩
  · rw [heq]
    exact .single (.skip hx)
  · rw [heq]

theorem scanned_works (limits : Limits) (skips : Xid → Bool) (clock : Nat → UInt64) (e : Engine)
    (out : List Transaction) :
    ReflTransGen (Work limits skips) (out, e) (out, e.scanned limits skips clock) :=
  scan_induction (P := fun m => ReflTransGen (Work limits skips) (out, e) (out, m))
    (fun head resolved h => h.tail (.pop head resolved)) limits.scanBudget clock
    (skipStuckHead_works limits skips e out)

end Engine

/-- The last key of a batch is the last of its keys. -/
theorem lastKey_eq {batch : List Transaction} {keys : List ReadyKey}
    (h : batch.map Transaction.key? = keys.map some) : lastKey batch = keys.getLast? := by
  have hlast := congrArg List.getLast? h
  rw [List.getLast?_map, List.getLast?_map] at hlast
  unfold lastKey
  cases hb : batch.getLast? with
  | none => simp_all
  | some t =>
    cases hk : keys.getLast? with
    | none => simp [hb, hk] at hlast
    | some k =>
      rw [hb, hk] at hlast
      exact Option.some.inj hlast

/-- With one more transaction in front, the last key of a batch is the same if there was one. -/
theorem lastKey_cons {t : Transaction} {k : ReadyKey} {batch : List Transaction}
    {keys : List ReadyKey} (ht : t.key? = some k)
    (h : batch.map Transaction.key? = keys.map some) :
    lastKey (t :: batch) = some ((lastKey batch).getD k) := by
  have hcons : (t :: batch).map Transaction.key? = (k :: keys).map some := by simp [ht, h]
  rw [lastKey_eq hcons, lastKey_eq h, List.getLast?_cons]

namespace Engine

variable {limits : Limits} {skips : Xid → Bool} {e : Engine}

theorem Consistent.handOver (hc : e.Consistent) {k : ReadyKey} {ready : ReadyQueue}
    (least : e.ready.keys = k :: ready.keys) : (e.handOver k ready).Consistent :=
  { hc.release least with }

/-- Booking a transaction and then a batch is booking the batch with that transaction in front. -/
theorem deliver_cons {t : Transaction} {k : ReadyKey} {batch : List Transaction}
    (hlast : lastKey (t :: batch) = some ((lastKey batch).getD k)) (e : Engine) :
    (deliver batch { e with
        lastEmitted := some k
        totals := { e.totals with emitted := e.totals.emitted + 1 } }).after =
      (e.deliver (t :: batch)).after := by
  have hor : (some ((lastKey batch).getD k)).or e.lastEmitted = (lastKey batch).or (some k) := by
    cases lastKey batch <;> rfl
  have hcount : e.totals.emitted + (t :: batch).length = e.totals.emitted + 1 + batch.length := by
    rw [List.length_cons]
    omega
  simp only [deliver, hlast, hor, hcount]

/-- Handing out a batch is handing over its transactions one by one, the least first. -/
theorem emit_works (hc : e.Consistent) (out : List Transaction) :
    ReflTransGen (Work limits skips) (out, e)
      (out ++ e.emit.value, (e.emit.after.deliver e.emit.value).after) := by
  -- by induction on the ready keys: a key after one that has to wait has to wait as well
  generalize hkeys : e.ready.keys = keys
  induction keys generalizing e out with
  | nil =>
    obtain ⟨hvalue, hafter⟩ := emit_of_waiting (e := e) (by simp [hkeys])
    rw [hvalue, hafter, List.append_nil]
    exact .refl
  | cons k keys ih =>
    by_cases hk : ReadyQueue.releasable e.watermark k
    · obtain ⟨ready, rfl⟩ := exists_rest_of_least hkeys
      have hmem : k ∈ e.ready := (ReadyQueue.mem_iff_of_least hkeys).2 (Or.inl rfl)
      obtain ⟨t, ht, htso⟩ := hc.ready_known hmem
      have hkey : t.key? = some k := by simp [Transaction.key?, htso, hc.own ht]
      have hc' := hc.handOver hkeys
      have hworks := ih hc' (out ++ [t]) rfl
      have hnext := emit_of_releasable hkeys hk ht
      have hvalue : e.emit.value = t :: (e.handOver k ready).emit.value := hnext.1
      have hafter : (e.emit.after.deliver e.emit.value).after =
          ((e.handOver k ready).emit.after.deliver (e.handOver k ready).emit.value).after := by
        rw [hvalue, hnext.2, ← deliver_cons (lastKey_cons hkey (map_key?_emit hc'))]
        rfl
      rw [hafter, hvalue, List.append_cons]
      exact .head (.release hkeys hk ht (hc.ready_closed hmem)) hworks
    · obtain ⟨hvalue, hafter⟩ := emit_of_waiting (e := e) (by simpa [hkeys] using hk)
      rw [hvalue, hafter, List.append_nil]
      exact .refl

/-- A drain does some of the work, and nothing else. -/
theorem drain_works (limits : Limits) (skips : Xid → Bool) (clock : Nat → UInt64)
    (hc : e.Consistent) (out : List Transaction) :
    ReflTransGen (Work limits skips) (out, e)
      (out ++ (e.drain limits skips clock).value, (e.drain limits skips clock).after) := by
  by_cases hqueue : e.queue = []
  · rw [drain_of_queue_nil limits skips clock hqueue, List.append_nil]
  · obtain ⟨_, -, hmoves, -⟩ := scanned_moves limits skips clock hc
    rw [value_drain limits skips clock hqueue, after_drain limits skips clock hqueue]
    exact (scanned_works limits skips clock e out).trans (emit_works (hmoves.consistent hc) out)

end Engine

end ShardMerge
