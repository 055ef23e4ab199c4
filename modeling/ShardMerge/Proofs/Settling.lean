import ShardMerge.Proofs.Anchored
import ShardMerge.Proofs.Work

/-!
# Where drains come to rest

How much of the work one drain does depends on its clock; where a series of drains ends does not. A
drain that changes nothing has left no work to any other (`settled_iff_done`), at most as many
drains as there are signals in the queue do all of it (`done_of_size_le`), and the work comes to one
end only, so that the clocks do not show in the result (`run_clocks_irrelevant`).

A single drain does all the work if its scan is not cut short and ends at an open prewrite that may
not be skipped (`run_settles_iff`). If that prewrite may be skipped, the next drain goes on behind
it, although nothing has been pushed in between.
-/

namespace ShardMerge

/-- A scan that is not cut short ends at an open prewrite or at the end of the queue. -/
theorem Scan.head_of_uncut {pending : List Xid} {budget : Nat} {elapsed : Nat → Nat}
    (queue : List Signal) (watermark : Option Tso) (n : Nat)
    (huncut : ∀ spent, (Scan.of pending budget elapsed queue watermark n).reason ≠ .cut spent) :
    ∀ s ∈ (Scan.of pending budget elapsed queue watermark n).remaining.head?,
      s.kind = .prewrite ∧ s.xid ∈ pending := by
  rcases Scan.reason_cases pending budget elapsed queue watermark n with
    ⟨-, hqueue⟩ | ⟨x, tso, rest, -, hqueue, hopen⟩ | ⟨spent, hcut, -⟩
  · simp [hqueue]
  · rw [hqueue]
    rintro _ ⟨⟩
    exact ⟨rfl, hopen⟩
  · exact absurd hcut (huncut spent)

namespace Engine

open Relation

variable {limits : Limits} {skips : Xid → Bool} {e : Engine} {clock : Nat → UInt64}

/-- A drain hands out nothing and changes nothing, whatever its clock reads. -/
def Settled (limits : Limits) (skips : Xid → Bool) (e : Engine) : Prop :=
  ∀ clock, (e.drain limits skips clock).value = [] ∧ (e.drain limits skips clock).after = e

/-- One drain for each of the given clocks, all under the same skip policy. -/
def drains (skips : Xid → Bool) (clocks : List (Nat → UInt64)) : List Step :=
  clocks.map (.drain skips)

/-- The arrival queue is empty or begins with an open prewrite, as a scan leaves it that is not cut
short. -/
def ScanComplete (e : Engine) : Prop :=
  ∀ s ∈ e.queue.head?, s.kind = .prewrite ∧ s.xid ∈ e.pending

instance (e : Engine) : Decidable e.ScanComplete :=
  inferInstanceAs (Decidable (∀ s ∈ e.queue.head?, s.kind = .prewrite ∧ s.xid ∈ e.pending))

/-! ## Engines without work -/

theorem Idle.done (hidle : e.Idle) (hqueue : e.queue = []) : Done limits skips e := by
  intro out p hwork
  cases hwork with
  | skip head =>
    obtain ⟨tso, rest, hhead⟩ := head.head
    simp [hqueue] at hhead
  | pop head => simp [hqueue] at head
  | release least => simp [hidle.ready] at least

/-- Between operations, an empty queue leaves no work. -/
theorem done_of_queue_nil {steps : List Step} (hqueue : (reached limits steps).queue = []) :
    Done limits skips (reached limits steps) :=
  ((anchored_reached limits steps).idle (consistent_reached limits steps) hqueue).done hqueue

/-- Without a signal to take off the queue, a head to skip or a key to release, no work is left. -/
theorem ScanComplete.done (hend : e.ScanComplete) (hskip : ∀ x, ¬ SkipsHead limits skips e x)
    (hawaits : e.AwaitsWatermark) : Done limits skips e := by
  intro out p hwork
  cases hwork with
  | skip head => exact hskip _ head
  | pop head resolved => exact resolved (hend _ (by simp [head]))
  | release least releasable =>
    have hmem := (ReadyQueue.mem_iff_of_least least).2 (Or.inl rfl)
    exact Tso.lt_some_iff.1 (hawaits _ hmem) (ReadyQueue.releasable_iff.1 releasable)

/-- Where no work is left, drains change nothing. -/
theorem Done.settled (hdone : Done limits skips e) (hc : e.Consistent) :
    Settled limits skips e := by
  intro clock
  have heq := hdone.eq_of_works (drain_works limits skips clock hc [])
  rw [List.nil_append] at heq
  exact Prod.ext_iff.1 heq

/-! ## Series of drains -/

/-- An open prewrite at the head that is not skipped stops a drain at once. -/
theorem scanned_of_blocked (clock : Nat → UInt64) {s : Signal} {rest : List Signal}
    (head : e.queue = s :: rest) (blocked : s.kind = .prewrite ∧ s.xid ∈ e.pending)
    (hskip : ∀ x, ¬ SkipsHead limits skips e x) : e.scanned limits skips clock = e := by
  rcases skipStuckHead_cases limits skips e with ⟨x, hx, -⟩ | ⟨heq, -⟩
  · exact absurd hx (hskip x)
  · simp only [scanned, heq, scan, head, Scan.of, if_pos blocked]
    rw [← head]

/-- A drain shortens the queue or leaves no work. -/
theorem size_lt_or_done (limits : Limits) (skips : Xid → Bool) (clock : Nat → UInt64)
    (hc : e.Consistent) (hqueue : e.queue ≠ []) :
    (e.drain limits skips clock).after.size < e.size ∨
      Done limits skips (e.drain limits skips clock).after := by
  obtain ⟨s, rest, head⟩ := List.exists_cons_of_ne_nil hqueue
  by_cases hskip : s.kind = .prewrite → s.xid ∈ e.pending → SkipsHead limits skips e s.xid
  · exact Or.inl (size_drain_lt limits skips clock head hskip)
  · -- the scan stops at once, and handing out leaves the queue and what is open as they are
    simp only [Classical.not_imp] at hskip
    obtain ⟨hkind, hopen, hstay⟩ := hskip
    have hno : ∀ x, ¬ SkipsHead limits skips e x := by
      intro x hx
      obtain ⟨tso, rest', hhead⟩ := hx.head
      cases head.symm.trans hhead
      exact hstay hx
    have hafter := after_drain limits skips clock hqueue
    rw [scanned_of_blocked clock head ⟨hkind, hopen⟩ hno] at hafter
    have hcomplete : (e.drain limits skips clock).after.ScanComplete := by
      rw [hafter]
      show ∀ s ∈ e.queue.head?, s.kind = .prewrite ∧ s.xid ∈ e.pending
      rw [head]
      rintro _ ⟨⟩
      exact ⟨hkind, hopen⟩
    refine Or.inr (hcomplete.done ?_ (awaits_after_drain limits skips clock hc hqueue))
    rw [hafter]
    exact fun x hx => hno x ⟨hx.long, hx.head, hx.listed, hx.isOpen⟩

/-- Between operations, a drain changes nothing exactly if there is no work. -/
theorem settled_iff_done (limits : Limits) (skips : Xid → Bool) (steps : List Step) :
    Settled limits skips (reached limits steps) ↔ Done limits skips (reached limits steps) := by
  have hc := consistent_reached limits steps
  refine ⟨fun hsettled => ?_, fun hdone => hdone.settled hc⟩
  by_cases hqueue : (reached limits steps).queue = []
  · exact done_of_queue_nil hqueue
  · have hlater := size_lt_or_done limits skips (fun _ => 0) hc hqueue
    rw [(hsettled _).2] at hlater
    exact hlater.resolve_left (lt_irrefl _)

/-- A series of drains does some of the work, and nothing else. -/
theorem drains_works (limits : Limits) (skips : Xid → Bool) (clocks : List (Nat → UInt64))
    (hc : e.Consistent) (out : List Transaction) :
    ReflTransGen (Work limits skips) (out, e)
      (out ++ (batches (run limits (drains skips clocks) e).value).flatten,
        (run limits (drains skips clocks) e).after) := by
  induction clocks generalizing e out with
  | nil =>
    rw [show (batches (run limits (drains skips []) e).value).flatten = [] from rfl,
      List.append_nil]
    exact .refl
  | cons clock clocks ih =>
    have hrest := ih ((drain_moves limits skips clock hc).consistent hc)
      (out ++ (e.drain limits skips clock).value)
    rw [List.append_assoc] at hrest
    exact (drain_works limits skips clock hc out).trans hrest

theorem Done.after_drains (hdone : Done limits skips e) (hc : e.Consistent)
    (clocks : List (Nat → UInt64)) : (run limits (drains skips clocks) e).after = e :=
  (Prod.ext_iff.1 (hdone.eq_of_works (drains_works limits skips clocks hc []))).2

theorem reached_concat_drain (limits : Limits) (steps : List Step) (skips : Xid → Bool)
    (clock : Nat → UInt64) :
    reached limits (steps ++ [.drain skips clock]) =
      ((reached limits steps).drain limits skips clock).after :=
  reached_concat ..

/-- As many drains as there are signals in the queue do all the work, however little each does. -/
theorem done_of_size_le (limits : Limits) (skips : Xid → Bool) {clocks : List (Nat → UInt64)}
    {steps : List Step} (hsize : (reached limits steps).size ≤ clocks.length) :
    Done limits skips (run limits (drains skips clocks) (reached limits steps)).after := by
  -- each drain takes a signal off the queue or is the last one that changes anything
  induction clocks generalizing steps with
  | nil =>
    exact done_of_queue_nil (by simpa [size] using hsize)
  | cons clock clocks ih =>
    show Done limits skips (run limits (drains skips clocks)
      ((reached limits steps).drain limits skips clock).after).after
    have hnext := reached_concat_drain limits steps skips clock
    by_cases hqueue : (reached limits steps).queue = []
    · rw [drain_of_queue_nil limits skips clock hqueue]
      exact ih (by simp [size, hqueue])
    · rcases size_lt_or_done limits skips clock (consistent_reached limits steps) hqueue with
        hlt | hdone
      · rw [← hnext] at hlt ⊢
        rw [List.length_cons] at hsize
        exact ih (by omega)
      · rw [← hnext] at hdone ⊢
        rwa [hdone.after_drains (consistent_reached limits _)]

/-- The clocks decide when drains do their work, but not what comes of it. From any state of any
run, under a fixed skip policy, as many drains as there are signals in the queue settle the engine,
and any two series of drains that settle it hand out the same transactions in the same order and
leave the same engine: queue, indices, watermark, skipped transactions and counters. -/
theorem run_clocks_irrelevant (limits : Limits) (steps : List Step) (skips : Xid → Bool) :
    (∀ clocks, (reached limits steps).size ≤ clocks.length →
      Settled limits skips (run limits (drains skips clocks) (reached limits steps)).after) ∧
    ∀ clocks clocks',
      Settled limits skips (run limits (drains skips clocks) (reached limits steps)).after →
      Settled limits skips (run limits (drains skips clocks') (reached limits steps)).after →
      (batches (run limits (drains skips clocks) (reached limits steps)).value).flatten =
          (batches (run limits (drains skips clocks') (reached limits steps)).value).flatten ∧
        (run limits (drains skips clocks) (reached limits steps)).after =
          (run limits (drains skips clocks') (reached limits steps)).after := by
  have hc := consistent_reached limits steps
  have hiff : ∀ clocks,
      Settled limits skips (run limits (drains skips clocks) (reached limits steps)).after ↔
        Done limits skips (run limits (drains skips clocks) (reached limits steps)).after := by
    intro clocks
    have hreached := settled_iff_done limits skips (steps ++ drains skips clocks)
    rwa [show reached limits (steps ++ drains skips clocks) = _ from
      after_run_append steps (drains skips clocks) .empty] at hreached
  refine ⟨fun clocks hsize => (hiff clocks).2 (done_of_size_le limits skips hsize), ?_⟩
  intro clocks clocks' hsettled hsettled'
  exact done_unique (drains_works limits skips clocks hc []) ((hiff clocks).1 hsettled)
    (drains_works limits skips clocks' hc []) ((hiff clocks').1 hsettled')

/-- A run that leaves an open prewrite between two committed transactions. -/
def wedgedRun : List Step :=
  [.push (fun _ => false) true (.prewrite { xid := ⟨"a"⟩ }),
    .push (fun _ => false) true (.commit ⟨"a"⟩ (some (.ofTime 5))),
    .push (fun _ => false) true (.prewrite { xid := ⟨"y"⟩ }),
    .push (fun _ => false) true (.prewrite { xid := ⟨"b"⟩ }),
    .push (fun _ => false) true (.commit ⟨"b"⟩ (some (.ofTime 7)))]

/-- A clock that stands still, and one that cuts every scan short after one signal. -/
theorem wedgedRun_clocks_irrelevant :
    (batches (run ⟨0, 500⟩ (drains (· = ⟨"y"⟩) (.replicate 5 fun _ => 0))
          (reached ⟨0, 500⟩ wedgedRun)).value).flatten =
        (batches (run ⟨0, 500⟩ (drains (· = ⟨"y"⟩) (.replicate 5 fun n => 501 * n.toUInt64))
          (reached ⟨0, 500⟩ wedgedRun)).value).flatten ∧
      (run ⟨0, 500⟩ (drains (· = ⟨"y"⟩) (.replicate 5 fun _ => 0))
          (reached ⟨0, 500⟩ wedgedRun)).after =
        (run ⟨0, 500⟩ (drains (· = ⟨"y"⟩) (.replicate 5 fun n => 501 * n.toUInt64))
          (reached ⟨0, 500⟩ wedgedRun)).after :=
  (run_clocks_irrelevant ⟨0, 500⟩ wedgedRun (· = ⟨"y"⟩)).2 _ _
    ((run_clocks_irrelevant ⟨0, 500⟩ wedgedRun _).1 _ (by decide))
    ((run_clocks_irrelevant ⟨0, 500⟩ wedgedRun _).1 _ (by decide))

/-! ## One drain -/

/-- A drain that does not report that its scan was cut short leaves nothing to scan. -/
theorem scanComplete_of_uncut
    (huncut : ∀ spent left, .budgetExhausted spent left ∉ (e.drain limits skips clock).events) :
    (e.drain limits skips clock).after.ScanComplete := by
  by_cases hqueue : e.queue = []
  · simp [drain_of_queue_nil limits skips clock hqueue, ScanComplete, hqueue]
  · rw [after_drain limits skips clock hqueue]
    refine Scan.head_of_uncut _ _ _ fun spent hcut => ?_
    have hreported : .budgetExhausted spent (e.scanned limits skips clock).queue.length ∈
        (e.drain limits skips clock).events := by
      simp [drain, hqueue, Reply.andThen, scanned, scan, Scan.events, hcut]
    exact huncut _ _ hreported

/-- A drain whose scan is not cut short ends with an empty queue or at an open prewrite. From there,
another drain has nothing to hand out and nothing to change, whatever its clock reads, exactly if
that prewrite may not be skipped. -/
theorem run_settles_iff (limits : Limits) (steps : List Step) (skips : Xid → Bool)
    (clock : Nat → UInt64) :
    ((∀ spent left, .budgetExhausted spent left ∉
        ((reached limits steps).drain limits skips clock).events) →
      ((reached limits steps).drain limits skips clock).after.ScanComplete) ∧
    (((reached limits steps).drain limits skips clock).after.ScanComplete →
      (Settled limits skips ((reached limits steps).drain limits skips clock).after ↔
        ∀ x, ¬ SkipsHead limits skips
          ((reached limits steps).drain limits skips clock).after x)) := by
  refine ⟨scanComplete_of_uncut, fun hend => ?_⟩
  have hnext := reached_concat_drain limits steps skips clock
  rw [← hnext, settled_iff_done]
  refine ⟨fun hdone x hx => hdone [] _ (.skip hx), fun hstay => ?_⟩
  by_cases hqueue : (reached limits steps).queue = []
  · apply done_of_queue_nil
    rw [hnext, drain_of_queue_nil limits skips clock hqueue]
    exact hqueue
  · have hawaits := awaits_after_drain limits skips clock (consistent_reached limits steps) hqueue
    rw [← hnext] at hend hawaits
    exact hend.done hstay hawaits

/-- The scan stops at the open prewrite. The engine comes to rest there if the prewrite may not be
skipped, and only then. -/
theorem wedgedRun_settles_iff :
    Settled ⟨0, 500⟩ (fun _ => false)
        ((reached ⟨0, 500⟩ wedgedRun).drain ⟨0, 500⟩ (fun _ => false) (fun _ => 0)).after ∧
      ¬ Settled ⟨0, 500⟩ (· = ⟨"y"⟩)
        ((reached ⟨0, 500⟩ wedgedRun).drain ⟨0, 500⟩ (· = ⟨"y"⟩) (fun _ => 0)).after := by
  constructor
  · refine ((run_settles_iff ⟨0, 500⟩ wedgedRun _ _).2 (by decide)).2 fun x hx => ?_
    exact Bool.false_ne_true hx.listed
  · intro hsettled
    refine ((run_settles_iff ⟨0, 500⟩ wedgedRun _ _).2 (by decide)).1 hsettled ⟨"y"⟩ ?_
    exact ⟨by decide, ⟨none, _, rfl⟩, by decide, by decide⟩

/-- A drain whose scan stopped at an open prewrite, and was not cut short, may be followed by one
that hands out more under the same skip policy, with nothing pushed in between. -/
theorem not_forall_drain_again_nil :
    ¬ ∀ (limits : Limits) (steps : List Step) (skips : Xid → Bool) (clock clock' : Nat → UInt64),
        ((reached limits steps).drain limits skips clock).after.ScanComplete →
        (∀ elapsed left, .budgetExhausted elapsed left ∉
          ((reached limits steps).drain limits skips clock).events) →
        (((reached limits steps).drain limits skips clock).after.drain limits skips clock').value =
          [] := by
  intro hnil
  have hevents :
      ((reached ⟨0, 500⟩ wedgedRun).drain ⟨0, 500⟩ (· = ⟨"y"⟩) (fun _ => 0)).events =
        [.notReady ⟨"y"⟩, .released { xid := ⟨"a"⟩, tso := some (.ofTime 5) }, .drained 1] := by
    decide
  have hagain := hnil ⟨0, 500⟩ wedgedRun (· = ⟨"y"⟩) (fun _ => 0) (fun _ => 0) (by decide)
    (by simp [hevents])
  have hmore :
      (((reached ⟨0, 500⟩ wedgedRun).drain ⟨0, 500⟩ (· = ⟨"y"⟩) (fun _ => 0)).after.drain ⟨0, 500⟩
        (· = ⟨"y"⟩) (fun _ => 0)).value = [{ xid := ⟨"b"⟩, tso := some (.ofTime 7) }] := by
    decide
  exact List.cons_ne_nil _ _ (hmore.symm.trans hagain)

end Engine

end ShardMerge
