import Mathlib.Order.Bounds.Basic
import ShardMerge.Proofs.Anchored

/-!
# The batch of a drain

What a drain hands out is decided by the ready transactions and the watermark after its scan alone:
all of them that the watermark has reached, in ascending order (`Engine.mem_emit`). The keys ascend
in the ready queue, so the first key that has to wait parts those that are handed out from those
that are not (`ReadyQueue.filter_releasable`), and no key that may be released is left behind one
that may not. Whatever is neither handed out nor skipped stays registered as it is
(`Engine.run_hands_out_exactly`).
-/

namespace ShardMerge

namespace ReadyQueue

variable {q : ReadyQueue} {watermark : Option Tso} {k : ReadyKey}

/-- The keys up to a watermark and those beyond it are the two parts into which it divides a queue.
-/
theorem filter_releasable (q : ReadyQueue) (watermark : Option Tso) :
    q.keys.filter (releasable watermark) = q.upTo watermark ∧
      q.keys.filter (!releasable watermark ·) = (q.beyond watermark).keys := by
  have hupTo : ∀ k ∈ q.upTo watermark, releasable watermark k := fun _ => releasable_of_mem_upTo
  have hbeyond : ∀ k ∈ (q.beyond watermark).keys, ¬ releasable watermark k :=
    fun _ => not_releasable_of_mem_beyond
  rw [← q.upTo_append_beyond watermark, List.filter_append, List.filter_append]
  constructor
  · rw [List.filter_eq_self.2 hupTo, List.filter_eq_nil_iff.2 hbeyond, List.append_nil]
  · rw [List.filter_eq_nil_iff.2 (by simpa using hupTo),
      List.filter_eq_self.2 (by simpa using hbeyond), List.nil_append]

/-- What stays behind are the keys above the watermark. -/
theorem keys_beyond (q : ReadyQueue) (watermark : Option Tso) :
    (q.beyond watermark).keys = q.keys.filter fun k => watermark < some k.tso := by
  rw [← (q.filter_releasable watermark).2]
  refine List.filter_congr fun k _ => Bool.eq_iff_iff.2 ?_
  rw [Bool.not_eq_true', ← Bool.not_eq_true, releasable_iff, decide_eq_true_eq, Tso.lt_some_iff]

theorem mem_upTo : k ∈ q.upTo watermark ↔ k ∈ q ∧ some k.tso ≤ watermark := by
  rw [← (q.filter_releasable watermark).1, List.mem_filter, releasable_iff]
  rfl

/-- The first key of a queue is its least one. -/
theorem min?_eq_some_iff : q.min? = some k ↔ IsLeast {k | k ∈ q} k := by
  have hsorted := q.sorted
  show q.keys.head? = some k ↔ k ∈ q.keys ∧ k ∈ lowerBounds {k | k ∈ q.keys}
  cases hkeys : q.keys with
  | nil => simp
  | cons first rest =>
    rw [hkeys, List.pairwise_cons] at hsorted
    have hleast : first ∈ lowerBounds {k | k ∈ first :: rest} := by
      intro k hk
      rcases List.mem_cons.1 hk with rfl | hk
      · exact le_refl k
      · exact hsorted.1 k hk
    rw [List.head?_cons, Option.some.injEq]
    constructor
    · rintro rfl
      exact ⟨List.mem_cons_self, hleast⟩
    · rintro ⟨hmem, hlower⟩
      exact le_antisymm (hleast hmem) (hlower List.mem_cons_self)

end ReadyQueue

namespace Registry

/-- Collecting takes out the transactions of the keys and leaves the others. -/
theorem get?_collect (keys : List ReadyKey) (registry : Registry) (x : Xid) :
    (collect keys registry).after.get? x =
      if x ∈ keys.map ReadyKey.xid then none else registry.get? x := by
  induction keys generalizing registry with
  | nil => simp [collect]
  | cons k keys ih =>
    have hrest : (collect (k :: keys) registry).after =
        (collect keys (registry.erase k.xid)).after := by
      rw [collect]
      split <;> rfl
    rw [hrest, ih, get?_erase, List.map_cons]
    by_cases hx : k.xid = x
    · simp [hx]
    · simp [hx, Ne.symm hx]

/-- Collecting finds the transactions that are registered under the keys. -/
theorem mem_collect {keys : List ReadyKey} {registry : Registry} {t : Transaction}
    (hnodup : (keys.map ReadyKey.xid).Nodup) :
    t ∈ (collect keys registry).value ↔ ∃ k ∈ keys, registry.get? k.xid = some t := by
  induction keys generalizing registry with
  | nil => simp [collect]
  | cons k keys ih =>
    have hrest : t ∈ (collect keys (registry.erase k.xid)).value ↔
        ∃ k' ∈ keys, registry.get? k'.xid = some t := by
      rw [ih hnodup.of_cons]
      refine exists_congr fun k' => and_congr_right fun hk' => ?_
      rw [get?_erase_of_mem registry hnodup hk']
    rw [collect]
    cases hk : registry.get? k.xid with
    | none => simp [hrest, hk]
    | some u => simp [hrest, hk, eq_comm]

end Registry

namespace Engine

variable {limits : Limits} {e : Engine} {skips : Xid → Bool} {clock : Nat → UInt64} {x : Xid}
  {t : Transaction}

/-- The transaction is ready, and the watermark has reached it. -/
def Allows (mark : Option Tso) (e : Engine) (t : Transaction) : Prop :=
  ∃ k ∈ e.ready, some k.tso ≤ mark ∧ e.transaction? k.xid = some t

/-- What a watermark allows are the transactions that are registered under the keys up to it. -/
theorem allows_iff {mark : Option Tso} :
    e.Allows mark t ↔ t ∈ (e.ready.upTo mark).filterMap fun k => e.transaction? k.xid := by
  rw [List.mem_filterMap]
  refine exists_congr fun k => ?_
  rw [ReadyQueue.mem_upTo, and_assoc]

/-- Handing out takes exactly what the watermark allows. -/
theorem mem_emit (hc : e.Consistent) : t ∈ e.emit.value ↔ e.Allows e.watermark t := by
  have hnodup : ((e.ready.upTo e.watermark).map ReadyKey.xid).Nodup :=
    hc.ready_nodup.sublist ((List.takeWhile_sublist _).map _)
  show t ∈ (Registry.collect (e.ready.upTo e.watermark) e.registry).value ↔ _
  rw [Registry.mem_collect hnodup, allows_iff]
  exact List.mem_filterMap.symm

/-- What is not handed out stays registered. -/
theorem transaction?_emit (hc : e.Consistent) :
    e.emit.after.transaction? x = some t ↔ e.transaction? x = some t ∧ t ∉ e.emit.value := by
  show (Registry.collect (e.ready.upTo e.watermark) e.registry).after.get? x = some t ↔
    e.registry.get? x = some t ∧ _
  rw [Registry.get?_collect, mem_emit hc]
  split
  next hmem =>
    obtain ⟨k, hk, rfl⟩ := List.mem_map.1 hmem
    obtain ⟨hready, hle⟩ := ReadyQueue.mem_upTo.1 hk
    refine iff_of_false (by simp) ?_
    rintro ⟨hknown, hwaits⟩
    exact hwaits ⟨k, hready, hle, hknown⟩
  next hno =>
    refine (and_iff_left_of_imp fun hknown => ?_).symm
    rintro ⟨k, hready, hle, hk⟩
    -- both keys are the identifier of the transaction
    have hx : k.xid = x := (hc.own hk).symm.trans (hc.own hknown)
    exact hno (List.mem_map.2 ⟨k, ReadyQueue.mem_upTo.2 ⟨hready, hle⟩, hx⟩)

/-- In the middle of a drain, all but the skipped transaction are registered as before. -/
theorem transaction?_scanned (limits : Limits) (skips : Xid → Bool) (clock : Nat → UInt64)
    (e : Engine) :
    (e.scanned limits skips clock).transaction? x = some t ↔
      e.transaction? x = some t ∧ ¬ SkipsHead limits skips e x := by
  show (e.skipStuckHead limits skips).after.registry.get? x = some t ↔
    e.registry.get? x = some t ∧ _
  rcases skipStuckHead_cases limits skips e with ⟨y, hy, heq⟩ | ⟨heq, hno⟩
  · simp only [heq, setAside, if_pos hy.isOpen, Registry.get?_erase]
    by_cases hx : y = x
    · subst hx
      simp [hy]
    · have hother : ¬ SkipsHead limits skips e x :=
        fun hskip => hx (hy.listsHead.eq hskip.listsHead)
      simp [hx, hother]
  · simp [heq, hno x]

/-- A batch is what a watermark allows of the ready transactions of an engine, and another engine is
what a drain that hands it out leaves behind. -/
structure HandsOut (limits : Limits) (skips : Xid → Bool) (mark : Option Tso) (e : Engine)
    (batch : List Transaction) (e' : Engine) : Prop where
  /-- The batch holds the registered transactions of all ready keys up to the watermark. -/
  exact : ∀ t, t ∈ batch ↔ e.Allows mark t
  /-- They are in strict order of timestamp and identifier. -/
  ascending : batch.Pairwise fun t u => t.key? < u.key?
  /-- The keys above the watermark are still ready. -/
  waiting : e'.ready.keys = e.ready.keys.filter fun k => mark < some k.tso
  /-- The least of them is shown, if there is one. -/
  first : (∀ k, e'.firstReady? = some k ↔ IsLeast {k | k ∈ e'.ready} k) ∧
    (e'.firstReady? = none ↔ e'.ready.keys = [])
  /-- What has been handed out is no longer registered. -/
  gone : ∀ t ∈ batch, e'.transaction? t.xid = none
  /-- What has been neither handed out nor skipped is registered as before, and nothing else. -/
  kept : ∀ x t, e'.transaction? x = some t ↔
    e.transaction? x = some t ∧ t ∉ batch ∧ ¬ SkipsHead limits skips e x

theorem first_spec (e : Engine) :
    (∀ k, e.firstReady? = some k ↔ IsLeast {k | k ∈ e.ready} k) ∧
      (e.firstReady? = none ↔ e.ready.keys = []) :=
  ⟨fun _ => ReadyQueue.min?_eq_some_iff, List.head?_eq_none_iff⟩

/-- What is ready is allowed in the middle of a drain as it was before: a skip is about an open
transaction. -/
theorem allows_scanned (limits : Limits) (skips : Xid → Bool) (clock : Nat → UInt64)
    (hc : e.Consistent) (mark : Option Tso) :
    (e.scanned limits skips clock).Allows mark t ↔ e.Allows mark t := by
  obtain ⟨_, -, -, -, hready⟩ := scanned_moves limits skips clock hc
  unfold Allows
  rw [hready]
  refine exists_congr fun k => and_congr_right fun hk => and_congr_right fun _ => ?_
  rw [transaction?_scanned]
  exact and_iff_left fun hskip => hc.ready_closed hk hskip.isOpen

theorem drain_handsOut (limits : Limits) (skips : Xid → Bool) (clock : Nat → UInt64)
    (hc : e.Consistent) (hqueue : e.queue ≠ []) :
    HandsOut limits skips (e.scanned limits skips clock).watermark e
      (e.drain limits skips clock).value (e.drain limits skips clock).after := by
  obtain ⟨_, -, hmoves, -, hready⟩ := scanned_moves limits skips clock hc
  have hm := hmoves.consistent hc
  have hvalue := value_drain limits skips clock hqueue
  have hafter := after_drain limits skips clock hqueue
  have hexact : ∀ t, t ∈ (e.drain limits skips clock).value ↔
      e.Allows (e.scanned limits skips clock).watermark t := by
    intro t
    rw [hvalue, mem_emit hm, allows_scanned limits skips clock hc]
  have hkept : ∀ x t, (e.drain limits skips clock).after.transaction? x = some t ↔
      e.transaction? x = some t ∧ t ∉ (e.drain limits skips clock).value ∧
        ¬ SkipsHead limits skips e x := by
    intro x t
    rw [hafter, hvalue]
    show (e.scanned limits skips clock).emit.after.transaction? x = some t ↔ _
    rw [transaction?_emit hm, transaction?_scanned, and_assoc, and_comm (a := ¬ _)]
  refine ⟨hexact, drain_ascending hc, ?_, first_spec _, ?_, hkept⟩
  · rw [hafter, ← ReadyQueue.keys_beyond, ← hready]
    rfl
  · intro t ht
    obtain ⟨k, -, -, hk⟩ := (hexact t).1 ht
    refine Option.eq_none_iff_forall_ne_some.2 fun u hu => ?_
    obtain ⟨hknown, hwaits, -⟩ := (hkept _ u).1 hu
    rw [hc.own hk, hk] at hknown
    cases hknown
    exact hwaits ht

/-- With nothing ready there is nothing to hand out. -/
theorem Idle.handsOut (hidle : e.Idle) (mark : Option Tso) :
    HandsOut limits skips mark e [] e := by
  have hready : ∀ k, k ∉ e.ready := List.eq_nil_iff_forall_not_mem.1 hidle.ready
  have hknown : ∀ x, e.transaction? x = none := by
    intro x
    simp [transaction?, Registry.get?, hidle.registered]
  refine ⟨?_, .nil, by simp [hidle.ready], first_spec e, by simp, by simp [hknown]⟩
  intro t
  refine iff_of_false List.not_mem_nil ?_
  rintro ⟨k, hk, -⟩
  exact hready k hk

theorem scanned_of_queue_nil (limits : Limits) (skips : Xid → Bool) (clock : Nat → UInt64)
    (hqueue : e.queue = []) : e.scanned limits skips clock = e := by
  simp only [scanned, skipStuckHead_of_queue_nil limits skips hqueue, scan, hqueue, Scan.of]
  rw [← hqueue]

/-- The watermark that a drain leaves is the one after its scan. -/
theorem watermark_drain (limits : Limits) (skips : Xid → Bool) (clock : Nat → UInt64)
    (e : Engine) :
    (e.drain limits skips clock).after.watermark = (e.scanned limits skips clock).watermark := by
  by_cases hqueue : e.queue = []
  · rw [drain_of_queue_nil limits skips clock hqueue,
      scanned_of_queue_nil limits skips clock hqueue]
  · rw [after_drain limits skips clock hqueue]
    rfl

theorem handsOut_reached (limits : Limits) (steps : List Step) (skips : Xid → Bool)
    (clock : Nat → UInt64) :
    HandsOut limits skips ((reached limits steps).scanned limits skips clock).watermark
      (reached limits steps) ((reached limits steps).drain limits skips clock).value
      ((reached limits steps).drain limits skips clock).after := by
  have hc := consistent_reached limits steps
  by_cases hqueue : (reached limits steps).queue = []
  · rw [drain_of_queue_nil limits skips clock hqueue]
    exact ((anchored_reached limits steps).idle hc hqueue).handsOut _
  · exact drain_handsOut limits skips clock hc hqueue

/-- What may be handed out decides the batch, order included. -/
theorem HandsOut.batch_eq {limits' : Limits} {skips' : Xid → Bool} {mark mark' : Option Tso}
    {f e' f' : Engine} {batch batch' : List Transaction}
    (h : HandsOut limits skips mark e batch e') (h' : HandsOut limits' skips' mark' f batch' f')
    (hsame : ∀ t, e.Allows mark t ↔ f.Allows mark' t) : batch = batch' := by
  refine eq_of_perm_of_ascending ?_ h.ascending h'.ascending
  refine (List.perm_ext_iff_of_nodup (nodup_of_ascending h.ascending)
    (nodup_of_ascending h'.ascending)).2 fun t => ?_
  rw [h.exact, h'.exact, hsame]

/-- Every drain of every run hands out exactly the registered transactions of the ready keys up to
its watermark, in strict order of timestamp and identifier, and leaves all the others but one that it
skips as they are. So the batch does not depend on the order in which its transactions were
committed: drains of any two runs that are allowed to hand out the same transactions hand them out
in the same order. -/
theorem run_hands_out_exactly (limits : Limits) (steps : List Step) (skips : Xid → Bool)
    (clock : Nat → UInt64) :
    ((reached limits steps).drain limits skips clock).after.watermark =
        ((reached limits steps).scanned limits skips clock).watermark ∧
    HandsOut limits skips ((reached limits steps).scanned limits skips clock).watermark
      (reached limits steps) ((reached limits steps).drain limits skips clock).value
      ((reached limits steps).drain limits skips clock).after ∧
    ∀ limits' steps' skips' clock',
      (∀ t, (reached limits steps).Allows
          ((reached limits steps).scanned limits skips clock).watermark t ↔
        (reached limits' steps').Allows
          ((reached limits' steps').scanned limits' skips' clock').watermark t) →
      ((reached limits steps).drain limits skips clock).value =
        ((reached limits' steps').drain limits' skips' clock').value := by
  have hhands := handsOut_reached limits steps skips clock
  refine ⟨watermark_drain limits skips clock _, hhands, ?_⟩
  intro limits' steps' skips' clock' hsame
  exact hhands.batch_eq (handsOut_reached limits' steps' skips' clock') hsame

/-- A run that commits three transactions, two of them with the same timestamp, in the given order.
-/
def committingRun (xids : List Xid) : List Step :=
  [⟨"a"⟩, ⟨"b"⟩, ⟨"c"⟩].map (fun x => .push (fun _ => false) true (.prewrite { xid := x })) ++
    xids.map fun x =>
      .push (fun _ => false) true (.commit x (some (.ofTime (if x = ⟨"c"⟩ then 4 else 5))))

theorem committingRun_hands_out_exactly :
    ((reached {} (committingRun [⟨"b"⟩, ⟨"c"⟩, ⟨"a"⟩])).drain {} (fun _ => false)
        fun _ => 0).value.map Transaction.xid = [⟨"c"⟩, ⟨"a"⟩, ⟨"b"⟩] ∧
      ((reached {} (committingRun [⟨"b"⟩, ⟨"c"⟩, ⟨"a"⟩])).drain {} (fun _ => false)
          fun _ => 0).value =
        ((reached {} (committingRun [⟨"a"⟩, ⟨"b"⟩, ⟨"c"⟩])).drain {} (fun _ => false)
          fun _ => 0).value := by
  refine ⟨by decide, ?_⟩
  refine (run_hands_out_exactly {} (committingRun [⟨"b"⟩, ⟨"c"⟩, ⟨"a"⟩]) _ _).2.2 _ _ _ _ ?_
  intro t
  rw [allows_iff, allows_iff]
  exact iff_of_eq (congrArg (t ∈ ·) (by decide))

end Engine

end ShardMerge
