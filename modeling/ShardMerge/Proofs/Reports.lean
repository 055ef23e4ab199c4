import ShardMerge.Proofs.Scan
import ShardMerge.Proofs.Steps

/-!
# What operations report

A push reports an excused commit or the first item of an epoch, and nothing else
(`mem_events_push`). The reports of a drain are those of its parts in their order (`events_drain`),
and `DrainReports` lists all that can be among them, each with the condition under which it is made.
A skip of the head is reported when the head may be skipped (`ListsHead`), and a regression when the
batch starts below the last key that was handed out.
-/

namespace ShardMerge

namespace Engine

variable {limits : Limits} {e : Engine} {skips : Xid → Bool} {clock : Nat → UInt64}

/-- A push reports an excused commit and the first item of an epoch, and nothing else. -/
theorem mem_events_push {admitted : Bool} {item : Item} {a : Event}
    (ha : a ∈ (e.push skips admitted item).events) :
    (∃ x, a = .commitExcused x) ∨ a = .firstReceived item.signal := by
  cases hsettle : e.settle skips admitted item with
  | error refusal => simp [push, hsettle] at ha
  | ok result =>
    simp only [push, hsettle, pushEvents] at ha
    rcases List.mem_append.1 ha with hexcused | hfirst
    · split at hexcused
      next x _ => exact Or.inl ⟨x, List.mem_singleton.1 hexcused⟩
      next => cases hexcused
    · split at hfirst
      next => exact Or.inr (List.mem_singleton.1 hfirst)
      next => cases hfirst

/-- What an excused commit and a first item do not show is not shown by what a push reports. -/
theorem filterMap_events_push {α : Type} {f : Event → Option α}
    (excused : ∀ x, f (.commitExcused x) = none) (first : ∀ s, f (.firstReceived s) = none)
    (skips : Xid → Bool) (admitted : Bool) (item : Item) (e : Engine) :
    (e.push skips admitted item).events.filterMap f = [] := by
  refine List.filterMap_eq_nil_iff.2 fun a ha => ?_
  rcases mem_events_push ha with ⟨x, rfl⟩ | rfl
  · exact excused x
  · exact first _

/-- The head of the arrival queue is a prewrite that may be skipped, open or not, and the queue is
long enough for a skip. -/
structure ListsHead (limits : Limits) (skips : Xid → Bool) (e : Engine) (x : Xid) : Prop where
  long : limits.skipThreshold.toNat < e.queue.length
  head : ∃ tso rest, e.queue = ⟨.prewrite, x, tso⟩ :: rest
  listed : skips x = true

theorem SkipsHead.listsHead {x : Xid} (h : SkipsHead limits skips e x) :
    ListsHead limits skips e x :=
  ⟨h.long, h.head, h.listed⟩

theorem ListsHead.ne_nil {x : Xid} (h : ListsHead limits skips e x) : e.queue ≠ [] := by
  obtain ⟨tso, rest, hqueue⟩ := h.head
  simp [hqueue]

/-- There is one head only. -/
theorem ListsHead.eq {x y : Xid} (hx : ListsHead limits skips e x)
    (hy : ListsHead limits skips e y) : x = y := by
  obtain ⟨tso, rest, hqueue⟩ := hx.head
  obtain ⟨tso', rest', hqueue'⟩ := hy.head
  cases hqueue.symm.trans hqueue'
  rfl

/-- A head that is to be skipped is set aside. -/
theorem SkipsHead.after_skipStuckHead {x : Xid} (hx : SkipsHead limits skips e x) :
    (e.skipStuckHead limits skips).after = e.setAside x := by
  rcases skipStuckHead_cases limits skips e with ⟨y, hy, heq⟩ | ⟨-, hno⟩
  · rw [heq, hx.listsHead.eq hy.listsHead]
  · exact absurd hx (hno x)

/-- A skip of the head is reported exactly if the head may be skipped. -/
theorem events_skipStuckHead (limits : Limits) (skips : Xid → Bool) (e : Engine) :
    (∃ x, ListsHead limits skips e x ∧
      (e.skipStuckHead limits skips).events = [.headListed x, .headSkipped x]) ∨
    (e.skipStuckHead limits skips).events = [] ∧ ∀ x, ¬ ListsHead limits skips e x := by
  unfold skipStuckHead
  split
  next hlong =>
    unfold skipHead
    split
    next x tso rest hqueue =>
      split
      next hskips => exact Or.inl ⟨x, ⟨hlong, ⟨tso, rest, hqueue⟩, hskips⟩, rfl⟩
      next hskips =>
        refine Or.inr ⟨rfl, ?_⟩
        rintro y ⟨-, ⟨tso', rest', hy⟩, hlisted⟩
        cases hqueue.symm.trans hy
        exact hskips hlisted
    next hno =>
      refine Or.inr ⟨rfl, ?_⟩
      rintro x ⟨-, ⟨tso, rest, hqueue⟩, -⟩
      exact hno x tso rest hqueue
  next hshort => exact Or.inr ⟨rfl, fun x hx => hshort hx.long⟩

/-- A scan reports only why it ended: it came to an open prewrite, or its time was used up. -/
theorem mem_events_scan {e : Engine} {budget : UInt64} {clock : Nat → UInt64} {a : Event}
    (ha : a ∈ (e.scan budget clock).events) :
    (∃ x tso rest, a = .notReady x ∧
      (e.scan budget clock).after.queue = ⟨.prewrite, x, tso⟩ :: rest ∧ x ∈ e.pending) ∨
    ∃ spent, a = .budgetExhausted spent (e.scan budget clock).after.queue.length ∧
      budget.toNat < spent := by
  have hreason := Scan.reason_cases e.pending budget.toNat
    (fun n => (clock n).toNat - (clock 0).toNat) e.queue e.watermark 0
  simp only [scan, Scan.events] at ha ⊢
  rcases hreason with ⟨hend, -⟩ | ⟨x, tso, rest, hend, hqueue, hopen⟩ | ⟨spent, hend, hover⟩
  · simp [hend] at ha
  · rw [hend] at ha
    exact Or.inl ⟨x, tso, rest, List.mem_singleton.1 ha, hqueue, hopen⟩
  · rw [hend] at ha
    exact Or.inr ⟨spent, List.mem_singleton.1 ha, hover⟩

/-- A drain reports what it does in the order in which it does it. -/
theorem events_drain (limits : Limits) (skips : Xid → Bool) (clock : Nat → UInt64)
    (hqueue : e.queue ≠ []) :
    (e.drain limits skips clock).events =
      (e.skipStuckHead limits skips).events ++
        (((e.skipStuckHead limits skips).after.scan limits.scanBudget clock).events ++
          ((e.scanned limits skips clock).emit.events ++
            ((e.scanned limits skips clock).emit.after.deliver
              (e.drain limits skips clock).value).events)) := by
  rw [value_drain limits skips clock hqueue]
  simp only [drain, List.isEmpty_iff, hqueue]
  rfl

@[simp] theorem lastEmitted_setAside (x : Xid) (e : Engine) :
    (e.setAside x).lastEmitted = e.lastEmitted := by
  unfold setAside
  split <;> rfl

/-- Up to the middle of a drain, nothing is booked as handed out. -/
theorem lastEmitted_scanned (limits : Limits) (skips : Xid → Bool) (clock : Nat → UInt64)
    (e : Engine) : (e.scanned limits skips clock).lastEmitted = e.lastEmitted := by
  show (e.skipStuckHead limits skips).after.lastEmitted = e.lastEmitted
  rcases skipStuckHead_cases limits skips e with ⟨x, -, heq⟩ | ⟨heq, -⟩
  · rw [heq, lastEmitted_setAside]
  · rw [heq]

/-- What a drain may report. -/
inductive DrainReports (limits : Limits) (skips : Xid → Bool) (clock : Nat → UInt64) (e : Engine) :
    Event → Prop where
  | listed {x : Xid} (head : ListsHead limits skips e x) :
      DrainReports limits skips clock e (.headListed x)
  | skipped {x : Xid} (head : ListsHead limits skips e x) :
      DrainReports limits skips clock e (.headSkipped x)
  | blocked {x : Xid} {tso : Option Tso} {rest : List Signal}
      (stopped : (e.drain limits skips clock).after.queue = ⟨.prewrite, x, tso⟩ :: rest)
      (isOpen : x ∈ (e.drain limits skips clock).after.pending) :
      DrainReports limits skips clock e (.notReady x)
  | cut {spent : Nat} (exceeded : limits.scanBudget.toNat < spent) :
      DrainReports limits skips clock e
        (.budgetExhausted spent (e.drain limits skips clock).after.queue.length)
  | released {t : Transaction} (inBatch : t ∈ (e.drain limits skips clock).value) :
      DrainReports limits skips clock e (.released t)
  | regressed
      (unordered : emissionOrdered e.lastEmitted (e.drain limits skips clock).value = false) :
      DrainReports limits skips clock e (.regressed e.lastEmitted)
  | drained : DrainReports limits skips clock e (.drained (e.drain limits skips clock).value.length)

theorem drainReports_of_mem_events (hc : e.Consistent) {a : Event}
    (ha : a ∈ (e.drain limits skips clock).events) : DrainReports limits skips clock e a := by
  by_cases hqueue : e.queue = []
  · simp [drain_of_queue_nil limits skips clock hqueue] at ha
  · obtain ⟨_, -, hmoves, -⟩ := scanned_moves limits skips clock hc
    rw [events_drain limits skips clock hqueue] at ha
    simp only [List.mem_append] at ha
    rcases ha with hhead | hscan | hemit | hdeliver
    · rcases events_skipStuckHead limits skips e with ⟨x, hx, heq⟩ | ⟨heq, -⟩
      · rw [heq] at hhead
        rcases List.mem_cons.1 hhead with rfl | hhead
        · exact .listed hx
        · rw [List.mem_singleton.1 hhead]
          exact .skipped hx
      · simp [heq] at hhead
    · have hafter : (e.drain limits skips clock).after.queue =
            ((e.skipStuckHead limits skips).after.scan limits.scanBudget clock).after.queue ∧
          (e.drain limits skips clock).after.pending =
            (e.skipStuckHead limits skips).after.pending := by
        rw [after_drain limits skips clock hqueue]
        exact ⟨rfl, rfl⟩
      rcases mem_events_scan hscan with ⟨x, tso, rest, rfl, hstopped, hopen⟩ | ⟨spent, rfl, hover⟩
      · exact .blocked (hafter.1.trans hstopped) (hafter.2 ▸ hopen)
      · rw [← hafter.1]
        exact .cut hover
    · rw [events_emit (hmoves.consistent hc), ← value_drain limits skips clock hqueue] at hemit
      obtain ⟨t, ht, rfl⟩ := List.mem_map.1 hemit
      exact .released ht
    · have hlast : (e.scanned limits skips clock).emit.after.lastEmitted = e.lastEmitted :=
        lastEmitted_scanned limits skips clock e
      rcases List.mem_append.1 hdeliver with hregressed | hdrained
      · rw [hlast] at hregressed
        split at hregressed
        next => cases hregressed
        next hunordered =>
          rw [List.mem_singleton.1 hregressed]
          exact .regressed (Bool.eq_false_iff.2 hunordered)
      · split at hdrained
        next => cases hdrained
        next =>
          rw [List.mem_singleton.1 hdrained]
          exact .drained

/-- A drain reports a regression if its batch is not in order. -/
theorem regressed_mem_events (limits : Limits) (skips : Xid → Bool) (clock : Nat → UInt64)
    (hunordered : emissionOrdered e.lastEmitted (e.drain limits skips clock).value = false) :
    .regressed e.lastEmitted ∈ (e.drain limits skips clock).events := by
  by_cases hqueue : e.queue = []
  · rw [drain_of_queue_nil limits skips clock hqueue] at hunordered
    exact absurd hunordered (by simp [emissionOrdered, ascendsFrom])
  · have hlast : (e.scanned limits skips clock).emit.after.lastEmitted = e.lastEmitted :=
      lastEmitted_scanned limits skips clock e
    rw [events_drain limits skips clock hqueue]
    simp [deliver, hlast, hunordered]

end Engine

end ShardMerge
