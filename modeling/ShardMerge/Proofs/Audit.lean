import ShardMerge.Proofs.Epoch
import ShardMerge.Proofs.Journal
import ShardMerge.Proofs.LifeCycle
import ShardMerge.Proofs.Reports

/-!
# The audit trail

The audit trail reports each skip of the head of the queue. A drain that skips the head reports it
once, but a drain also reports a skip when the transaction of the head has been committed and is
left to drain normally (`Audits`). So the trail of an epoch agrees with what was skipped exactly if
no drain has found such a head (`run_audits_skips`); otherwise it tells of more.
-/

namespace ShardMerge

/-- The identifier that the audit trail reports as skipped at the head of the queue. -/
def Event.audited? : Event → Option Xid
  | headSkipped x => some x
  | _ => none

/-- What the audit trail reports as skipped, in order. -/
def audited (events : List Event) : List Xid :=
  events.filterMap Event.audited?

/-- The transactions that have been skipped in a history, in order. -/
def skippedIn (h : List Happening) : List Transaction :=
  h.filterMap Happening.skipped?

@[simp] theorem audited_append (events events' : List Event) :
    audited (events ++ events') = audited events ++ audited events' :=
  List.filterMap_append

@[simp] theorem skippedIn_nil : skippedIn [] = [] :=
  rfl

@[simp] theorem skippedIn_cons (a : Happening) (h : List Happening) :
    skippedIn (a :: h) = a.skipped?.toList ++ skippedIn h := by
  cases a <;> rfl

@[simp] theorem skippedIn_append (h h' : List Happening) :
    skippedIn (h ++ h') = skippedIn h ++ skippedIn h' :=
  List.filterMap_append

@[simp] theorem skippedIn_map_skipped (ts : List Transaction) :
    skippedIn (ts.map .skipped) = ts := by
  rw [skippedIn, List.filterMap_map]
  exact List.filterMap_some

@[simp] theorem skippedIn_map_emitted (ts : List Transaction) :
    skippedIn (ts.map .emitted) = [] := by
  rw [skippedIn, List.filterMap_map]
  exact List.filterMap_eq_nil_iff.2 fun _ _ => rfl

namespace Engine

variable {limits : Limits} {skips : Xid → Bool} {clock : Nat → UInt64} {e : Engine}

/-- How the audit reports of a drain relate to what it skips. -/
inductive Audits (limits : Limits) (skips : Xid → Bool) (e e' : Engine) : List Xid → Prop where
  /-- The open transaction of the head is skipped, and this is reported once. -/
  | skipped {x : Xid} {t : Transaction} (head : SkipsHead limits skips e x)
      (known : e.transaction? x = some t) (gone : e'.transaction? x = none)
      (moved : e'.skipped = e.skipped ++ [t.release])
      (counted : e'.totals.skipped = e.totals.skipped + 1) : Audits limits skips e e' [x]
  /-- A skip is reported, but none is made: the head has no open transaction. -/
  | spurious {x : Xid} (head : ListsHead limits skips e x) (closed : x ∉ e.pending)
      (kept : e'.skipped = e.skipped) (counted : e'.totals.skipped = e.totals.skipped) :
      Audits limits skips e e' [x]
  /-- No skip is reported, and none is made. -/
  | silent (unlisted : ∀ x, ¬ ListsHead limits skips e x) (kept : e'.skipped = e.skipped)
      (counted : e'.totals.skipped = e.totals.skipped) : Audits limits skips e e' []

/-- Only looking at the head is reported to the audit trail. -/
theorem audited_drain (limits : Limits) (skips : Xid → Bool) (clock : Nat → UInt64)
    (hc : e.Consistent) :
    audited (e.drain limits skips clock).events =
      audited (e.skipStuckHead limits skips).events := by
  by_cases hqueue : e.queue = []
  · rw [drain_of_queue_nil limits skips clock hqueue, skipStuckHead_of_queue_nil limits skips hqueue]
  · obtain ⟨_, -, hmoves, -⟩ := scanned_moves limits skips clock hc
    have hscan : audited
        ((e.skipStuckHead limits skips).after.scan limits.scanBudget clock).events = [] := by
      refine List.filterMap_eq_nil_iff.2 fun a ha => ?_
      rcases mem_events_scan ha with ⟨x, tso, rest, rfl, -⟩ | ⟨spent, rfl, -⟩
      · rfl
      · rfl
    have hemit : audited (e.scanned limits skips clock).emit.events = [] := by
      rw [events_emit (hmoves.consistent hc)]
      simp [audited, Event.audited?]
    have hdeliver : ∀ (batch : List Transaction) (e : Engine),
        audited (e.deliver batch).events = [] := by
      intro batch e
      unfold deliver
      split <;> split <;> rfl
    rw [events_drain limits skips clock hqueue, audited_append, audited_append, audited_append,
      hscan, hemit, hdeliver]
    simp only [List.append_nil]

/-- Looking at the head is all that a drain has to do with skips. -/
theorem skipped_drain (limits : Limits) (skips : Xid → Bool) (clock : Nat → UInt64) (e : Engine) :
    (e.drain limits skips clock).after.skipped = (e.skipStuckHead limits skips).after.skipped ∧
      (e.drain limits skips clock).after.pending = (e.skipStuckHead limits skips).after.pending ∧
      (e.drain limits skips clock).after.totals.skipped =
        (e.skipStuckHead limits skips).after.totals.skipped := by
  by_cases hqueue : e.queue = []
  · rw [drain_of_queue_nil limits skips clock hqueue, skipStuckHead_of_queue_nil limits skips hqueue]
    exact ⟨rfl, rfl, rfl⟩
  · rw [after_drain limits skips clock hqueue]
    exact ⟨rfl, rfl, rfl⟩

/-- A drain opens no transaction. -/
theorem mem_pending_of_drain {x : Xid} (hx : x ∈ (e.drain limits skips clock).after.pending) :
    x ∈ e.pending := by
  rw [(skipped_drain limits skips clock e).2.1] at hx
  rcases skipStuckHead_cases limits skips e with ⟨y, hy, heq⟩ | ⟨heq, -⟩
  · simp only [heq, setAside, if_pos hy.isOpen] at hx
    exact List.mem_of_mem_filter hx
  · rwa [heq] at hx

/-- What a drain skips is no longer registered when it is over. -/
theorem SkipsHead.gone {x : Xid} (hx : SkipsHead limits skips e x) (clock : Nat → UInt64)
    (hc : e.Consistent) : (e.drain limits skips clock).after.transaction? x = none := by
  have hafter := (drain_moves limits skips clock hc).consistent hc
  have hready := (drain_keys limits skips clock hc hx.listsHead.ne_nil).2
  have hclosed : x ∉ (e.drain limits skips clock).after.pending := by
    rw [(skipped_drain limits skips clock e).2.1, hx.after_skipStuckHead]
    exact not_mem_pending_setAside x e
  refine Option.eq_none_iff_forall_ne_some.2 fun t ht => ?_
  rcases hafter.open_or_ready ht with hopen | ⟨k, hk, hkx⟩
  · exact hclosed hopen
  · rw [hready] at hk
    exact hc.xid_ne_of_open hx.isOpen ((List.dropWhile_sublist _).subset hk) hkx

/-- A drain reports a skip if the head may be skipped, and skips it if its transaction is open. -/
theorem drain_audits (limits : Limits) (skips : Xid → Bool) (clock : Nat → UInt64)
    (hc : e.Consistent) :
    Audits limits skips e (e.drain limits skips clock).after
      (audited (e.drain limits skips clock).events) := by
  obtain ⟨hskipped, -, hcount⟩ := skipped_drain limits skips clock e
  rw [audited_drain limits skips clock hc]
  rcases events_skipStuckHead limits skips e with ⟨x, hx, hevents⟩ | ⟨hevents, hunlisted⟩
  · rw [hevents]
    rcases skipStuckHead_cases limits skips e with ⟨y, hy, heq⟩ | ⟨heq, hno⟩
    · obtain rfl := hx.eq hy.listsHead
      obtain ⟨t, hknown⟩ := hc.open_known hy.isOpen
      rw [heq, setAside_of_open hy.isOpen hknown] at hskipped hcount
      exact .skipped hy hknown (hy.gone clock hc) hskipped hcount
    · have hclosed : x ∉ e.pending := fun hopen => hno x ⟨hx.long, hx.head, hx.listed, hopen⟩
      rw [heq] at hskipped hcount
      exact .spurious hx hclosed hskipped hcount
  · rw [hevents]
    rcases skipStuckHead_cases limits skips e with ⟨x, hx, -⟩ | ⟨heq, -⟩
    · exact absurd hx.listsHead (hunlisted x)
    · rw [heq] at hskipped hcount
      exact .silent hunlisted hskipped hcount

/-! ## The trail of an epoch -/

/-- The transaction of a head that a drain may skip is open. -/
def HeadOpen (limits : Limits) (e : Engine) (s : Step) : Prop :=
  ∀ skips clock x, s = .drain skips clock → ListsHead limits skips e x → x ∈ e.pending

/-- An operation reports all that it skips, and nothing else if the head is open, and counts what it
skips. -/
structure Trails (limits : Limits) (e : Engine) (s : Step) : Prop where
  complete : ((skippedIn (e.happenings limits s)).map Transaction.xid).Sublist
    (audited (e.step limits s).events)
  sound : audited (e.step limits s).events =
    (skippedIn (e.happenings limits s)).map Transaction.xid ↔ HeadOpen limits e s
  counted : (e.step limits s).after.totals.skipped =
    e.totals.skipped + (skippedIn (e.happenings limits s)).length

/-- An operation that neither skips nor reports a skip leaves the audit trail right, unless it is a
drain. -/
theorem Trails.of_silent {s : Step} (hdrain : ∀ skips clock, s ≠ .drain skips clock)
    (hskipped : skippedIn (e.happenings limits s) = [])
    (haudited : audited (e.step limits s).events = [])
    (hcount : (e.step limits s).after.totals.skipped = e.totals.skipped) : Trails limits e s := by
  refine ⟨?_, ?_, ?_⟩
  · rw [hskipped]
    exact List.nil_sublist _
  · rw [hskipped, haudited]
    exact iff_of_true rfl fun skips clock x heq => absurd heq (hdrain skips clock)
  · rw [hskipped, hcount]
    rfl

theorem audited_push (skips : Xid → Bool) (admitted : Bool) (item : Item) (e : Engine) :
    audited (e.push skips admitted item).events = [] :=
  filterMap_events_push (fun _ => rfl) (fun _ => rfl) skips admitted item e

theorem trails_push (limits : Limits) (skips : Xid → Bool) (admitted : Bool) (item : Item)
    (e : Engine) : Trails limits e (.push skips admitted item) := by
  refine .of_silent (by simp) ?_ ?_ ?_
  · exact filterMap_happenings_push (fun _ => rfl) (fun _ _ _ => rfl) skips admitted item e
  · exact audited_push skips admitted item e
  · exact (totals_push skips admitted item e).2.2

/-- What a drain adds to the skipped transactions is what it skips. -/
theorem skippedIn_drain {ts : List Transaction}
    (moved : (e.drain limits skips clock).after.skipped = e.skipped ++ ts) :
    skippedIn (e.happenings limits (.drain skips clock)) = ts := by
  simp [happenings, moved]

theorem skippedIn_drain_of_kept (kept : (e.drain limits skips clock).after.skipped = e.skipped) :
    skippedIn (e.happenings limits (.drain skips clock)) = [] :=
  skippedIn_drain (by rw [kept, List.append_nil])

theorem trails_drain (limits : Limits) (skips : Xid → Bool) (clock : Nat → UInt64)
    (hc : e.Consistent) : Trails limits e (.drain skips clock) := by
  have haudits := drain_audits limits skips clock hc
  have hevents : audited (e.step limits (.drain skips clock)).events =
    audited (e.drain limits skips clock).events := rfl
  generalize audited (e.drain limits skips clock).events = xs at haudits hevents
  cases haudits with
  | @skipped x t head known gone moved counted =>
    have hskipped := skippedIn_drain moved
    have hxid : [t.release].map Transaction.xid = [x] := by simp [hc.own known]
    refine ⟨?_, ?_, ?_⟩
    · rw [hskipped, hevents, hxid]
    · rw [hskipped, hevents, hxid]
      refine iff_of_true rfl ?_
      rintro _ _ y ⟨⟩ hy
      exact head.listsHead.eq hy ▸ head.isOpen
    · rw [hskipped]
      exact counted
  | @spurious x head closed kept counted =>
    have hskipped := skippedIn_drain_of_kept kept
    refine ⟨?_, ?_, ?_⟩
    · rw [hskipped]
      exact List.nil_sublist _
    · rw [hskipped, hevents]
      exact iff_of_false (List.cons_ne_nil _ _) fun hopen => closed (hopen _ _ x rfl head)
    · rw [hskipped]
      exact counted
  | silent unlisted kept counted =>
    have hskipped := skippedIn_drain_of_kept kept
    refine ⟨?_, ?_, ?_⟩
    · rw [hskipped]
      exact List.nil_sublist _
    · rw [hskipped, hevents]
      refine iff_of_true rfl ?_
      rintro _ _ y ⟨⟩ hy
      exact absurd hy (unlisted y)
    · rw [hskipped]
      exact counted

/-- Every operation but a clear leaves the audit trail complete. -/
theorem trails_step (hc : e.Consistent) {s : Step} (hs : s ≠ .clear) : Trails limits e s := by
  cases s with
  | push skips admitted item => exact trails_push limits skips admitted item e
  | drain skips clock => exact trails_drain limits skips clock hc
  | takeSkipped => exact .of_silent (by simp) rfl rfl rfl
  | clear => exact absurd rfl hs

/-- No drain finds a head that may be skipped and whose transaction is not open. -/
def HeadsOpen (limits : Limits) (steps : List Step) : Prop :=
  ∀ before s after, steps = before ++ s :: after → HeadOpen limits (reached limits before) s

theorem headsOpen_concat_iff {steps : List Step} {s : Step} :
    HeadsOpen limits (steps ++ [s]) ↔
      HeadsOpen limits steps ∧ HeadOpen limits (reached limits steps) s := by
  constructor
  · intro hopen
    exact ⟨fun before s' after heq => hopen before s' (after ++ [s]) (by simp [heq]),
      hopen steps s [] rfl⟩
  · rintro ⟨hbefore, hlast⟩ before s' after heq
    rcases List.eq_nil_or_concat after with rfl | ⟨after, s'', rfl⟩
    · obtain ⟨rfl, hs⟩ := List.append_inj' heq rfl
      exact List.singleton_inj.1 hs ▸ hlast
    · rw [List.concat_eq_append, ← List.cons_append, ← List.append_assoc] at heq
      exact hbefore before s' after (List.append_inj' heq rfl).1

/-- The audit trail of the operations since the last clear reports all that they have skipped, and
nothing else exactly if no drain has found a head whose transaction was not open. -/
structure Trail (limits : Limits) (steps : List Step) : Prop where
  complete : ((skippedIn (history limits steps)).map Transaction.xid).Sublist
    (audited (run limits steps .empty).events)
  sound : audited (run limits steps .empty).events =
    (skippedIn (history limits steps)).map Transaction.xid ↔ HeadsOpen limits steps
  counted : (reached limits steps).totals.skipped = (skippedIn (history limits steps)).length

/-- Two lists are their sublists together exactly if each of them is. -/
theorem append_eq_append_iff_of_sublist {α : Type} {l₁ l₂ k₁ k₂ : List α} (h₁ : k₁.Sublist l₁)
    (h₂ : k₂.Sublist l₂) : l₁ ++ l₂ = k₁ ++ k₂ ↔ l₁ = k₁ ∧ l₂ = k₂ := by
  constructor
  · intro heq
    have hlength := congrArg List.length heq
    have hle₁ := h₁.length_le
    have hle₂ := h₂.length_le
    simp only [List.length_append] at hlength
    exact ⟨(h₁.eq_of_length_le (by omega)).symm, (h₂.eq_of_length_le (by omega)).symm⟩
  · rintro ⟨rfl, rfl⟩
    rfl

theorem Trail.concat {steps : List Step} {s : Step} (ht : Trail limits steps) (hs : s ≠ .clear) :
    Trail limits (steps ++ [s]) := by
  have hstep : Trails limits (reached limits steps) s :=
    trails_step (consistent_reached limits steps) hs
  refine ⟨?_, ?_, ?_⟩
  · rw [history_concat hs, events_run_concat, skippedIn_append, audited_append, List.map_append]
    exact ht.complete.append hstep.complete
  · rw [history_concat hs, events_run_concat, skippedIn_append, audited_append, List.map_append,
      append_eq_append_iff_of_sublist ht.complete hstep.complete, ht.sound, hstep.sound,
      headsOpen_concat_iff]
  · rw [reached_concat, history_concat hs, skippedIn_append, List.length_append, hstep.counted,
      ht.counted]

theorem trail_epoch (limits : Limits) (steps : List Step) : Trail limits (epoch steps) := by
  refine epoch_induction (P := Trail limits) ⟨List.nil_sublist _, ?_, rfl⟩
    (fun _ _ hs ht => ht.concat hs) steps
  exact iff_of_true rfl fun before s after heq => by simp at heq

/-- What an operation reports as skipped is a head that may be skipped, open or not. -/
theorem mem_audited_step_iff (hc : e.Consistent) (s : Step) {x : Xid} :
    x ∈ audited (e.step limits s).events ↔
      ∃ skips clock, s = .drain skips clock ∧ ListsHead limits skips e x := by
  have hsilent : (∀ skips clock, s ≠ .drain skips clock) → audited (e.step limits s).events = [] →
      (x ∈ audited (e.step limits s).events ↔
        ∃ skips clock, s = .drain skips clock ∧ ListsHead limits skips e x) := by
    intro hdrain hnil
    rw [hnil]
    refine iff_of_false List.not_mem_nil ?_
    rintro ⟨skips, clock, heq, -⟩
    exact hdrain skips clock heq
  cases s with
  | push skips admitted item => exact hsilent (by simp) (audited_push skips admitted item e)
  | drain skips clock =>
    have haudits := drain_audits limits skips clock hc
    show x ∈ audited (e.drain limits skips clock).events ↔ _
    generalize audited (e.drain limits skips clock).events = xs at haudits
    constructor
    · intro hx
      cases haudits with
      | skipped head => exact ⟨skips, clock, rfl, List.mem_singleton.1 hx ▸ head.listsHead⟩
      | spurious head => exact ⟨skips, clock, rfl, List.mem_singleton.1 hx ▸ head⟩
      | silent => cases hx
    · rintro ⟨_, _, ⟨⟩, hx⟩
      cases haudits with
      | skipped head => exact List.mem_singleton.2 (hx.eq head.listsHead)
      | spurious head => exact List.mem_singleton.2 (hx.eq head)
      | silent unlisted => exact absurd hx (unlisted x)
  | takeSkipped => exact hsilent (by simp) rfl
  | clear => exact hsilent (by simp) rfl

/-- A drain reports a skip exactly if the head may be skipped, and then makes it exactly if the
transaction of the head is open. So the audit trail of an epoch holds all skips in their order, and
nothing else, in particular as many reports as skips are counted, exactly if no drain has found a
head that may be skipped and is not open. -/
theorem run_audits_skips (limits : Limits) (steps : List Step) :
    (∀ s x, x ∈ audited ((reached limits steps).step limits s).events ↔
      ∃ skips clock, s = .drain skips clock ∧ ListsHead limits skips (reached limits steps) x) ∧
    (∀ skips clock, Audits limits skips (reached limits steps)
      ((reached limits steps).drain limits skips clock).after
      (audited ((reached limits steps).drain limits skips clock).events)) ∧
    ((skippedIn (history limits steps)).map Transaction.xid).Sublist
      (audited (run limits (epoch steps) .empty).events) ∧
    (audited (run limits (epoch steps) .empty).events =
      (skippedIn (history limits steps)).map Transaction.xid ↔ HeadsOpen limits (epoch steps)) ∧
    ((audited (run limits (epoch steps) .empty).events).length =
      (reached limits steps).totals.skipped ↔ HeadsOpen limits (epoch steps)) := by
  have hc := consistent_reached limits steps
  obtain ⟨hcomplete, hsound, hcount⟩ := trail_epoch limits steps
  rw [(history_epoch limits steps).1] at hcomplete hsound hcount
  rw [(history_epoch limits steps).2] at hcount
  refine ⟨fun s x => mem_audited_step_iff hc s, fun skips clock => drain_audits limits skips clock hc,
    hcomplete, hsound, ?_⟩
  rw [← hsound, hcount, ← List.length_map (f := Transaction.xid)]
  exact ⟨fun hlength => (hcomplete.eq_of_length hlength.symm).symm, congrArg List.length⟩

/-- A run that ends with a drain whose head may be skipped, but has been committed. -/
def committedHeadRun : List Step :=
  [.push (fun _ => false) true (.prewrite { xid := ⟨"a"⟩, tso := some (.ofTime 4) }),
    .push (fun _ => false) true (.commit ⟨"a"⟩ none),
    .drain (· = ⟨"a"⟩) (fun _ => 0)]

/-- The audit trail may report a skip that no drain has made, of a transaction that the same drain
hands out. -/
theorem not_forall_audited_skipped :
    (¬ ∀ (limits : Limits) (steps : List Step) (skips : Xid → Bool) (clock : Nat → UInt64)
        (x : Xid), x ∈ audited ((reached limits steps).drain limits skips clock).events →
        ∃ t, (reached limits steps).transaction? x = some t ∧
          ((reached limits steps).drain limits skips clock).after.skipped =
            (reached limits steps).skipped ++ [t.release]) ∧
      ¬ ∀ (limits : Limits) (steps : List Step),
        (audited (run limits (epoch steps) .empty).events).length =
          (reached limits steps).totals.skipped := by
  constructor
  · intro hmoved
    obtain ⟨t, -, hskipped⟩ := hmoved ⟨0, 500⟩ (committedHeadRun.take 2) (· = ⟨"a"⟩) (fun _ => 0)
      ⟨"a"⟩ (by decide)
    have hnone : ((reached ⟨0, 500⟩ (committedHeadRun.take 2)).drain ⟨0, 500⟩ (· = ⟨"a"⟩)
        (fun _ => 0)).after.skipped = [] := by decide
    exact absurd (hnone.symm.trans hskipped) (by simp)
  · intro hcount
    exact absurd (hcount ⟨0, 500⟩ committedHeadRun) (by decide)

end Engine

end ShardMerge
