import ShardMerge.Proofs.Audit
import ShardMerge.Proofs.Progress

/-!
# Whose prewrite is queued

A scan and a look at the head of the queue know a prewrite by its identifier only, and identifiers
are re-used. A transaction that is handed out ahead of its own signals leaves a prewrite in the
queue which is taken for the one of the next transaction of the same identifier. So a queued
prewrite stands for the open transaction of its identifier exactly if its own transaction is not
over (`beginsOwn_iff_not_stale`).

In a causal epoch no transaction is handed out ahead of its own signals: it has a timestamp above
all commits before its prewrite, and the watermark has not (`bounded_reached`). And a transaction
that is skipped is at the head, so that the same drain takes its prewrite off the queue. Hence there
are no stale prewrites, and scans and skips are about the transactions that they find
(`run_signals_own`).
-/

namespace ShardMerge

/-- Two cuts of one list: one is further left, or they are the same. -/
theorem cut_cases {α : Type} {l₁ l₂ r₁ r₂ : List α} {a₁ a₂ : α}
    (h : l₁ ++ a₁ :: r₁ = l₂ ++ a₂ :: r₂) :
    (∃ between, r₁ = between ++ a₂ :: r₂) ∨ (l₁ = l₂ ∧ a₁ = a₂ ∧ r₁ = r₂) ∨
      ∃ between, r₂ = between ++ a₁ :: r₁ := by
  rcases List.append_eq_append_iff.1 h with ⟨between, hl, hr⟩ | ⟨between, hl, hr⟩
  · cases between with
    | nil =>
      obtain ⟨ha, hr⟩ := List.cons.inj hr
      exact Or.inr (Or.inl ⟨by simpa using hl.symm, ha, hr⟩)
    | cons b between =>
      obtain ⟨-, hr⟩ := List.cons.inj hr
      exact Or.inl ⟨between, hr⟩
  · cases between with
    | nil =>
      obtain ⟨ha, hr⟩ := List.cons.inj hr
      exact Or.inr (Or.inl ⟨by simpa using hl, ha.symm, hr.symm⟩)
    | cons b between =>
      obtain ⟨-, hr⟩ := List.cons.inj hr
      exact Or.inr (Or.inr ⟨between, hr⟩)

/-! ## What follows a prewrite -/

/-- A prewritten transaction is over: it has been committed and handed out, or skipped, before
anything else happened to its identifier. -/
inductive Ends (t : Transaction) : List Happening → Prop where
  | emitted {given : Option Tso} {tso : Tso} {later : List Happening}
      (timed : given.or t.tso = some tso) :
      Ends t (.committed t.xid given tso :: .emitted (t.withTso tso) :: later)
  | skipped {later : List Happening} : Ends t (.skipped t.release :: later)

theorem Ends.append {t : Transaction} {life : List Happening} (he : Ends t life)
    (later : List Happening) : Ends t (life ++ later) := by
  cases he with
  | emitted timed => exact .emitted timed
  | skipped => exact .skipped

/-- Every transaction that is prewritten is over. -/
def Finished (word : List Happening) : Prop :=
  ∀ before t after, word = before ++ .prewritten t :: after → Ends t after

/-- One word after the other is finished if both are. -/
theorem Finished.append {word word' : List Happening} (hw : Finished word)
    (hw' : Finished word') : Finished (word ++ word') := by
  intro before t after heq
  rcases List.append_eq_append_iff.1 heq with ⟨between, -, hr⟩ | ⟨between, hl, hr⟩
  · exact hw' between t after hr
  · cases between with
    | nil => exact hw' [] t after hr.symm
    | cons b between =>
      obtain ⟨rfl, rfl⟩ := List.cons.inj hr
      exact (hw before t between hl).append word'

/-- A word with a single prewrite at its beginning is finished if that transaction is over. -/
theorem finished_cons {t : Transaction} {life : List Happening} (he : Ends t life)
    (hno : ∀ t', .prewritten t' ∉ life) : Finished (.prewritten t :: life) := by
  intro before t' after heq
  cases before with
  | nil =>
    obtain ⟨ht, rfl⟩ := List.cons.inj heq
    cases ht
    exact he
  | cons b before =>
    obtain ⟨-, hlife⟩ := List.cons.inj heq
    exact absurd (by simp [hlife]) (hno t')

theorem Lives.finished {x : Xid} {word : List Happening} (hl : Lives x word) : Finished word := by
  induction hl with
  | nil =>
    intro before t after heq
    simp at heq
  | emitted before own timed ih =>
    subst own
    exact ih.append (finished_cons (.emitted timed) (by simp))
  | skipped before own ih => exact ih.append (finished_cons .skipped (by simp))

namespace Engine

variable {limits : Limits} {skips : Xid → Bool} {clock : Nat → UInt64} {e e' : Engine}
  {h : List Happening} {x : Xid}

/-- A transaction is over, or it is the one of the life that its identifier leads. -/
theorem LifeCycle.ends_or_leads {before after : List Happening} {t : Transaction}
    (hl : LifeCycle t.xid h e) (hsplit : h = before ++ .prewritten t :: after) :
    Ends t (lifeOf t.xid after) ∨ e.Leads t.xid (.prewritten t :: lifeOf t.xid after) := by
  obtain ⟨past, now, hlife, hpast, hnow⟩ := hl
  have hcons : lifeOf t.xid (.prewritten t :: after) = .prewritten t :: lifeOf t.xid after := by
    simp [lifeOf]
  rw [hsplit, lifeOf_append, hcons] at hlife
  rcases List.append_eq_append_iff.1 hlife with ⟨between, hl, hr⟩ | ⟨between, -, hr⟩
  · cases between with
    | nil =>
      rw [List.nil_append] at hr
      exact Or.inr (hr ▸ hnow)
    | cons b between =>
      obtain ⟨rfl, hafter⟩ := List.cons.inj hr
      rw [hafter]
      exact Or.inl ((hpast.finished _ t between hl).append now)
  · cases between with
    | nil =>
      rw [List.nil_append] at hr
      exact Or.inr (hr ▸ hnow)
    | cons b between =>
      -- a life has one prewrite only, its first happening
      have hmem : .prewritten t ∈ now.tail := by simp [hr]
      cases hnow with
      | absent => simp at hmem
      | opened => simp at hmem
      | ready => simp at hmem

/-! ## Own and stale prewrites -/

/-- A queue begins with the signal by whose prewrite the open transaction of an identifier has been
registered: nothing has happened to it since, and the signals since then make up the queue. -/
def Opens (h : List Happening) (e : Engine) (t : Transaction) (queue : List Signal) : Prop :=
  ∃ before after, h = before ++ .prewritten t :: after ∧ (∀ a ∈ after, a.xid? ≠ some t.xid) ∧
    e.transaction? t.xid = some t ∧ queue = signals (.prewritten t :: after)

/-- A queue begins with the signal of the open transaction of an identifier. -/
def BeginsOwn (h : List Happening) (e : Engine) (x : Xid) (queue : List Signal) : Prop :=
  ∃ t, t.xid = x ∧ Opens h e t queue

/-- A queue begins with a signal whose own transaction is over. -/
def Stale (h : List Happening) (x : Xid) (queue : List Signal) : Prop :=
  ∃ before t after, h = before ++ .prewritten t :: after ∧ t.xid = x ∧
    Ends t (lifeOf x after) ∧ queue = signals (.prewritten t :: after)

/-- Behind the signal of an open transaction there is no other one of its identifier. -/
theorem Opens.xid_ne {t : Transaction} {s : Signal} {rest : List Signal}
    (ho : Opens h e t (s :: rest)) : ∀ s' ∈ rest, s'.xid ≠ t.xid := by
  obtain ⟨before, after, -, hlast, -, hqueue⟩ := ho
  intro s' hs' heq
  obtain ⟨-, rfl⟩ := List.cons.inj hqueue
  obtain ⟨a, ha, hsignal⟩ := mem_signals.1 hs'
  exact hlast a ha (heq ▸ (Happening.signal?_cases hsignal).1)

/-- The queue from the signal of an open transaction on is a part of the queue from any other
prewrite of its identifier on. -/
theorem Opens.suffix {t t' : Transaction} {queue : List Signal} (ho : Opens h e t queue)
    {before after : List Happening} (hsplit : h = before ++ .prewritten t' :: after)
    (hxid : t'.xid = t.xid) : queue <:+ signals (.prewritten t' :: after) := by
  obtain ⟨before₀, after₀, hsplit₀, hlast, -, rfl⟩ := ho
  rcases cut_cases (hsplit₀.symm.trans hsplit) with ⟨between, hafter⟩ | ⟨-, ht, rfl⟩ | ⟨between, rfl⟩
  · exact absurd hxid (by simpa using hlast (.prewritten t') (by simp [hafter]))
  · cases ht
    exact List.suffix_refl _
  · rw [← List.cons_append, signals_append]
    exact List.suffix_append _ _

/-- A queued prewrite is the one of a transaction in the history. -/
theorem Mirrors.prewritten_of_queue (hm : Mirrors h e) {front rest : List Signal}
    {tso : Option Tso} (hqueue : e.queue = front ++ ⟨.prewrite, x, tso⟩ :: rest) :
    ∃ before t after, h = before ++ .prewritten t :: after ∧ t.xid = x ∧
      ⟨.prewrite, x, tso⟩ :: rest = signals (.prewritten t :: after) := by
  obtain ⟨scanned, hsignals, -⟩ := hm
  rw [hqueue, ← List.append_assoc] at hsignals
  obtain ⟨before, tail, rfl, -, htail⟩ := List.filterMap_eq_append_iff.1 hsignals
  obtain ⟨silent, a, after, rfl, -, ha, hrest⟩ := List.filterMap_eq_cons_iff.1 htail
  obtain ⟨-, ⟨t, rfl, heq⟩ | ⟨y, given, own, -, heq⟩⟩ := Happening.signal?_cases ha
  · cases heq
    refine ⟨before ++ silent, t, after, by simp, rfl, ?_⟩
    rw [signals_cons, ← hrest]
    rfl
  · cases heq

/-- The queued prewrite of an open transaction is its own, or it is stale. -/
theorem beginsOwn_or_stale (hc : e.Consistent) (hm : Mirrors h e) (hl : LifeCycle x h e)
    {front rest : List Signal} {tso : Option Tso}
    (hqueue : e.queue = front ++ ⟨.prewrite, x, tso⟩ :: rest) (hopen : x ∈ e.pending) :
    BeginsOwn h e x (⟨.prewrite, x, tso⟩ :: rest) ∨
      Stale h x (⟨.prewrite, x, tso⟩ :: rest) := by
  obtain ⟨before, t, after, hsplit, rfl, heq⟩ := hm.prewritten_of_queue hqueue
  rcases hl.ends_or_leads hsplit with hends | hnow
  · exact Or.inr ⟨before, t, after, hsplit, rfl, hends, heq⟩
  · obtain ⟨t', hknown⟩ := hc.open_known hopen
    obtain ⟨-, hlife⟩ := hnow.eq_prewritten hc hopen hknown
    obtain ⟨heq', hnil⟩ := List.cons.inj hlife
    cases heq'
    have hlast : ∀ a ∈ after, a.xid? ≠ some t.xid := by
      intro a ha hx
      have hmem : a ∈ lifeOf t.xid after := mem_lifeOf.2 ⟨ha, hx⟩
      rw [hnil] at hmem
      cases hmem
    exact Or.inl ⟨t, rfl, before, after, hsplit, hlast, hknown, heq⟩

/-- What is stale is not the signal of an open transaction. -/
theorem Stale.not_beginsOwn {queue : List Signal} (hs : Stale h x queue) :
    ¬ BeginsOwn h e x queue := by
  obtain ⟨before, t', after, hsplit, hown, hends, hqueue⟩ := hs
  rintro ⟨t, hx, before₀, after₀, hsplit₀, hlast, -, hqueue₀⟩
  have hlength := congrArg List.length (hqueue.symm.trans hqueue₀)
  rcases cut_cases (hsplit.symm.trans hsplit₀) with
    ⟨between, rfl⟩ | ⟨-, -, rfl⟩ | ⟨between, rfl⟩
  · rw [← List.cons_append, signals_append, List.length_append] at hlength
    simp at hlength
  · have hnil : lifeOf x after = [] := List.filter_eq_nil_iff.2 fun a ha => by
      simpa [hx] using hlast a ha
    rw [hnil] at hends
    cases hends
  · exact hlast (.prewritten t') (by simp) (by simp [hown, hx])

/-- A queued prewrite stands for the open transaction of its identifier exactly if its own
transaction is not over. -/
theorem beginsOwn_iff_not_stale (hc : e.Consistent) (hm : Mirrors h e) (hl : LifeCycle x h e)
    {front rest : List Signal} {tso : Option Tso}
    (hqueue : e.queue = front ++ ⟨.prewrite, x, tso⟩ :: rest) (hopen : x ∈ e.pending) :
    BeginsOwn h e x (⟨.prewrite, x, tso⟩ :: rest) ↔
      ¬ Stale h x (⟨.prewrite, x, tso⟩ :: rest) := by
  constructor
  · intro hown hs
    exact hs.not_beginsOwn hown
  · intro hs
    exact (beginsOwn_or_stale hc hm hl hqueue hopen).resolve_right hs

/-! ## Causal epochs -/

/-- What has been handed out since a point from which on all signals are queued is bounded by the
commits before that point. -/
def Bounded (h : List Happening) (e : Engine) : Prop :=
  ∀ before after, h = before ++ after → signals after <:+ e.queue →
    ∀ u, .emitted u ∈ after → ∃ tso, u.tso = some tso ∧ WithinCommits before tso

theorem Move.bounded {a : List Happening} (hc : e.Consistent) (hm : Mirrors h e)
    (hb : Bounded h e) (m : Move e a e') : Bounded (h ++ a) e' := by
  intro before after hsplit hqueued u hu
  rcases List.append_eq_append_iff.1 hsplit with ⟨between, rfl, ha⟩ | ⟨between, hh, rfl⟩
  · -- the point is not before the move
    obtain ⟨tso, htso, hle⟩ := m.emitted_le hc (ha ▸ List.mem_append_right between hu)
    obtain ⟨x, given, own, hmem, hown⟩ :=
      hm.within_commits (List.append_nil h).symm List.nil_suffix hle
    exact ⟨tso, htso, x, given, own, List.mem_append_left _ hmem, hown⟩
  · rw [signals_append] at hqueued
    have hbefore : signals between <:+ e.queue :=
      List.suffix_append_self_iff.1 (hqueued.trans m.queue_suffix)
    rcases List.mem_append.1 hu with hu | hu
    · exact hb before between hh hbefore u hu
    · obtain ⟨tso, htso, hle⟩ := m.emitted_le hc hu
      exact ⟨tso, htso, hm.within_commits hh hbefore hle⟩

theorem bounded_reached (limits : Limits) (steps : List Step) :
    Bounded (history limits steps) (reached limits steps) := by
  refine (run_invariant (P := fun h e => Mirrors h e ∧ Bounded h e) ?_ ?_ limits steps).2
  · refine ⟨⟨[], rfl, rfl⟩, fun before after hsplit _ u hu => ?_⟩
    rw [(List.append_eq_nil_iff.1 hsplit.symm).2] at hu
    cases hu
  · intro h e a e' hc hP m
    exact ⟨m.mirrors hP.1, m.bounded hc hP.1 hP.2⟩

/-- In a causal history, a transaction is not handed out as long as its prewrite is queued: it is
committed above all commits before that. -/
theorem Bounded.not_emitted (hb : Bounded h e) (hcausal : Causal h)
    {before after later : List Happening} {t : Transaction} {given : Option Tso} {tso : Tso}
    (hsplit : h = before ++ .prewritten t :: after)
    (hqueued : signals (.prewritten t :: after) <:+ e.queue) :
    lifeOf t.xid after ≠
      .committed t.xid given tso :: .emitted (t.withTso tso) :: later := by
  intro hlife
  have hemitted : .emitted (t.withTso tso) ∈ lifeOf t.xid after := by simp [hlife]
  obtain ⟨tso', htso, x, given', own, hcommit, hle⟩ := hb before _ hsplit hqueued _
    (List.mem_cons_of_mem _ (mem_lifeOf.1 hemitted).1)
  cases htso
  obtain ⟨since, after', rfl, hsince, -, -⟩ := List.filter_eq_cons_iff.1 hlife
  have hlt : own < tso := hcausal before t since given tso after' (by simp [hsplit])
    (by simpa using hsince) x given' own hcommit
  exact absurd hlt (not_lt.2 hle)

/-- What an operation skips is the open transaction of the head of the queue. -/
theorem skipped_mem_happenings (hc : e.Consistent) {s : Step} {u : Transaction}
    (hu : .skipped u ∈ e.happenings limits s) :
    ∃ skips clock t, s = .drain skips clock ∧ SkipsHead limits skips e u.xid ∧
      e.transaction? u.xid = some t ∧ u = t.release := by
  cases s with
  | push skips admitted item =>
    rcases mem_happenings_push hu with ⟨t, heq⟩ | ⟨x, given, tso, heq⟩
    · cases heq
    · cases heq
  | drain skips clock =>
    have hmem : u ∈ skippedIn (e.happenings limits (.drain skips clock)) :=
      List.mem_filterMap.2 ⟨_, hu, rfl⟩
    have haudits := drain_audits limits skips clock hc
    generalize audited (e.drain limits skips clock).events = xs at haudits
    cases haudits with
    | @skipped x t head known gone moved =>
      rw [skippedIn_drain moved] at hmem
      obtain rfl := List.mem_singleton.1 hmem
      rw [Transaction.xid_release, hc.own known]
      exact ⟨skips, clock, t, rfl, head, known, rfl⟩
    | spurious _ _ kept =>
      rw [skippedIn_drain_of_kept kept] at hmem
      cases hmem
    | silent _ kept =>
      rw [skippedIn_drain_of_kept kept] at hmem
      cases hmem
  | takeSkipped => simp [happenings] at hu
  | clear => cases hu

/-- A drain that skips the head takes the last prewrite of its identifier off the queue. -/
theorem Opens.not_queued_of_skips {t t' : Transaction} (ho : Opens h e t e.queue)
    (hhead : SkipsHead limits skips e t.xid) {before after : List Happening}
    (hsplit : h = before ++ .prewritten t' :: after) (hxid : t'.xid = t.xid) :
    ¬ signals (.prewritten t' :: after) <:+ (e.drain limits skips clock).after.queue := by
  intro hqueued
  obtain ⟨tso, rest, hqueue⟩ := hhead.head
  have hpopped := queue_drain_suffix limits skips clock hqueue fun _ _ => hhead
  have hshort := (hqueued.trans hpopped).length_le
  have hlong := (ho.suffix hsplit hxid).length_le
  rw [hqueue, List.length_cons] at hlong
  omega

/-- No queued prewrite is the one of a transaction that has been skipped. -/
def NoneSkipped (h : List Happening) (e : Engine) : Prop :=
  ∀ before t after, h = before ++ .prewritten t :: after →
    signals (.prewritten t :: after) <:+ e.queue → ∀ u, .skipped u ∈ after → u.xid ≠ t.xid

/-- In a causal history, nothing that is queued is stale unless its transaction has been skipped. -/
theorem NoneSkipped.not_stale (hn : NoneSkipped h e) (hb : Bounded h e) (hcausal : Causal h)
    {queue : List Signal} (hqueue : queue <:+ e.queue) : ¬ Stale h x queue := by
  rintro ⟨before, t, after, hsplit, rfl, hends, rfl⟩
  generalize hlife : lifeOf t.xid after = life at hends
  cases hends with
  | emitted => exact hb.not_emitted hcausal hsplit hqueue hlife
  | skipped =>
    have hmem : .skipped t.release ∈ lifeOf t.xid after := by simp [hlife]
    exact hn before t after hsplit hqueue _ (mem_lifeOf.1 hmem).1 (Transaction.xid_release t)

/-- What is skipped in a causal history is at the head with its own prewrite, so no prewrite of its
identifier stays in the queue. -/
theorem NoneSkipped.concat {s : Step} (hs : s ≠ .clear) (hn : NoneSkipped h e)
    (hc : e.Consistent) (hm : Mirrors h e) (hl : ∀ x, LifeCycle x h e) (hb : Bounded h e)
    (hcausal : Causal h) : NoneSkipped (h ++ e.happenings limits s) (e.step limits s).after := by
  intro before t after hsplit hqueued u hu
  -- what skips a transaction prewrites none
  have hno : .skipped u ∈ e.happenings limits s → .prewritten t ∉ e.happenings limits s := by
    intro hu ht
    obtain ⟨skips, clock, -, rfl, -⟩ := skipped_mem_happenings hc hu
    have hsignal := mem_signals.2 ⟨_, ht, Happening.signal?_prewritten⟩
    rw [drain_signals] at hsignal
    cases hsignal
  rcases List.append_eq_append_iff.1 hsplit with ⟨between, -, hnow⟩ | ⟨between, hh, hnow⟩
  · exact absurd (by simp [hnow]) (hno (by simp [hnow, hu]))
  · cases between with
    | nil =>
      rw [List.nil_append] at hnow
      exact absurd (by simp [← hnow]) (hno (by simp [← hnow, hu]))
    | cons b between =>
      obtain ⟨rfl, hafter⟩ := List.cons.inj hnow
      rw [hnow, signals_append] at hqueued
      have hbefore : signals (.prewritten t :: between) <:+ e.queue :=
        List.suffix_append_self_iff.1 (hqueued.trans (step_moves limits hs hc).queue_suffix)
      rcases List.mem_append.1 (hafter ▸ hu) with hu | hu
      · exact hn before t between hh hbefore u hu
      · intro hx
        obtain ⟨skips, clock, t', rfl, hhead, -, -⟩ := skipped_mem_happenings hc hu
        obtain ⟨tso, rest, hqueue⟩ := hhead.head
        have hhead' : e.queue = [] ++ ⟨.prewrite, u.xid, tso⟩ :: rest := hqueue
        obtain ⟨t₀, hx₀, ho⟩ := (beginsOwn_iff_not_stale hc hm (hl u.xid) hhead'
          hhead.isOpen).2 (hn.not_stale hb hcausal (hqueue ▸ List.suffix_refl _))
        rw [drain_signals, List.append_nil] at hqueued
        exact (hqueue ▸ ho).not_queued_of_skips (hx₀ ▸ hhead) hh (hx.symm.trans hx₀.symm) hqueued

theorem noneSkipped_reached {steps : List Step} (hcausal : Causal (history limits steps)) :
    NoneSkipped (history limits steps) (reached limits steps) := by
  induction steps using List.reverseRecOn with
  | nil =>
    intro before t after hsplit
    simp [history, historyFrom] at hsplit
  | append_singleton steps s ih =>
    by_cases hs : s = .clear
    · subst hs
      intro before t after hsplit
      simp at hsplit
    · rw [history_concat hs] at hcausal ⊢
      rw [reached_concat]
      exact (ih hcausal.of_append).concat hs (consistent_reached limits steps)
        (mirrors_reached limits steps) (lifeCycle_reached limits steps)
        (bounded_reached limits steps) hcausal.of_append

/-! ## Scans and skips -/

/-- Every queued prewrite of an open transaction is its own. -/
def OwnsPrewrites (h : List Happening) (e : Engine) : Prop :=
  ∀ front x tso rest, e.queue = front ++ ⟨.prewrite, x, tso⟩ :: rest → x ∈ e.pending →
    BeginsOwn h e x (⟨.prewrite, x, tso⟩ :: rest)

/-- A drain whose scan stops at an open prewrite stops at the one of the open transaction. -/
def StopsAtOwn (limits : Limits) (skips : Xid → Bool) (clock : Nat → UInt64)
    (h : List Happening) (e : Engine) : Prop :=
  ∀ x, .notReady x ∈ (e.drain limits skips clock).events →
    BeginsOwn h e x (e.drain limits skips clock).after.queue

/-- A drain that skips a transaction skips the one whose prewrite is the head of the queue. -/
def SkipsOwn (limits : Limits) (skips : Xid → Bool) (clock : Nat → UInt64)
    (h : List Happening) (e : Engine) : Prop :=
  ∀ u, .skipped u ∈ e.happenings limits (.drain skips clock) →
    ∃ t, u = t.release ∧ Opens h e t e.queue

/-- A scan stops at a queued prewrite of an open transaction. -/
theorem OwnsPrewrites.stopsAtOwn (ho : OwnsPrewrites h e) (hc : e.Consistent) :
    StopsAtOwn limits skips clock h e := by
  intro x hx
  cases drainReports_of_mem_events hc hx with
  | @blocked _ tso rest stopped isOpen =>
    have hsuffix := (drain_moves limits skips clock hc).queue_suffix
    rw [drain_signals, List.append_nil, stopped] at hsuffix
    obtain ⟨front, hfront⟩ := hsuffix
    rw [stopped]
    exact ho front x tso rest hfront.symm (mem_pending_of_drain isOpen)

/-- The head of the queue is skipped only if its transaction is open. -/
theorem OwnsPrewrites.skipsOwn (ho : OwnsPrewrites h e) (hc : e.Consistent) :
    SkipsOwn limits skips clock h e := by
  intro u hu
  obtain ⟨_, _, t, -, hhead, hknown, rfl⟩ := skipped_mem_happenings hc hu
  obtain ⟨tso, rest, hqueue⟩ := hhead.head
  obtain ⟨t', hx, hopens⟩ := ho [] _ tso rest hqueue hhead.isOpen
  rw [← hqueue] at hopens
  obtain ⟨before, after, hsplit, hlast, hknown', hsignals⟩ := hopens
  rw [hx] at hknown'
  cases hknown.symm.trans hknown'
  exact ⟨t, rfl, before, after, hsplit, hlast, hx ▸ hknown, hsignals⟩

/-- A queued prewrite stands for the open transaction of its identifier exactly if its own
transaction is not over. In a causal epoch this is so for every prewrite of the queue, however often
identifiers are re-used. Scans then stop only where a transaction is still open at its own prewrite,
and what is skipped is the very transaction whose prewrite is the head. -/
theorem run_signals_own (limits : Limits) (steps : List Step) :
    (∀ front x tso rest, (reached limits steps).queue = front ++ ⟨.prewrite, x, tso⟩ :: rest →
      x ∈ (reached limits steps).pending →
        (BeginsOwn (history limits steps) (reached limits steps) x (⟨.prewrite, x, tso⟩ :: rest) ↔
          ¬ Stale (history limits steps) x (⟨.prewrite, x, tso⟩ :: rest))) ∧
    (Causal (history limits steps) →
      OwnsPrewrites (history limits steps) (reached limits steps) ∧
      ∀ skips clock,
        StopsAtOwn limits skips clock (history limits steps) (reached limits steps) ∧
        SkipsOwn limits skips clock (history limits steps) (reached limits steps)) := by
  have hc := consistent_reached limits steps
  have hm := mirrors_reached limits steps
  have hl := lifeCycle_reached limits steps
  refine ⟨fun front x tso rest hqueue hopen => beginsOwn_iff_not_stale hc hm (hl x) hqueue hopen,
    fun hcausal => ?_⟩
  have hown : OwnsPrewrites (history limits steps) (reached limits steps) := by
    intro front x tso rest hqueue hopen
    refine (beginsOwn_iff_not_stale hc hm (hl x) hqueue hopen).2 ?_
    exact (noneSkipped_reached hcausal).not_stale (bounded_reached limits steps) hcausal
      ⟨front, hqueue.symm⟩
  exact ⟨hown, fun skips clock => ⟨hown.stopsAtOwn hc, hown.skipsOwn hc⟩⟩

/-- If commits ascend in the order in which they come, the stream is causal. -/
theorem causal_of_ascending (hascending : (commitTsos (signals h)).Pairwise (· < ·)) :
    Causal h := by
  intro before t since given tso after heq _ x given' tso' hmem
  rw [heq, signals_append, commitTsos, List.filterMap_append, List.pairwise_append] at hascending
  refine hascending.2.2 tso' (mem_commitTsos.2 ⟨x, ?_⟩) tso (mem_commitTsos.2 ⟨t.xid, ?_⟩)
  · exact mem_signals.2 ⟨_, List.mem_append_left _ hmem, rfl⟩
  · exact mem_signals.2 ⟨_, List.mem_cons_self, rfl⟩

/-- A causal run in which an identifier is re-used after its transaction has been handed out. -/
def reusedRun : List Step :=
  [.push (fun _ => false) true (.prewrite { xid := ⟨"a"⟩ }),
    .push (fun _ => false) true (.commit ⟨"a"⟩ (some (.ofTime 5))),
    .drain (fun _ => false) (fun _ => 0),
    .push (fun _ => false) true (.prewrite { xid := ⟨"a"⟩, source := some "again" }),
    .push (fun _ => false) true (.prewrite { xid := ⟨"b"⟩ }),
    .push (fun _ => false) true (.commit ⟨"b"⟩ (some (.ofTime 7)))]

theorem reusedRun_signals_own :
    Causal (history ⟨0, 500⟩ reusedRun) ∧
      ¬ Stale (history ⟨0, 500⟩ reusedRun) ⟨"a"⟩ (⟨.prewrite, ⟨"a"⟩, none⟩ ::
        [⟨.prewrite, ⟨"b"⟩, none⟩, ⟨.commit, ⟨"b"⟩, some (.ofTime 7)⟩]) ∧
      BeginsOwn (history ⟨0, 500⟩ reusedRun) (reached ⟨0, 500⟩ reusedRun) ⟨"a"⟩
        ((reached ⟨0, 500⟩ reusedRun).drain ⟨0, 500⟩ (fun _ => false) fun _ => 0).after.queue ∧
      ∃ t, Transaction.release { xid := ⟨"a"⟩, source := some "again" } = t.release ∧
        Opens (history ⟨0, 500⟩ reusedRun) (reached ⟨0, 500⟩ reusedRun) t
          (reached ⟨0, 500⟩ reusedRun).queue :=
  have hcausal : Causal (history ⟨0, 500⟩ reusedRun) := causal_of_ascending (by decide)
  have hown := (run_signals_own ⟨0, 500⟩ reusedRun).2 hcausal
  ⟨hcausal,
    ((run_signals_own ⟨0, 500⟩ reusedRun).1 [] ⟨"a"⟩ none _ (by decide) (by decide)).1
      (hown.1 [] ⟨"a"⟩ none _ (by decide) (by decide)),
    (hown.2 (fun _ => false) fun _ => 0).1 ⟨"a"⟩ (by decide),
    (hown.2 (· = ⟨"a"⟩) fun _ => 0).2 _ (by decide)⟩

/-- A run in which a transaction is handed out ahead of its own signals, which are still queued
behind an open prewrite when its identifier is re-used. -/
def overtakenRun : List Step :=
  [.push (fun _ => false) true (.prewrite { xid := ⟨"a"⟩ }),
    .push (fun _ => false) true (.commit ⟨"a"⟩ (some (.ofTime 10))),
    .push (fun _ => false) true (.prewrite { xid := ⟨"b"⟩ }),
    .push (fun _ => false) true (.prewrite { xid := ⟨"c"⟩ }),
    .push (fun _ => false) true (.commit ⟨"c"⟩ (some (.ofTime 5))),
    .drain (fun _ => false) (fun _ => 0),
    .push (fun _ => false) true (.prewrite { xid := ⟨"c"⟩, source := some "again" }),
    .push (fun _ => false) true (.commit ⟨"b"⟩ (some (.ofTime 12)))]

/-- Without causality, a queued prewrite need not be the one of the open transaction of its
identifier: the next scan stops at it although its own transaction has been handed out, and the
drain after that may skip the open transaction although its own prewrite is not the head. -/
theorem not_forall_ownsPrewrites :
    (¬ ∀ (limits : Limits) (steps : List Step),
        OwnsPrewrites (history limits steps) (reached limits steps)) ∧
      (¬ ∀ (limits : Limits) (steps : List Step) (skips : Xid → Bool) (clock : Nat → UInt64),
        StopsAtOwn limits skips clock (history limits steps) (reached limits steps)) ∧
      ¬ ∀ (limits : Limits) (steps : List Step) (skips : Xid → Bool) (clock : Nat → UInt64),
        SkipsOwn limits skips clock (history limits steps) (reached limits steps) := by
  refine ⟨fun hall => ?_, fun hall => ?_, fun hall => ?_⟩
  · obtain ⟨t, hx, ho⟩ := hall ⟨0, 500⟩ overtakenRun [⟨.prewrite, ⟨"b"⟩, none⟩] ⟨"c"⟩ none
      [⟨.commit, ⟨"c"⟩, some (.ofTime 5)⟩, ⟨.prewrite, ⟨"c"⟩, none⟩,
        ⟨.commit, ⟨"b"⟩, some (.ofTime 12)⟩] (by decide) (by decide)
    exact ho.xid_ne ⟨.prewrite, ⟨"c"⟩, none⟩ (by decide) hx.symm
  · obtain ⟨t, hx, ho⟩ := hall ⟨0, 500⟩ overtakenRun (fun _ => false) (fun _ => 0) ⟨"c"⟩ (by decide)
    have hqueue : ((reached ⟨0, 500⟩ overtakenRun).drain ⟨0, 500⟩ (fun _ => false)
        fun _ => 0).after.queue = ⟨.prewrite, ⟨"c"⟩, none⟩ ::
          [⟨.commit, ⟨"c"⟩, some (.ofTime 5)⟩, ⟨.prewrite, ⟨"c"⟩, none⟩,
            ⟨.commit, ⟨"b"⟩, some (.ofTime 12)⟩] := by decide
    rw [hqueue] at ho
    exact ho.xid_ne ⟨.prewrite, ⟨"c"⟩, none⟩ (by decide) hx.symm
  · obtain ⟨t, hu, ho⟩ := hall ⟨0, 500⟩
      (overtakenRun ++ [.drain (fun _ => false) fun _ => 0]) (· = ⟨"c"⟩) (fun _ => 0)
      (Transaction.release { xid := ⟨"c"⟩, source := some "again" }) (by decide)
    have hx : (⟨"c"⟩ : Xid) = t.xid := by
      rw [← Transaction.xid_release t, ← hu]
      rfl
    have hqueue : (reached ⟨0, 500⟩ (overtakenRun ++ [.drain (fun _ => false) fun _ => 0])).queue =
        ⟨.prewrite, ⟨"c"⟩, none⟩ ::
          [⟨.commit, ⟨"c"⟩, some (.ofTime 5)⟩, ⟨.prewrite, ⟨"c"⟩, none⟩,
            ⟨.commit, ⟨"b"⟩, some (.ofTime 12)⟩] := by decide
    rw [hqueue] at ho
    exact ho.xid_ne ⟨.prewrite, ⟨"c"⟩, none⟩ (by decide) hx

end Engine

end ShardMerge
