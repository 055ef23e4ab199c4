import ShardMerge.Proofs.Consistency
import ShardMerge.Proofs.Order

/-!
# Operations as moves

What each operation does, said once. A push settles what becomes of its item (`settle_cases`) and
makes one move or none (`push_cases`). A drain skips one transaction or none, scans, and hands out
(`drain_cases`); the engine between the scan and the handing out is named there, because the batch
is decided by it alone. Every operation but a clear is
then a sequence of moves (`step_moves`), which gives the induction for invariants (`run_invariant`).
-/

namespace ShardMerge

namespace Engine

variable {limits : Limits} {e : Engine} {skips : Xid → Bool} {admitted : Bool}

/-! ## Pushes -/

/-- A prewrite of an identifier that is not registered joins the queue. -/
theorem settle_prewrite (skips : Xid → Bool) (admitted : Bool) {t : Transaction}
    (fresh : e.registry.get? t.xid = none) :
    e.settle skips admitted (.prewrite t) =
      .ok (.queued ⟨.prewrite, t.xid, t.tso⟩,
        { e with pending := t.xid :: e.pending, registry := e.registry.insert t.xid t }) := by
  simp [settle, register, Registry.contains, fresh]

/-- An admitted commit of an open transaction joins the queue if one of the two has a timestamp. -/
theorem settle_commit (skips : Xid → Bool) {x : Xid} {t : Transaction} {given : Option Tso}
    {tso : Tso} (isOpen : x ∈ e.pending) (known : e.registry.get? x = some t)
    (timed : given.or t.tso = some tso) :
    e.settle skips true (.commit x given) =
      .ok (.queued ⟨.commit, x, some tso⟩,
        { e with
          pending := e.pending.filter (· ≠ x)
          registry := e.registry.modify x (·.withTso tso)
          ready := e.ready.push ⟨tso, x⟩ }) := by
  simp only [settle, resolve, known, timed, if_pos isOpen, if_true]

/-- An item is refused, or a fresh prewrite or the commit of an open transaction joins the queue, or
a commit goes through without being queued. -/
theorem settle_cases (skips : Xid → Bool) (admitted : Bool) (item : Item) (e : Engine) :
    (∃ refusal, e.settle skips admitted item = .error refusal) ∨
    (∃ t, item = .prewrite t ∧ e.registry.get? t.xid = none ∧
      e.settle skips admitted item =
        .ok (.queued ⟨.prewrite, t.xid, t.tso⟩,
          { e with pending := t.xid :: e.pending, registry := e.registry.insert t.xid t })) ∨
    (∃ x given t tso, item = .commit x given ∧ admitted = true ∧ x ∈ e.pending ∧
      e.registry.get? x = some t ∧ given.or t.tso = some tso ∧
      e.settle skips admitted item =
        .ok (.queued ⟨.commit, x, some tso⟩,
          { e with
            pending := e.pending.filter (· ≠ x)
            registry := e.registry.modify x (·.withTso tso)
            ready := e.ready.push ⟨tso, x⟩ })) ∨
    (∃ x, e.settle skips admitted item = .ok (.dropped x, e)) ∨
    e.settle skips admitted item = .ok (.discarded, e) := by
  cases item with
  | prewrite t =>
    cases hget : e.registry.get? t.xid with
    | none => exact Or.inr (Or.inl ⟨t, rfl, hget, settle_prewrite skips admitted hget⟩)
    | some old =>
      refine Or.inl ⟨.duplicatePrewrite t.xid, ?_⟩
      simp [settle, register, Registry.contains, hget]
  | commit x given =>
    cases admitted with
    | false => exact Or.inr (Or.inr (Or.inr (Or.inr rfl)))
    | true =>
      cases hget : e.registry.get? x with
      | none =>
        cases hskips : skips x with
        | false => exact Or.inl ⟨.unmatchedCommit x, by simp [settle, resolve, hget, hskips]⟩
        | true =>
          refine Or.inr (Or.inr (Or.inr (Or.inl ⟨x, ?_⟩)))
          simp [settle, resolve, hget, hskips]
      | some t =>
        by_cases hopen : x ∈ e.pending
        · cases htso : given.or t.tso with
          | none => exact Or.inl ⟨.missingTso x, by simp [settle, resolve, hget, hopen, htso]⟩
          | some tso =>
            exact Or.inr (Or.inr (Or.inl ⟨x, given, t, tso, rfl, rfl, hopen, hget, htso,
              settle_commit skips hopen hget htso⟩))
        · exact Or.inl ⟨.duplicateCommit x, by simp [settle, resolve, hget, hopen]⟩

/-- A prewrite of an identifier that is not registered is accepted. -/
theorem push_prewrite (skips : Xid → Bool) (admitted : Bool) {t : Transaction}
    (fresh : e.registry.get? t.xid = none) :
    (e.push skips admitted (.prewrite t)).value = .ok () ∧
      ∃ first totals, (e.push skips admitted (.prewrite t)).after =
        { e with
          pending := t.xid :: e.pending
          registry := e.registry.insert t.xid t
          queue := e.queue ++ [⟨.prewrite, t.xid, t.tso⟩]
          firstReceived := first
          totals } := by
  simp only [push, settle_prewrite skips admitted fresh]
  exact ⟨trivial, _, _, rfl⟩

/-- An admitted commit of an open transaction is accepted if one of the two has a timestamp. -/
theorem push_commit (skips : Xid → Bool) {x : Xid} {t : Transaction} {given : Option Tso}
    {tso : Tso} (isOpen : x ∈ e.pending) (known : e.registry.get? x = some t)
    (timed : given.or t.tso = some tso) :
    (e.push skips true (.commit x given)).value = .ok () ∧
      ∃ first totals, (e.push skips true (.commit x given)).after =
        { e with
          pending := e.pending.filter (· ≠ x)
          registry := e.registry.modify x (·.withTso tso)
          queue := e.queue ++ [⟨.commit, x, some tso⟩]
          ready := e.ready.push ⟨tso, x⟩
          firstReceived := first
          totals } := by
  simp only [push, settle_commit skips isOpen known timed]
  exact ⟨trivial, _, _, rfl⟩

/-- A push either registers a transaction, or makes one ready, or leaves all indices alone. -/
theorem push_cases (e : Engine) (skips : Xid → Bool) (admitted : Bool) (item : Item) :
    (∃ t first totals, item = .prewrite t ∧ e.registry.get? t.xid = none ∧
      (e.push skips admitted item).after =
        { e with
          pending := t.xid :: e.pending
          registry := e.registry.insert t.xid t
          queue := e.queue ++ [⟨.prewrite, t.xid, t.tso⟩]
          firstReceived := first
          totals }) ∨
    (∃ x given t tso first totals, item = .commit x given ∧ x ∈ e.pending ∧
      e.registry.get? x = some t ∧ given.or t.tso = some tso ∧
      (e.push skips admitted item).after =
        { e with
          pending := e.pending.filter (· ≠ x)
          registry := e.registry.modify x (·.withTso tso)
          queue := e.queue ++ [⟨.commit, x, some tso⟩]
          ready := e.ready.push ⟨tso, x⟩
          firstReceived := first
          totals }) ∨
    ∃ first totals,
      (e.push skips admitted item).after = { e with firstReceived := first, totals } := by
  rcases settle_cases skips admitted item e with
    ⟨refusal, h⟩ | ⟨t, rfl, hfresh, -⟩ | ⟨x, given, t, tso, rfl, rfl, hopen, hknown, htimed, -⟩ |
    ⟨x, h⟩ | h
  · refine Or.inr (Or.inr ⟨e.firstReceived, e.totals, ?_⟩)
    simp only [push, h]
  · obtain ⟨-, first, totals, hafter⟩ := push_prewrite skips admitted hfresh
    exact Or.inl ⟨t, first, totals, rfl, hfresh, hafter⟩
  · obtain ⟨-, first, totals, hafter⟩ := push_commit skips hopen hknown htimed
    exact Or.inr (Or.inl ⟨x, given, t, tso, first, totals, rfl, hopen, hknown, htimed, hafter⟩)
  · refine Or.inr (Or.inr ?_)
    simp only [push, h]
    exact ⟨_, _, rfl⟩
  · refine Or.inr (Or.inr ?_)
    simp only [push, h]
    exact ⟨_, _, rfl⟩

/-- A push leaves alone what drains and fetches are about. -/
theorem push_frame (skips : Xid → Bool) (admitted : Bool) (item : Item) (e : Engine) :
    (e.push skips admitted item).after.watermark = e.watermark ∧
      (e.push skips admitted item).after.lastEmitted = e.lastEmitted ∧
      (e.push skips admitted item).after.skipped = e.skipped := by
  rcases push_cases e skips admitted item with
    ⟨t, first, totals, -, -, hafter⟩ |
    ⟨x, given, t, tso, first, totals, -, -, -, -, hafter⟩ |
    ⟨first, totals, hafter⟩
  · rw [hafter]
    exact ⟨rfl, rfl, rfl⟩
  · rw [hafter]
    exact ⟨rfl, rfl, rfl⟩
  · rw [hafter]
    exact ⟨rfl, rfl, rfl⟩

/-- A push that is not refused counts once, as pushed, dropped or discarded, and no push counts as
anything else. -/
theorem totals_push (skips : Xid → Bool) (admitted : Bool) (item : Item) (e : Engine) :
    (e.push skips admitted item).after.totals.pushed +
          (e.push skips admitted item).after.totals.droppedCommits +
        (e.push skips admitted item).after.totals.discardedCommits =
        e.totals.pushed + e.totals.droppedCommits + e.totals.discardedCommits +
          (e.push skips admitted item).value.isOk.toNat ∧
      (e.push skips admitted item).after.totals.emitted = e.totals.emitted ∧
      (e.push skips admitted item).after.totals.skipped = e.totals.skipped := by
  rcases settle_cases skips admitted item e with
    ⟨refusal, h⟩ | ⟨t, -, -, h⟩ | ⟨x, given, t, tso, -, -, -, -, -, h⟩ | ⟨x, h⟩ | h
  · simp [push, h, Except.isOk, Except.toBool]
  · simp [push, h, Except.isOk, Except.toBool, book, remember]
    omega
  · simp [push, h, Except.isOk, Except.toBool, book, remember]
    omega
  · simp [push, h, Except.isOk, Except.toBool, book, remember]
    omega
  · simp [push, h, Except.isOk, Except.toBool, book, remember]
    omega

/-- What a push makes happen is what it moves. -/
theorem push_moves (limits : Limits) (e : Engine) (skips : Xid → Bool) (admitted : Bool)
    (item : Item) :
    Moves e (e.happenings limits (.push skips admitted item))
      (e.push skips admitted item).after := by
  rcases push_cases e skips admitted item with
    ⟨t, first, totals, rfl, hfresh, hafter⟩ |
    ⟨x, given, t, tso, first, totals, rfl, hopen, hknown, htimed, hafter⟩ |
    ⟨first, totals, hafter⟩
  · have hm := (Move.prewrite hfresh).single.trans (Move.book first e.lastEmitted totals).single
    simpa [happenings, hafter, Happening.ofSignal] using hm
  · have hm := (Move.commit hopen hknown htimed).single.trans
      (Move.book first e.lastEmitted totals).single
    simpa [happenings, hafter, Happening.ofSignal] using hm
  · have hm := (Move.book (e := e) first e.lastEmitted totals).single
    simpa [happenings, hafter] using hm

/-! ## Drains -/

/-- The head of the arrival queue is an open prewrite that may be skipped, and the queue is long
enough for a skip. -/
structure SkipsHead (limits : Limits) (skips : Xid → Bool) (e : Engine) (x : Xid) : Prop where
  long : limits.skipThreshold.toNat < e.queue.length
  head : ∃ tso rest, e.queue = ⟨.prewrite, x, tso⟩ :: rest
  listed : skips x = true
  isOpen : x ∈ e.pending

theorem setAside_of_open {x : Xid} {t : Transaction} (isOpen : x ∈ e.pending)
    (known : e.registry.get? x = some t) :
    e.setAside x =
      { e with
        pending := e.pending.filter (· ≠ x)
        registry := e.registry.erase x
        skipped := e.skipped ++ [t.release]
        totals := { e.totals with skipped := e.totals.skipped + 1 } } := by
  simp only [setAside, if_pos isOpen, known, Option.toList_some, List.map_cons, List.map_nil]

@[simp] theorem queue_setAside (x : Xid) (e : Engine) : (e.setAside x).queue = e.queue := by
  unfold setAside
  split <;> rfl

@[simp] theorem ready_setAside (x : Xid) (e : Engine) : (e.setAside x).ready = e.ready := by
  unfold setAside
  split <;> rfl

@[simp] theorem watermark_setAside (x : Xid) (e : Engine) :
    (e.setAside x).watermark = e.watermark := by
  unfold setAside
  split <;> rfl

theorem not_mem_pending_setAside (x : Xid) (e : Engine) : x ∉ (e.setAside x).pending := by
  unfold setAside
  split
  · simp
  · assumption

/-- Looking at the head sets its transaction aside if that is open and may be skipped. -/
theorem skipHead_cases (skips : Xid → Bool) (e : Engine) :
    (∃ x tso rest, e.queue = ⟨.prewrite, x, tso⟩ :: rest ∧ skips x = true ∧ x ∈ e.pending ∧
      (e.skipHead skips).after = e.setAside x) ∨
    (e.skipHead skips).after = e ∧
      ∀ x tso rest, e.queue = ⟨.prewrite, x, tso⟩ :: rest → skips x = true → x ∉ e.pending := by
  unfold skipHead
  split
  next x tso rest hqueue =>
    split
    next hskips =>
      by_cases hopen : x ∈ e.pending
      · exact Or.inl ⟨x, tso, rest, hqueue, hskips, hopen, rfl⟩
      · refine Or.inr ⟨if_neg hopen, ?_⟩
        intro y tso' rest' hy _
        cases hqueue.symm.trans hy
        exact hopen
    next hskips =>
      refine Or.inr ⟨rfl, ?_⟩
      intro y tso' rest' hy hlisted
      cases hqueue.symm.trans hy
      exact absurd hlisted hskips
  next hno =>
    exact Or.inr ⟨rfl, fun x tso rest hqueue => absurd hqueue (hno x tso rest)⟩

/-- A drain sets the transaction at the head aside exactly if it skips it. -/
theorem skipStuckHead_cases (limits : Limits) (skips : Xid → Bool) (e : Engine) :
    (∃ x, SkipsHead limits skips e x ∧ (e.skipStuckHead limits skips).after = e.setAside x) ∨
    (e.skipStuckHead limits skips).after = e ∧ ∀ x, ¬ SkipsHead limits skips e x := by
  unfold skipStuckHead
  split
  next hlong =>
    rcases skipHead_cases skips e with ⟨x, tso, rest, hqueue, hskips, hopen, heq⟩ | ⟨heq, hno⟩
    · exact Or.inl ⟨x, ⟨hlong, ⟨tso, rest, hqueue⟩, hskips, hopen⟩, heq⟩
    · refine Or.inr ⟨heq, ?_⟩
      rintro x ⟨-, ⟨tso, rest, hqueue⟩, hskips, hopen⟩
      exact hno x tso rest hqueue hskips hopen
  next hshort => exact Or.inr ⟨rfl, fun x hx => hshort hx.long⟩

/-- Looking at the head moves one transaction to the skipped ones or none: an open one that may be
skipped. -/
theorem skipStuckHead_moves (limits : Limits) (skips : Xid → Bool) (hc : e.Consistent) :
    ∃ skipped, (∀ u ∈ skipped, u.xid ∈ e.pending ∧ skips u.xid = true) ∧
      Moves e (skipped.map .skipped) (e.skipStuckHead limits skips).after ∧
      (e.skipStuckHead limits skips).after.skipped = e.skipped ++ skipped ∧
      (e.skipStuckHead limits skips).after.ready = e.ready := by
  rcases skipStuckHead_cases limits skips e with
    ⟨x, ⟨-, ⟨tso, rest, hqueue⟩, hskips, hopen⟩, heq⟩ | ⟨heq, -⟩
  · obtain ⟨t, hknown⟩ := hc.open_known hopen
    rw [setAside_of_open hopen hknown] at heq
    have hm := (Move.skip hqueue hopen hknown).single.trans
      (Move.book e.firstReceived e.lastEmitted
        { e.totals with skipped := e.totals.skipped + 1 }).single
    refine ⟨[t.release], ?_, by simpa [heq] using hm, by simp [heq], by rw [heq]⟩
    intro u hu
    rw [List.mem_singleton.1 hu, Transaction.xid_release, hc.own hknown]
    exact ⟨hopen, hskips⟩
  · exact ⟨[], by simp, by rw [heq]; exact .refl e, by simp [heq], by rw [heq]⟩

private theorem scan_induction_aux {P : Engine → Prop}
    (pop : ∀ {e : Engine} {s : Signal} {rest : List Signal}, e.queue = s :: rest →
      ¬ (s.kind = .prewrite ∧ s.xid ∈ e.pending) → P e →
      P { e with queue := rest, watermark := s.lift e.watermark })
    (e : Engine) (budget : Nat) (elapsed : Nat → Nat) :
    ∀ (queue : List Signal) (watermark : Option Tso) (n : Nat), P { e with queue, watermark } →
      P { e with
        queue := (Scan.of e.pending budget elapsed queue watermark n).remaining
        watermark := (Scan.of e.pending budget elapsed queue watermark n).watermark } := by
  intro queue
  induction queue with
  | nil => intro watermark n hP; exact hP
  | cons head rest ih =>
    intro watermark n hP
    rw [Scan.of]
    split
    next => exact hP
    next hresolved =>
      have hpopped := pop (e := { e with queue := head :: rest, watermark }) rfl hresolved hP
      dsimp only
      split
      next => exact hpopped
      next => exact ih _ (n + 1) hpopped

/-- What is kept when a signal that is no open prewrite is taken off the queue, a scan keeps,
wherever it ends. -/
theorem scan_induction {P : Engine → Prop}
    (pop : ∀ {e : Engine} {s : Signal} {rest : List Signal}, e.queue = s :: rest →
      ¬ (s.kind = .prewrite ∧ s.xid ∈ e.pending) → P e →
      P { e with queue := rest, watermark := s.lift e.watermark })
    (budget : UInt64) (clock : Nat → UInt64) (hP : P e) : P (e.scan budget clock).after :=
  scan_induction_aux pop e budget.toNat _ e.queue e.watermark 0 hP

/-- A scan makes nothing happen: it takes signals off the queue and raises the watermark. -/
theorem scan_moves (e : Engine) (budget : UInt64) (clock : Nat → UInt64) :
    Moves e [] (e.scan budget clock).after :=
  scan_induction (P := Moves e [])
    (fun head resolved hm => hm.trans (Move.pop head resolved).single)
    budget clock (.refl e)

end Engine

/-- The key under which a committed transaction waits for its release. -/
def Transaction.key? (t : Transaction) : Option ReadyKey :=
  t.tso.map (⟨·, t.xid⟩)

theorem Transaction.tso_of_key? {t : Transaction} {k : ReadyKey} (h : t.key? = some k) :
    t.tso = some k.tso := by
  obtain ⟨tso, htso, rfl⟩ := Option.map_eq_some_iff.1 h
  exact htso

/-- Erasing the first of some keys leaves the transactions of the others. -/
theorem Registry.get?_erase_of_mem {k k' : ReadyKey} {keys : List ReadyKey} (registry : Registry)
    (hnodup : ((k :: keys).map ReadyKey.xid).Nodup) (hk' : k' ∈ keys) :
    (registry.erase k.xid).get? k'.xid = registry.get? k'.xid := by
  rw [List.map_cons, List.nodup_cons] at hnodup
  have hne : k.xid ≠ k'.xid := fun heq => hnodup.1 (heq ▸ List.mem_map_of_mem hk')
  rw [get?_erase, if_neg hne]

/-- Collecting gives the registered transactions of the keys, in the order of the keys. -/
theorem Registry.map_key?_collect {keys : List ReadyKey} {registry : Registry}
    (hnodup : (keys.map ReadyKey.xid).Nodup)
    (known : ∀ k ∈ keys, ∃ t, registry.get? k.xid = some t ∧ t.key? = some k) :
    (collect keys registry).value.map Transaction.key? = keys.map some := by
  induction keys generalizing registry with
  | nil => rfl
  | cons k keys ih =>
    obtain ⟨t, ht, hkey⟩ := known k List.mem_cons_self
    have hrest : ∀ k' ∈ keys, ∃ t, (registry.erase k.xid).get? k'.xid = some t ∧
        t.key? = some k' := by
      intro k' hk'
      rw [get?_erase_of_mem registry hnodup hk']
      exact known k' (List.mem_cons_of_mem k hk')
    simp only [collect, ht, List.map_cons, hkey, ih hnodup.of_cons hrest]

/-- Collecting registered transactions reports the release of each and nothing else. -/
theorem Registry.events_collect {keys : List ReadyKey} {registry : Registry}
    (hnodup : (keys.map ReadyKey.xid).Nodup)
    (known : ∀ k ∈ keys, ∃ t, registry.get? k.xid = some t) :
    (collect keys registry).events = (collect keys registry).value.map .released := by
  induction keys generalizing registry with
  | nil => rfl
  | cons k keys ih =>
    obtain ⟨t, ht⟩ := known k List.mem_cons_self
    have hrest : ∀ k' ∈ keys, ∃ t, (registry.erase k.xid).get? k'.xid = some t := by
      intro k' hk'
      rw [get?_erase_of_mem registry hnodup hk']
      exact known k' (List.mem_cons_of_mem k hk')
    simp only [collect, ht, List.map_cons, ih hnodup.of_cons hrest]

namespace ReadyQueue

theorem ext_keys {q q' : ReadyQueue} (h : q.keys = q'.keys) : q = q' := by
  cases q
  cases q'
  simpa using h

/-- With a least key that may be released, the others are cut as before. -/
theorem beyond_eq_of_releasable {q rest : ReadyQueue} {k : ReadyKey} {watermark : Option Tso}
    (least : q.keys = k :: rest.keys) (hk : releasable watermark k) :
    q.beyond watermark = rest.beyond watermark := by
  apply ext_keys
  simp [beyond, least, hk]

/-- With a least key that has to wait, all keys wait. -/
theorem beyond_eq_self {q : ReadyQueue} {watermark : Option Tso}
    (h : ∀ k ∈ q.keys.head?, ¬ releasable watermark k) : q.beyond watermark = q := by
  apply ext_keys
  cases hkeys : q.keys with
  | nil => simp [beyond, hkeys]
  | cons k keys => simp [beyond, hkeys, h k (by simp [hkeys])]

end ReadyQueue

namespace Engine

variable {limits : Limits} {e : Engine} {skips : Xid → Bool} {clock : Nat → UInt64}

/-- Nothing is handed out if the least ready key has to wait. -/
theorem emit_of_waiting (h : ∀ k ∈ e.ready.keys.head?, ¬ ReadyQueue.releasable e.watermark k) :
    e.emit.value = [] ∧ e.emit.after = e := by
  have hbeyond : e.ready.beyond e.watermark = e.ready := ReadyQueue.beyond_eq_self h
  have hupTo : e.ready.upTo e.watermark = [] := by
    have hsplit := e.ready.upTo_append_beyond e.watermark
    rwa [hbeyond, List.append_left_eq_self] at hsplit
  simp only [emit, Reply.within, hupTo, hbeyond]
  exact ⟨rfl, rfl⟩

/-- If the least ready key may be released, its transaction is handed out first, and then what is
handed out without it. -/
theorem emit_of_releasable {k : ReadyKey} {ready : ReadyQueue} {t : Transaction}
    (least : e.ready.keys = k :: ready.keys) (hk : ReadyQueue.releasable e.watermark k)
    (known : e.registry.get? k.xid = some t) :
    e.emit.value = t :: ({ e with registry := e.registry.erase k.xid, ready } : Engine).emit.value ∧
      e.emit.after =
        ({ e with registry := e.registry.erase k.xid, ready } : Engine).emit.after := by
  have hupTo : e.ready.upTo e.watermark = k :: ready.upTo e.watermark := by
    simp [ReadyQueue.upTo, least, hk]
  have hbeyond : e.ready.beyond e.watermark = ready.beyond e.watermark :=
    ReadyQueue.beyond_eq_of_releasable least hk
  simp [emit, Reply.within, hupTo, hbeyond, Registry.collect, known]

/-- The ready queue without its least key. -/
theorem exists_rest_of_least {k : ReadyKey} {keys : List ReadyKey}
    (hkeys : e.ready.keys = k :: keys) :
    ∃ ready : ReadyQueue, ready.keys = keys :=
  ⟨⟨keys, (List.pairwise_cons.1 (hkeys ▸ e.ready.sorted)).2⟩, rfl⟩

/-- Handing out takes one ready transaction after the other, the least first. -/
theorem emit_moves (hc : e.Consistent) : Moves e (e.emit.value.map .emitted) e.emit.after := by
  generalize hkeys : e.ready.keys = keys
  induction keys generalizing e with
  | nil =>
    obtain ⟨hvalue, hafter⟩ := emit_of_waiting (e := e) (by simp [hkeys])
    rw [hvalue, hafter]
    exact .refl e
  | cons k keys ih =>
    by_cases hk : ReadyQueue.releasable e.watermark k
    · obtain ⟨ready, rfl⟩ := exists_rest_of_least hkeys
      obtain ⟨t, ht, -⟩ := hc.ready_known ((ReadyQueue.mem_iff_of_least hkeys).2 (Or.inl rfl))
      have hrelease := Move.release hkeys hk ht
      have hmoves := hrelease.single.trans (ih (hrelease.consistent hc) rfl)
      obtain ⟨hvalue, hafter⟩ := emit_of_releasable hkeys hk ht
      rw [hvalue, hafter]
      exact hmoves
    · obtain ⟨hvalue, hafter⟩ := emit_of_waiting (e := e) (by simpa [hkeys] using hk)
      rw [hvalue, hafter]
      exact .refl e

/-- The keys of a batch are the ready keys up to the watermark. -/
theorem map_key?_emit (hc : e.Consistent) :
    e.emit.value.map Transaction.key? = (e.ready.upTo e.watermark).map some := by
  apply Registry.map_key?_collect
  · exact hc.ready_nodup.sublist ((List.takeWhile_sublist _).map _)
  · intro k hk
    obtain ⟨t, ht, htso⟩ := hc.ready_known (ReadyQueue.mem_of_mem_upTo hk)
    refine ⟨t, ht, ?_⟩
    simp [Transaction.key?, htso, hc.own ht]

/-- Handing out reports the release of each transaction and nothing else. -/
theorem events_emit (hc : e.Consistent) : e.emit.events = e.emit.value.map .released := by
  apply Registry.events_collect
  · exact hc.ready_nodup.sublist ((List.takeWhile_sublist _).map _)
  · intro k hk
    obtain ⟨t, ht, -⟩ := hc.ready_known (ReadyQueue.mem_of_mem_upTo hk)
    exact ⟨t, ht⟩

/-- The engine in the middle of a drain: its head has been looked at and its queue scanned, but
nothing has been handed out. -/
def scanned (limits : Limits) (skips : Xid → Bool) (clock : Nat → UInt64) (e : Engine) : Engine :=
  ((e.skipStuckHead limits skips).after.scan limits.scanBudget clock).after

theorem skipStuckHead_of_queue_nil (limits : Limits) (skips : Xid → Bool)
    (hqueue : e.queue = []) : e.skipStuckHead limits skips = ⟨(), e, [], []⟩ := by
  simp [skipStuckHead, hqueue]

theorem drain_of_queue_nil (limits : Limits) (skips : Xid → Bool) (clock : Nat → UInt64)
    (hqueue : e.queue = []) : e.drain limits skips clock = ⟨[], e, [], []⟩ := by
  simp [drain, hqueue]

/-- A drain hands out what the scanned engine allows. -/
theorem value_drain (limits : Limits) (skips : Xid → Bool) (clock : Nat → UInt64)
    (hqueue : e.queue ≠ []) :
    (e.drain limits skips clock).value = (e.scanned limits skips clock).emit.value := by
  simp only [drain, List.isEmpty_iff, hqueue]
  rfl

theorem after_drain (limits : Limits) (skips : Xid → Bool) (clock : Nat → UInt64)
    (hqueue : e.queue ≠ []) :
    (e.drain limits skips clock).after =
      ((e.scanned limits skips clock).emit.after.deliver
        (e.scanned limits skips clock).emit.value).after := by
  simp only [drain, List.isEmpty_iff, hqueue]
  rfl

/-- A drain counts what it hands out, and a skip if it makes one. -/
theorem totals_drain (limits : Limits) (skips : Xid → Bool) (clock : Nat → UInt64) (e : Engine) :
    ∃ skipped, (e.drain limits skips clock).after.totals =
      { e.totals with
        emitted := e.totals.emitted + (e.drain limits skips clock).value.length
        skipped } := by
  by_cases hqueue : e.queue = []
  · rw [drain_of_queue_nil limits skips clock hqueue]
    exact ⟨e.totals.skipped, rfl⟩
  · have hhead : ∃ skipped,
        (e.skipStuckHead limits skips).after.totals = { e.totals with skipped } := by
      rcases skipStuckHead_cases limits skips e with ⟨x, hx, heq⟩ | ⟨heq, -⟩
      · rw [heq, setAside, if_pos hx.isOpen]
        exact ⟨e.totals.skipped + 1, rfl⟩
      · rw [heq]
        exact ⟨e.totals.skipped, rfl⟩
    obtain ⟨skipped, hhead⟩ := hhead
    have hscanned : (e.scanned limits skips clock).emit.after.totals =
        { e.totals with skipped } := hhead
    rw [after_drain limits skips clock hqueue, value_drain limits skips clock hqueue]
    refine ⟨skipped, ?_⟩
    simp only [deliver, hscanned]

/-- Up to the middle of a drain, at most one transaction is skipped, and none is handed out. -/
theorem scanned_moves (limits : Limits) (skips : Xid → Bool) (clock : Nat → UInt64)
    (hc : e.Consistent) :
    ∃ skipped, (∀ u ∈ skipped, u.xid ∈ e.pending ∧ skips u.xid = true) ∧
      Moves e (skipped.map .skipped) (e.scanned limits skips clock) ∧
      (e.scanned limits skips clock).skipped = e.skipped ++ skipped ∧
      (e.scanned limits skips clock).ready = e.ready := by
  obtain ⟨skipped, hmay, hskip, hskipped, hready⟩ := skipStuckHead_moves limits skips hc
  have hscan := scan_moves (e.skipStuckHead limits skips).after limits.scanBudget clock
  exact ⟨skipped, hmay, by simpa [scanned] using hskip.trans hscan, hskipped, hready⟩

/-- A drain of an empty queue does nothing. Any other skips at most one transaction and scans, which
leads to an engine `m`, and hands out what `m` allows. -/
theorem drain_cases (limits : Limits) (skips : Xid → Bool) (clock : Nat → UInt64)
    (hc : e.Consistent) :
    (e.queue = [] ∧ (e.drain limits skips clock).value = [] ∧
      (e.drain limits skips clock).after = e) ∨
    ∃ (m : Engine) (skipped : List Transaction) (last : Option ReadyKey) (totals : Totals),
      (∀ u ∈ skipped, u.xid ∈ e.pending ∧ skips u.xid = true) ∧
      Moves e (skipped.map .skipped) m ∧ m.skipped = e.skipped ++ skipped ∧ m.ready = e.ready ∧
      (e.drain limits skips clock).value = m.emit.value ∧
      (e.drain limits skips clock).after = { m.emit.after with lastEmitted := last, totals } := by
  by_cases hqueue : e.queue = []
  · have hdrain := drain_of_queue_nil limits skips clock hqueue
    exact Or.inl ⟨hqueue, by rw [hdrain], by rw [hdrain]⟩
  · obtain ⟨skipped, hmay, hmoves, hskipped, hready⟩ := scanned_moves limits skips clock hc
    exact Or.inr ⟨e.scanned limits skips clock, skipped, _, _, hmay, hmoves, hskipped, hready,
      value_drain limits skips clock hqueue, after_drain limits skips clock hqueue⟩

/-- The watermark after a drain cuts the ready keys: those below it are in the batch, in order, and
the others are still ready. -/
theorem drain_keys (limits : Limits) (skips : Xid → Bool) (clock : Nat → UInt64)
    (hc : e.Consistent) (hqueue : e.queue ≠ []) :
    (e.drain limits skips clock).value.map Transaction.key? =
        (e.ready.upTo (e.drain limits skips clock).after.watermark).map some ∧
      (e.drain limits skips clock).after.ready =
        e.ready.beyond (e.drain limits skips clock).after.watermark := by
  rcases drain_cases limits skips clock hc with
    ⟨hempty, -⟩ | ⟨m, skipped, last, totals, -, hm, -, hready, hvalue, hafter⟩
  · exact absurd hempty hqueue
  · have hemit := map_key?_emit (hm.consistent hc)
    rw [hready] at hemit
    have hbeyond : m.emit.after.ready = m.ready.beyond m.watermark := rfl
    simp only [hvalue, hafter, hbeyond, hready]
    exact ⟨hemit, rfl⟩

/-- What a drain hands out was ready under a key that the watermark has reached. -/
theorem key_of_mem_drain (hc : e.Consistent) {t : Transaction}
    (ht : t ∈ (e.drain limits skips clock).value) :
    ∃ k ∈ e.ready, t.key? = some k ∧
      some k.tso ≤ (e.drain limits skips clock).after.watermark := by
  by_cases hqueue : e.queue = []
  · simp [drain, hqueue] at ht
  · have hkeys := (drain_keys limits skips clock hc hqueue).1
    have hmem := List.mem_map_of_mem (f := Transaction.key?) ht
    rw [hkeys] at hmem
    obtain ⟨k, hk, hkey⟩ := List.mem_map.1 hmem
    have hreached := ReadyQueue.releasable_iff.1 (ReadyQueue.releasable_of_mem_upTo hk)
    exact ⟨k, ReadyQueue.mem_of_mem_upTo hk, hkey.symm, hreached⟩

/-- What a drain makes happen is what it moves. -/
theorem drain_moves (limits : Limits) (skips : Xid → Bool) (clock : Nat → UInt64)
    (hc : e.Consistent) :
    Moves e (e.happenings limits (.drain skips clock)) (e.drain limits skips clock).after := by
  rcases drain_cases limits skips clock hc with
    ⟨-, hvalue, hafter⟩ | ⟨m, skipped, last, totals, -, hm, hskipped, -, hvalue, hafter⟩
  · simpa [happenings, hvalue, hafter] using Moves.refl e
  · have hemitted : m.emit.after.skipped = m.skipped := rfl
    have hmoves := hm.trans ((emit_moves (hm.consistent hc)).trans
      (Move.book m.emit.after.firstReceived last totals).single)
    simpa [happenings, hvalue, hafter, hemitted, hskipped] using hmoves

/-- What a drain skips was open and may be skipped. -/
theorem skips_of_skipped (hc : e.Consistent) {u : Transaction}
    (hu : .skipped u ∈ e.happenings limits (.drain skips clock)) :
    u.xid ∈ e.pending ∧ skips u.xid = true := by
  rcases drain_cases limits skips clock hc with
    ⟨-, hvalue, hafter⟩ | ⟨m, skipped, last, totals, hmay, -, hskipped, -, hvalue, hafter⟩
  · simp [happenings, hvalue, hafter] at hu
  · have hemitted : m.emit.after.skipped = m.skipped := rfl
    exact hmay u (by simpa [happenings, hvalue, hafter, hemitted, hskipped] using hu)

/-! ## Invariants -/

/-- What an operation makes happen is what it moves; only a clear is no sequence of moves. -/
theorem step_moves (limits : Limits) {s : Step} (hs : s ≠ .clear) (hc : e.Consistent) :
    Moves e (e.happenings limits s) (e.step limits s).after := by
  cases s with
  | push skips admitted item => exact push_moves limits e skips admitted item
  | drain skips clock => exact drain_moves limits skips clock hc
  | takeSkipped => exact Move.fetch.single
  | clear => exact absurd rfl hs

/-- The indices are consistent at the end of every run. -/
theorem consistent_reached (limits : Limits) (steps : List Step) :
    (reached limits steps).Consistent :=
  run_induction (P := fun _ e => e.Consistent) consistent_empty
    (fun _ _ _ hs hc => (step_moves limits hs hc).consistent hc) steps

/-- A property of history and engine that each move keeps, while the indices are consistent, holds
at the end of every run. -/
theorem run_invariant {P : List Happening → Engine → Prop} (start : P [] .empty)
    (next : ∀ {h e a e'}, e.Consistent → P h e → Move e a e' → P (h ++ a) e')
    (limits : Limits) (steps : List Step) :
    P (history limits steps) (reached limits steps) := by
  refine (run_induction (P := fun h e => e.Consistent ∧ P h e) ⟨consistent_empty, start⟩ ?_ steps).2
  rintro h e s hs ⟨hc, hP⟩
  refine (step_moves limits hs hc).induction
    (P := fun h e => e.Consistent ∧ P h e) ?_ ⟨hc, hP⟩
  rintro h e a e' ⟨hc, hP⟩ m
  exact ⟨m.consistent hc, next hc hP m⟩

end Engine

end ShardMerge
