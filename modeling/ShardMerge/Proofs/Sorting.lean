import ShardMerge.Proofs.Progress
import ShardMerge.Proofs.Stream

/-!
# Sorting

A run that feeds a stream of whole transactions hands all of them out, each once, in the order of
timestamp and identifier. Causality gives the order (`parts_reached`), the life of each transaction
says that it is handed out once and unchanged (`Feeds.lifeOf_eq`), and drains make progress as soon
as everything is committed (`Feeds.size_concat`). What is handed out is then determined by the
transactions alone: neither the order of arrival nor drains nor clocks matter.
-/

namespace ShardMerge

open Engine

variable {limits : Limits} {ts : List TwoPhase} {steps : List Step}

/-! ## Causality -/

theorem Feeds.clear_not_mem (hf : Feeds ts steps) : .clear ∉ steps :=
  fun hmem => hf.plain _ hmem

theorem Feeds.accepted_eq (hf : Feeds ts steps) (limits : Limits) :
    accepted (history limits steps) = pushes steps :=
  (fed_reached limits hf.stream (List.prefix_refl _) hf.plain).1

theorem Feeds.not_skipped (hf : Feeds ts steps) (u : Transaction) :
    .skipped u ∉ history limits steps :=
  (fed_reached limits hf.stream (List.prefix_refl _) hf.plain).2.1 u

theorem Feeds.mem_pushes (hf : Feeds ts steps) {a : Happening} {i : Item}
    (ha : a ∈ history limits steps) (hi : a.item? = some i) : i ∈ pushes steps := by
  rw [← hf.accepted_eq limits]
  exact mem_accepted.2 ⟨a, ha, hi⟩

/-- The transaction of a prewrite is one of the stream. -/
theorem Feeds.exists_of_prewritten (hf : Feeds ts steps) {t : Transaction}
    (ht : .prewritten t ∈ history limits steps) : ∃ p ∈ ts, p.prewrite = t :=
  hf.stream.exists_of_prewrite (hf.mem_pushes ht rfl)

/-- A commit takes effect as the stream says. -/
theorem Feeds.exists_of_committed (hf : Feeds ts steps) {x : Xid} {given : Option Tso} {tso : Tso}
    (hx : .committed x given tso ∈ history limits steps) :
    ∃ p ∈ ts, p.xid = x ∧ p.given = given ∧ p.tso = some tso := by
  obtain ⟨p, hp, rfl, rfl⟩ := hf.stream.exists_of_commit (hf.mem_pushes hx rfl)
  obtain ⟨t, ht, hxid, htimed⟩ := (lifeCycle_reached limits steps p.xid).timed hx
  obtain ⟨q, hq, rfl⟩ := hf.exists_of_prewritten ht
  cases hf.stream.eq_of_xid hq hp hxid
  exact ⟨p, hp, rfl, rfl, htimed⟩

/-- The history of a causal stream is causal. -/
theorem Feeds.causal (hf : Feeds ts steps) (limits : Limits) : Causal (history limits steps) := by
  intro before t since given tso after heq _ x given' tso' hmem
  have hearlier : .committed x given' tso' ∈ history limits steps := by simp [heq, hmem]
  obtain ⟨p, hp, rfl, rfl, hptso⟩ := hf.exists_of_committed hearlier
  have hprewritten : .prewritten t ∈ history limits steps := by simp [heq]
  obtain ⟨q, hq, rfl⟩ := hf.exists_of_prewritten hprewritten
  have hlater : .committed q.prewrite.xid given tso ∈ history limits steps := by simp [heq]
  obtain ⟨r, hr, hxid, -, hrtso⟩ := hf.exists_of_committed hlater
  cases hf.stream.eq_of_xid hr hq hxid
  have hcommit : List.Sublist [.commit p.xid p.given] (accepted before) :=
    List.singleton_sublist.2 (mem_accepted.2 ⟨_, hmem, rfl⟩)
  have hsub : List.Sublist [.commit p.xid p.given, .prewrite q.prewrite] (pushes steps) := by
    rw [← hf.accepted_eq limits, heq]
    simp only [accepted_append, List.append_assoc]
    refine hcommit.append ?_
    simp
  have hlt := hf.stream.causal p hp q hq hsub
  rwa [hptso, hrtso, Option.some_lt_some] at hlt

/-! ## Completeness -/

/-- When the arrival queue is empty, each transaction of the stream has been handed out as it has to
be, and this ends its life. -/
theorem Feeds.lifeOf_eq (hf : Feeds ts steps) (hsize : (reached limits steps).size = 0)
    {p : TwoPhase} (hp : p ∈ ts) :
    ∃ tso, lifeOf p.xid (history limits steps) =
      [.prewritten p.prewrite, .committed p.xid p.given tso, .emitted p.outcome] := by
  have hidle := idle_reached hf.clear_not_mem (hf.causal limits) hsize
  obtain ⟨past, now, hlife, hpast, hnow⟩ := lifeCycle_reached limits steps p.xid
  have hnil : now = [] := hnow.eq_nil (by simp [Registry.get?, hidle.registered])
  rw [hnil, List.append_nil] at hlife
  have hitems := accepted_lifeOf p.xid (history limits steps)
  rw [hlife, hf.accepted_eq limits, hf.stream.paired p hp] at hitems
  have hskipped : ∀ u, .skipped u ∉ past := by
    intro u hu
    rw [← hlife] at hu
    exact hf.not_skipped u (mem_lifeOf.1 hu).1
  obtain ⟨tso, htso, rfl⟩ := hpast.eq_of_pair hskipped hitems
  refine ⟨tso, ?_⟩
  rw [hlife, TwoPhase.outcome, show p.tso = some tso from htso]
  rfl

/-- When the arrival queue is empty, exactly the transactions of the stream have been handed out. -/
theorem Feeds.mem_handedOut (hf : Feeds ts steps) (hsize : (reached limits steps).size = 0)
    {u : Transaction} :
    u ∈ (handedOut limits steps).flatten ↔ u ∈ ts.map TwoPhase.outcome := by
  rw [← emitted_mem_history hf.clear_not_mem, List.mem_map]
  constructor
  · intro hu
    obtain ⟨t, ht, hxid⟩ := (lifeCycle_reached limits steps u.xid).prewritten_of_mem hu rfl
    obtain ⟨p, hp, rfl⟩ := hf.exists_of_prewritten ht
    obtain ⟨tso, hlife⟩ := hf.lifeOf_eq hsize hp
    have hmem : .emitted u ∈ lifeOf p.xid (history limits steps) :=
      mem_lifeOf.2 ⟨hu, by simp [← hxid, TwoPhase.xid]⟩
    rw [hlife] at hmem
    have heq : u = p.outcome := by simpa using hmem
    exact ⟨p, hp, heq.symm⟩
  · rintro ⟨p, hp, rfl⟩
    obtain ⟨tso, hlife⟩ := hf.lifeOf_eq hsize hp
    have hmem : .emitted p.outcome ∈ lifeOf p.xid (history limits steps) := by simp [hlife]
    exact (mem_lifeOf.1 hmem).1

/-- When the arrival queue is empty, the transactions of the stream have been handed out, each once.
-/
theorem Feeds.handedOut_perm (hf : Feeds ts steps) (hsize : (reached limits steps).size = 0) :
    (handedOut limits steps).flatten.Perm (ts.map TwoPhase.outcome) := by
  have hascends := (parts_reached hf.clear_not_mem (hf.causal limits)).ascends
  have hnodup := nodup_of_ascending hascends.ascending
  have hdistinct : (ts.map TwoPhase.outcome).Nodup := by
    have hxids : ((ts.map TwoPhase.outcome).map Transaction.xid).Nodup := by
      rw [List.map_map]
      exact hf.stream.distinct
    exact hxids.of_map _
  exact (List.perm_ext_iff_of_nodup hnodup hdistinct).2 fun u => hf.mem_handedOut hsize

/-! ## Progress -/

/-- After the whole stream, no transaction is open. -/
theorem Feeds.pending_eq_nil (hf : Feeds ts steps) : (reached limits steps).pending = [] := by
  refine List.eq_nil_iff_forall_not_mem.2 ?_
  intro x hx
  have hc := consistent_reached limits steps
  have hl := lifeCycle_reached limits steps x
  obtain ⟨t', ht', rfl⟩ := hl.prewritten_of_open hc hx
  obtain ⟨p, hp, rfl⟩ := hf.exists_of_prewritten ht'
  obtain ⟨t, hknown⟩ := hc.open_known hx
  obtain ⟨past, now, hlife, -, hnow⟩ := hl
  obtain ⟨-, rfl⟩ := hnow.eq_prewritten hc hx hknown
  -- its life would end with the prewrite, but the stream goes on with a commit
  have hitems := accepted_lifeOf p.xid (history limits steps)
  rw [show lifeOf p.xid _ = _ from hlife, hf.accepted_eq limits, hf.stream.paired p hp] at hitems
  have hlast : accepted past ++ [.prewrite t] =
      [.prewrite p.prewrite] ++ [.commit p.xid p.given] := by
    simpa using hitems
  obtain ⟨-, hcommit⟩ := List.append_inj' hlast rfl
  cases hcommit

/-- A drain that skips none of the given transactions. -/
def Step.PlainDrain (ts : List TwoPhase) (s : Step) : Prop :=
  ∃ skips clock, s = .drain skips clock ∧ ∀ p ∈ ts, skips p.xid = false

/-- A run that feeds a stream still does with one more drain. -/
theorem Feeds.concat_drain (hf : Feeds ts steps) {s : Step} (hs : s.PlainDrain ts) :
    Feeds ts (steps ++ [s]) := by
  obtain ⟨skips, clock, rfl, hplain⟩ := hs
  have hpushes : pushes (steps ++ [.drain skips clock]) = pushes steps := by simp [pushes]
  refine ⟨hpushes ▸ hf.stream, ?_⟩
  intro s hs
  rcases List.mem_append.1 hs with hs | hs
  · exact hf.plain s hs
  · rw [List.mem_singleton.1 hs]
    exact hplain

/-- After the whole stream, each drain shortens the arrival queue. -/
theorem Feeds.size_concat (hf : Feeds ts steps) (limits : Limits) {s : Step}
    (hs : s.PlainDrain ts) :
    (reached limits (steps ++ [s])).size ≤ (reached limits steps).size - 1 := by
  obtain ⟨skips, clock, rfl, -⟩ := hs
  rw [reached_concat]
  show ((reached limits steps).drain limits skips clock).after.size ≤ _
  cases hqueue : (reached limits steps).queue with
  | nil => simp [drain, size, hqueue]
  | cons head rest =>
    have hlt := size_drain_lt limits skips clock hqueue (by simp [hf.pending_eq_nil])
    omega

/-- After the whole stream, at most as many drains as there are signals empty the arrival queue. -/
theorem Feeds.size_append (hf : Feeds ts steps) {drains : List Step}
    (hdrains : ∀ s ∈ drains, s.PlainDrain ts)
    (hsize : (reached limits steps).size ≤ drains.length) :
    (reached limits (steps ++ drains)).size = 0 := by
  induction drains generalizing steps with
  | nil => simpa using hsize
  | cons s drains ih =>
    have hs := hdrains s List.mem_cons_self
    have hle := hf.size_concat limits hs
    rw [List.length_cons] at hsize
    have hrest := ih (hf.concat_drain hs) (fun s' hs' => hdrains s' (List.mem_cons_of_mem s hs'))
      (by omega)
    rwa [List.append_assoc] at hrest

/-! ## The result -/

/-- A run that feeds a causal stream refuses none of its items, and can be drained until its arrival
queue is empty, however short the scans are. Then it has handed out the transactions of the stream,
each once, in the order of timestamp and identifier, and nothing of them is left. Every other such
run over the same transactions hands out the same. -/
theorem run_sorts (limits : Limits) {ts : List TwoPhase} {steps : List Step} (hf : Feeds ts steps) :
    (∀ r, .pushed r ∈ (run limits steps .empty).value → r = .ok ()) ∧
    (∀ drains : List Step, (∀ s ∈ drains, s.PlainDrain ts) →
      (reached limits steps).size ≤ drains.length →
      (reached limits (steps ++ drains)).size = 0) ∧
    ((reached limits steps).size = 0 →
      (handedOut limits steps).flatten.Perm (ts.map TwoPhase.outcome) ∧
      (handedOut limits steps).flatten.Pairwise (fun t u => t.key? < u.key?) ∧
      (reached limits steps).Idle ∧
      ∀ limits' ts' steps', Feeds ts' steps' → (reached limits' steps').size = 0 →
        (ts'.map TwoPhase.outcome).Perm (ts.map TwoPhase.outcome) →
        (handedOut limits' steps').flatten = (handedOut limits steps).flatten) := by
  refine ⟨(fed_reached limits hf.stream (List.prefix_refl _) hf.plain).2.2, ?_, ?_⟩
  · intro drains hdrains hsize
    exact hf.size_append hdrains hsize
  · intro hsize
    have hperm := hf.handedOut_perm hsize
    have hascends := (parts_reached hf.clear_not_mem (hf.causal limits)).ascends
    refine ⟨hperm, hascends.ascending, idle_reached hf.clear_not_mem (hf.causal limits) hsize, ?_⟩
    intro limits' ts' steps' hf' hsize' hsame
    have hperm' := hf'.handedOut_perm hsize'
    have hascends' := (parts_reached hf'.clear_not_mem (hf'.causal limits')).ascends
    exact eq_of_perm_of_ascending (hperm'.trans (hsame.trans hperm.symm)) hascends'.ascending
      hascends.ascending

/-- A stream in which two transactions are committed against their order, and a third one, which
knows its timestamp from the start, begins after one of them. -/
def shuffledStream : List TwoPhase :=
  [⟨{ xid := ⟨"a"⟩ }, some (.ofTime 7)⟩, ⟨{ xid := ⟨"b"⟩ }, some (.ofTime 9)⟩,
    ⟨{ xid := ⟨"c"⟩, tso := some (.ofTime 11) }, none⟩]

/-- A run that feeds it, in which every scan is over after one signal. -/
def shuffledRun : List Step :=
  [.push (fun _ => false) true (.prewrite { xid := ⟨"a"⟩ }),
    .push (fun _ => false) true (.prewrite { xid := ⟨"b"⟩ }),
    .push (fun _ => false) true (.commit ⟨"b"⟩ (some (.ofTime 9))),
    .drain (fun _ => false) (fun n => n.toUInt64),
    .push (fun _ => false) true (.prewrite { xid := ⟨"c"⟩, tso := some (.ofTime 11) }),
    .push (fun _ => false) true (.commit ⟨"c"⟩ none),
    .push (fun _ => false) true (.commit ⟨"a"⟩ (some (.ofTime 7)))] ++
  List.replicate 6 (.drain (fun _ => false) (fun n => n.toUInt64))

theorem shuffledRun_feeds : Feeds shuffledStream shuffledRun where
  stream := {
    distinct := by decide
    paired := by decide
    only := by decide
    timed := by decide
    causal := by decide }
  plain := by simp [shuffledRun, Step.Plain, Item.kind]

theorem shuffledRun_sorts :
    Feeds shuffledStream shuffledRun ∧ (reached ⟨10, 0⟩ shuffledRun).size = 0 ∧
      (handedOut ⟨10, 0⟩ shuffledRun).flatten.Perm (shuffledStream.map TwoPhase.outcome) :=
  ⟨shuffledRun_feeds, by decide,
    ((run_sorts ⟨10, 0⟩ shuffledRun_feeds).2.2 (by decide)).1⟩

end ShardMerge
