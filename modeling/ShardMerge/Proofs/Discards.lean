import ShardMerge.Assembly
import ShardMerge.Proofs.Admissions
import ShardMerge.Proofs.Anchored
import ShardMerge.Proofs.Journal

/-!
# Random discards at their limits

With a share of nothing, a strategy that discards at random rules like one that lets every commit
in, and sorters with such strategies answer alike (`run_agrees`). With a share of everything it lets
no commit in. Then a commit is counted and nothing else comes of it (`push_commit_of_discardsAll`),
nothing that is registered is ever ready (`uncommitted_reached`), and no batch holds anything. A
share that is configured as more than a hundred percent counts as everything.
-/

namespace ShardMerge

/-! ## A share of nothing -/

/-- Strategies that rule alike on every commit to come: the same strategy, or one with a share of
nothing and one that lets every commit in. -/
inductive Strategy.Matches : Strategy → Strategy → Prop where
  | refl (strategy : Strategy) : Matches strategy strategy
  | nothing {discard : RandomDiscard} (share : discard.percent = 0) :
      Matches (.random discard) .all

/-- Strategies that match rule alike and match afterwards. -/
theorem Strategy.Matches.judge {strategy strategy' : Strategy} (h : strategy.Matches strategy')
    (x : Xid) :
    (Admission.judge strategy x).admitted = (Admission.judge strategy' x).admitted ∧
      (Admission.judge strategy x).events = (Admission.judge strategy' x).events ∧
      (Admission.judge strategy x).next.Matches (Admission.judge strategy' x).next := by
  cases h with
  | refl => exact ⟨rfl, rfl, .refl _⟩
  | @nothing discard share =>
    have hreached : discard.percent.val ≤ (discard.draws discard.taken).val := by simp [share]
    rw [Strategy.judge_random]
    exact ⟨decide_eq_true hreached, if_pos hreached, .nothing share⟩

/-- Two outcomes of calls on sorters differ at most in the strategies, and these match. -/
structure Reply.Agrees {α : Type} (r r' : Reply (Sorter Strategy) α) : Prop where
  value : r.value = r'.value
  events : r.events = r'.events
  queries : r.queries = r'.queries
  after : r.after = r'.after.withStrategy r.after.strategy
  strategies : r.after.strategy.Matches r'.after.strategy

namespace Sorter

variable {strategy : Strategy} {s : Sorter Strategy}

theorem call_agrees (h : strategy.Matches s.strategy) (c : Call Strategy) :
    ((s.withStrategy strategy).call c).Agrees (s.call c) := by
  cases c with
  | push item =>
    cases item with
    | prewrite t => exact ⟨rfl, rfl, rfl, rfl, h⟩
    | commit x given =>
      obtain ⟨hadmitted, hevents, hnext⟩ := h.judge x
      simp only [call, push, withStrategy, hadmitted, hevents]
      exact ⟨rfl, rfl, rfl, rfl, hnext⟩
  | setStrategy => exact ⟨rfl, rfl, rfl, rfl, .refl _⟩
  | drain => exact ⟨rfl, rfl, rfl, rfl, h⟩
  | takeSkipped => exact ⟨rfl, rfl, rfl, rfl, h⟩
  | clear => exact ⟨rfl, rfl, rfl, rfl, h⟩
  | setPolicy => exact ⟨rfl, rfl, rfl, rfl, h⟩
  | setClock => exact ⟨rfl, rfl, rfl, rfl, h⟩

/-- Sorters whose strategies match answer every run alike. -/
theorem run_agrees (calls : List (Call Strategy)) (h : strategy.Matches s.strategy) :
    (run calls (s.withStrategy strategy)).Agrees (run calls s) := by
  induction calls generalizing strategy s with
  | nil => exact ⟨rfl, rfl, rfl, rfl, h⟩
  | cons c calls ih =>
    obtain ⟨hvalue, hevents, hqueries, hafter, hstrategies⟩ := call_agrees h c
    have hrest := ih hstrategies
    rw [← hafter] at hrest
    refine ⟨?_, ?_, ?_, hrest.after, hrest.strategies⟩
    · exact congrArg₂ List.cons hvalue hrest.value
    · exact congrArg₂ (· ++ ·) hevents hrest.events
    · exact congrArg₂ (· ++ ·) hqueries hrest.queries

end Sorter

/-! ## A share of everything -/

/-- A strategy discards every commit to come, and reports it. -/
def Strategy.DiscardsAll (strategy : Strategy) : Prop :=
  ∃ discard, strategy = .random discard ∧ discard.percent = 100

theorem Strategy.DiscardsAll.judge {strategy : Strategy} (h : strategy.DiscardsAll) (x : Xid) :
    (Admission.judge strategy x).admitted = false ∧
      (Admission.judge strategy x).events = [.commitDiscarded x] ∧
      (Admission.judge strategy x).next.DiscardsAll := by
  obtain ⟨discard, rfl, hshare⟩ := h
  have hmissed : ¬ discard.percent.val ≤ (discard.draws discard.taken).val := by
    rw [hshare]
    exact Nat.not_le.2 (discard.draws discard.taken).isLt
  rw [Strategy.judge_random]
  exact ⟨decide_eq_false hmissed, if_neg hmissed, _, rfl, hshare⟩

/-- A share of a hundred percent or more counts as everything. -/
theorem Strategy.discardsAll_ofPercent {percent : UInt8} (hpercent : 100 ≤ percent)
    (draws : Nat → Fin 100) : (Strategy.random (.ofPercent percent draws)).DiscardsAll := by
  have hle : 100 ≤ percent.toNat := UInt8.le_iff_toNat_le.1 hpercent
  refine ⟨_, rfl, Fin.ext ?_⟩
  exact Nat.min_eq_right hle

namespace Engine

variable {limits : Limits} {steps : List Step}

/-- No commit is let in. -/
def Barred (steps : List Step) : Prop :=
  ∀ skips x given, .push skips true (.commit x given) ∉ steps

/-- Nothing has been committed: what is registered is open, and nothing has raised the watermark. -/
structure Uncommitted (e : Engine) : Prop where
  ready : e.ready = .empty
  watermark : e.watermark = none
  registered : e.registry.xids.Perm e.pending

/-- If no commit is let in, nothing is committed. -/
theorem uncommitted_reached (limits : Limits) (hbarred : Barred steps) :
    (reached limits steps).Uncommitted := by
  have hnone : ∀ x given tso, .committed x given tso ∉ history limits steps := by
    intro x given tso hmem
    obtain ⟨skips, hpush⟩ := pushed_of_committed hmem
    exact hbarred skips x given hpush
  have hc := consistent_reached limits steps
  have hkeys : (reached limits steps).ready.keys = [] := by
    refine List.eq_nil_iff_forall_not_mem.2 fun k hk => ?_
    obtain ⟨given, hmem⟩ := (lifeCycle_reached limits steps k.xid).committed_of_ready hc hk
    exact hnone _ _ _ hmem
  have htaken : commitTsos (taken limits steps) = [] := by
    refine List.eq_nil_iff_forall_not_mem.2 fun tso htso => ?_
    obtain ⟨x, given, hmem⟩ := committed_of_mem_taken htso
    exact hnone _ _ _ hmem
  refine ⟨ReadyQueue.ext_keys hkeys, ?_, ?_⟩
  · rw [(journal_eq limits steps).2, htaken]
    rfl
  · have hregistered := (hc.partitioned (distinct_reached limits steps)).registered
    rwa [hkeys, List.map_nil, List.append_nil] at hregistered

/-- If no commit is let in, nothing is handed out. -/
theorem drained_eq_nil (hbarred : Barred steps) {batch : List Transaction}
    (hbatch : .drained batch ∈ (run limits steps .empty).value) : batch = [] := by
  obtain ⟨before, s, later, rfl, hstep⟩ := exists_step_of_mem_value hbatch
  have hbefore : Barred before := fun skips x given hmem =>
    hbarred skips x given (List.mem_append_left _ hmem)
  cases s with
  | drain skips clock =>
    obtain rfl : batch = ((reached limits before).drain limits skips clock).value := by
      simpa [step, Reply.map] using hstep
    refine List.eq_nil_iff_forall_not_mem.2 fun t ht => ?_
    obtain ⟨k, hk, -⟩ := key_of_mem_drain (consistent_reached limits before) ht
    rw [(uncommitted_reached limits hbefore).ready] at hk
    cases hk
  | push | takeSkipped | clear => cases hstep

end Engine

namespace Sorter

variable {s : Sorter Strategy} {calls : List (Call Strategy)}

/-- A strategy that discards all commits does so throughout a run, and lets none in. -/
theorem barred_of_discardsAll (hkeeps : ∀ c ∈ calls, c.keepsStrategy = true)
    (h : s.strategy.DiscardsAll) :
    (run calls s).after.strategy.DiscardsAll ∧ Engine.Barred (engineSteps calls s) := by
  induction calls generalizing s with
  | nil => exact ⟨h, fun _ _ _ hmem => absurd hmem List.not_mem_nil⟩
  | cons c calls ih =>
    obtain ⟨hc, hcalls⟩ := List.forall_mem_cons.1 hkeeps
    have hnext : (s.call c).after.strategy.DiscardsAll := by
      rw [strategy_call hc]
      cases c.commit? with
      | none => exact h
      | some x => exact (h.judge x).2.2
    obtain ⟨hafter, hrest⟩ := ih hcalls hnext
    refine ⟨hafter, fun skips x given hmem => ?_⟩
    rcases List.mem_append.1 hmem with hmem | hmem
    · cases c with
      | push item =>
        cases item with
        | prewrite t => simp [engineStep] at hmem
        | commit y given' => simp [engineStep, (h.judge y).1] at hmem
      | drain | takeSkipped | clear | setPolicy | setStrategy | setClock =>
        simp [engineStep] at hmem
    · exact hrest skips x given hmem

/-- The outcome of a commit that is counted as discarded. It may be the first item of its epoch, and
nothing else comes of it. -/
def discarding (x : Xid) (given : Option Tso) (s : Sorter Strategy) :
    Reply (Sorter Strategy) (Except SortError Unit) where
  value := .ok ()
  after :=
    { s with
      strategy := s.strategyAfter (.commit x given)
      engine :=
        { s.engine with
          firstReceived := s.engine.firstReceived.or (some ⟨.commit, x, given⟩)
          totals :=
            { s.engine.totals with
              discardedCommits := s.engine.totals.discardedCommits + 1 } } }
  events :=
    .commitDiscarded x ::
      if s.engine.firstReceived.isNone then [.firstReceived ⟨.commit, x, given⟩] else []
  queries := [.admission x]

theorem push_commit_of_discardsAll (h : s.strategy.DiscardsAll) (x : Xid) (given : Option Tso) :
    s.push (.commit x given) = s.discarding x given := by
  obtain ⟨hadmitted, hevents, -⟩ := h.judge x
  simp only [push, hadmitted, hevents]
  rfl

/-- A run after which, and in which, every commit is discarded: nothing has been committed, and no
batch holds anything. -/
structure DiscardsCommits (calls : List (Call Strategy)) (s : Sorter Strategy) : Prop where
  commit : ∀ x given,
    (run calls s).after.push (.commit x given) = (run calls s).after.discarding x given
  uncommitted : (run calls s).after.engine.Uncommitted
  batches : ∀ batch, some (.drained batch) ∈ (run calls s).value → batch = []

/-- A sorter that starts empty, with a strategy that discards all commits, discards them throughout
every run. -/
theorem discardsCommits_of_discardsAll (hkeeps : ∀ c ∈ calls, c.keepsStrategy = true)
    (hempty : s.engine = .empty) (h : s.strategy.DiscardsAll) : DiscardsCommits calls s := by
  obtain ⟨hafter, hbarred⟩ := barred_of_discardsAll hkeeps h
  refine ⟨fun x given => push_commit_of_discardsAll hafter x given, ?_, fun batch hbatch => ?_⟩
  · rw [engine_run_eq_reached calls hempty]
    exact Engine.uncommitted_reached s.limits hbarred
  · rw [mem_value_run, hempty] at hbatch
    exact Engine.drained_eq_nil hbarred hbatch

/-! ## Sorters built from a configuration -/

/-- Where a configuration asks for random discards, it only exchanges the strategy. -/
theorem build_of_discardCommits {a : Assembly} (hstrategy : a.strategy = none)
    (hdiscards : a.config.discardCommits = true) (draws : Nat → Fin 100) (clock : Clock) :
    (a.build draws clock).1 =
      (Assembly.build { a with strategy := some .all } draws clock).1.withStrategy
        (.random (.ofPercent a.config.discardPercent draws)) := by
  simp [Assembly.build, hstrategy, Assembly.configuredStrategy, hdiscards, withStrategy]

theorem eq_build_of_buildIfValid {a : Assembly} {draws : Nat → Fin 100} {clock : Clock}
    {built : Sorter Strategy × List Event} (h : a.buildIfValid draws clock = .ok built) :
    built = a.build draws clock := by
  unfold Assembly.buildIfValid at h
  split at h
  next => cases h
  next =>
    cases h
    rfl

/-- Whatever a random strategy draws, at its limits it does not matter. With a share of nothing a
sorter answers every run like one that lets all commits in, and is the same afterwards but for the
strategy. With a share of a hundred percent or more it discards every commit, and never hands out
anything. The same holds of sorters built from a configuration that asks for random discards,
whether or not the configuration was checked, and whatever the clock of the system reads. -/
theorem run_discards_at_limits (draws : Nat → Fin 100) (clock : Clock)
    (calls : List (Call Strategy)) (s : Sorter Strategy) (a : Assembly) :
    (run calls (s.withStrategy (.random (.ofPercent 0 draws)))).Agrees
      (run calls (s.withStrategy .all)) ∧
    (s.engine = .empty → (∀ c ∈ calls, c.keepsStrategy = true) → ∀ percent, 100 ≤ percent →
      DiscardsCommits calls (s.withStrategy (.random (.ofPercent percent draws)))) ∧
    (a.strategy = none → a.config.discardCommits = true →
      (a.config.discardPercent = 0 →
        (run calls (a.build draws clock).1).Agrees
          (run calls (Assembly.build { a with strategy := some .all } draws clock).1)) ∧
      (100 ≤ a.config.discardPercent → (∀ c ∈ calls, c.keepsStrategy = true) →
        DiscardsCommits calls (a.build draws clock).1)) ∧
    ∀ built, a.buildIfValid draws clock = .ok built → built = a.build draws clock := by
  have hnothing : Strategy.Matches (.random (.ofPercent 0 draws)) .all := .nothing rfl
  refine ⟨run_agrees (s := s.withStrategy .all) calls hnothing, ?_, ?_,
    fun built => eq_build_of_buildIfValid⟩
  · intro hempty hkeeps percent hpercent
    exact discardsCommits_of_discardsAll hkeeps hempty
      (Strategy.discardsAll_ofPercent hpercent draws)
  · intro hstrategy hdiscards
    rw [build_of_discardCommits hstrategy hdiscards]
    refine ⟨fun hpercent => ?_, fun hpercent hkeeps => ?_⟩
    · rw [hpercent]
      exact run_agrees calls hnothing
    · exact discardsCommits_of_discardsAll hkeeps rfl
        (Strategy.discardsAll_ofPercent hpercent draws)

/-- A configuration that asks for a share of the commits to be discarded. -/
def discardConfig (percent : UInt8) : Config :=
  { discardCommits := true, discardPercent := percent }

/-- A sorter built from such a configuration, with a generator that always draws the same. -/
def discardSorter (percent : UInt8) (draw : Fin 100) : Sorter Strategy :=
  ((Assembly.ofConfig (discardConfig percent)).build (fun _ => draw) .still).1

/-- A run that hands out its transaction if the commit is let in. -/
def committingCalls : List (Call Strategy) :=
  [.push (.prewrite { xid := ⟨"a"⟩, tso := some (.ofTime 5) }), .push (.commit ⟨"a"⟩ none), .drain]

/-- More than all commits are to be discarded, or none, with draws that come as close as can be. -/
theorem committingCalls_at_limits :
    DiscardsCommits committingCalls (discardSorter 250 99) ∧
      DiscardsCommits committingCalls
        ((discardSorter 0 0).withStrategy (.random (.ofPercent 100 fun _ => 99))) ∧
      (run committingCalls (discardSorter 250 99)).value =
        [some (.pushed (.ok ())), some (.pushed (.ok ())), some (.drained [])] ∧
      (run committingCalls (discardSorter 0 0)).value =
        (run committingCalls ((discardSorter 0 0).withStrategy .all)).value ∧
      (run committingCalls (discardSorter 0 0)).value =
        [some (.pushed (.ok ())), some (.pushed (.ok ())),
          some (.drained [{ xid := ⟨"a"⟩, tso := some (.ofTime 5) }])] ∧
      (discardSorter 100 99, [.discardEnabled 100]) =
        (Assembly.ofConfig (discardConfig 100)).build (fun _ => 99) .still := by
  have hall := run_discards_at_limits (fun _ => 99) .still committingCalls (discardSorter 0 0)
    (Assembly.ofConfig (discardConfig 250))
  have hnothing := run_discards_at_limits (fun _ => 0) .still committingCalls (discardSorter 0 0)
    (Assembly.ofConfig (discardConfig 0))
  have hvalid := run_discards_at_limits (fun _ => 99) .still committingCalls (discardSorter 100 99)
    (Assembly.ofConfig (discardConfig 100))
  exact ⟨(hall.2.2.1 rfl rfl).2 (by decide) (by decide), hall.2.1 rfl (by decide) 100 (by decide),
    by rfl, ((hnothing.2.2.1 rfl rfl).1 rfl).value, by rfl, hvalid.2.2.2 _ (by rfl)⟩

end Sorter

end ShardMerge
