import ShardMerge.Proofs.SorterRun
import ShardMerge.Proofs.Steps

/-!
# What an admission strategy is asked

An admission strategy is asked about every commit that is pushed, once and before anything else, so
also about one that is then refused or dropped. No other call asks it (`admissions_call`) or moves
it on (`strategy_call`). What it rules in a run is therefore what it rules on the list of the
commits alone (`verdicts_eq`), and two runs with the same commits get the same rulings, whatever
else happens in them (`run_rules_on_commits`).
-/

namespace ShardMerge

/-- The commit about which the admission strategy is asked. -/
def Query.admission? : Query → Option Xid
  | admission x => some x
  | clock | skip _ => none

/-- The commits about which the admission strategy is asked, in order. -/
def admissions (queries : List Query) : List Xid :=
  queries.filterMap Query.admission?

@[simp] theorem admissions_append (queries queries' : List Query) :
    admissions (queries ++ queries') = admissions queries ++ admissions queries' :=
  List.filterMap_append

/-- An admission strategy after it has ruled on a list of commits. -/
def Admission.after {σ : Type} [Admission σ] (strategy : σ) (xids : List Xid) : σ :=
  xids.foldl (fun strategy x => (judge strategy x).next) strategy

namespace Call

variable {σ : Type}

/-- The identifier of the commit that a call pushes. -/
def commit? : Call σ → Option Xid
  | push (.commit x _) => some x
  | push (.prewrite _) | drain | takeSkipped | clear | setPolicy _ | setStrategy _ | setClock _ =>
    none

/-- Whether a call leaves the sorter the strategy that it has. -/
def keepsStrategy : Call σ → Bool
  | setStrategy _ => false
  | push _ | drain | takeSkipped | clear | setPolicy _ | setClock _ => true

/-- The commits that a sequence of calls pushes, in order. -/
def commits (calls : List (Call σ)) : List Xid :=
  calls.filterMap commit?

theorem commits_cons (c : Call σ) (calls : List (Call σ)) :
    commits (c :: calls) = c.commit?.toList ++ commits calls := by
  cases hc : c.commit? with
  | none => simp [commits, hc]
  | some x => simp [commits, hc]

end Call

/-! ## Questions -/

namespace Engine

variable {e : Engine}

theorem admissions_push (skips : Xid → Bool) (admitted : Bool) (item : Item) (e : Engine) :
    admissions (e.push skips admitted item).queries = [] := by
  have hqueries : (e.push skips admitted item).queries =
      if e.asksPolicy admitted item then [Query.skip item.xid] else [] := by
    unfold push
    cases e.settle skips admitted item with
    | error refusal => rfl
    | ok result => rfl
  rw [hqueries]
  split
  next => rfl
  next => rfl

theorem queries_collect (keys : List ReadyKey) (r : Registry) :
    (Registry.collect keys r).queries = [] := by
  induction keys generalizing r with
  | nil => rfl
  | cons key keys ih =>
    unfold Registry.collect
    cases r.get? key.xid with
    | none => exact ih _
    | some t => exact ih _

theorem admissions_skipStuckHead (limits : Limits) (skips : Xid → Bool) (e : Engine) :
    admissions (e.skipStuckHead limits skips).queries = [] := by
  unfold skipStuckHead skipHead
  split
  next =>
    split
    next => split <;> rfl
    next => rfl
  next => rfl

theorem admissions_scan (budget : UInt64) (clock : Nat → UInt64) (e : Engine) :
    admissions (e.scan budget clock).queries = [] :=
  List.filterMap_eq_nil_iff.2 fun q hq => by rw [List.eq_of_mem_replicate hq]; rfl

/-- Drains ask the skip policy and the clock only. -/
theorem admissions_drain (limits : Limits) (skips : Xid → Bool) (clock : Nat → UInt64)
    (e : Engine) : admissions (e.drain limits skips clock).queries = [] := by
  unfold drain
  split
  next => rfl
  next =>
    simp only [Reply.andThen, admissions_append, admissions_skipStuckHead, admissions_scan, emit,
      Reply.within, queries_collect, deliver, List.nil_append]
    rfl

end Engine

namespace Sorter

variable {σ : Type} [Admission σ]

/-- A call asks the admission strategy once about the commit that it pushes, if it pushes one. -/
theorem admissions_call (s : Sorter σ) (c : Call σ) :
    admissions (s.call c).queries = c.commit?.toList := by
  cases c with
  | push item =>
    cases item with
    | prewrite t => exact Engine.admissions_push ..
    | commit x given => exact congrArg (x :: ·) (Engine.admissions_push ..)
  | drain => exact Engine.admissions_drain ..
  | takeSkipped => rfl
  | clear => rfl
  | setPolicy policy => rfl
  | setStrategy strategy => rfl
  | setClock clock => rfl

/-- A run asks the admission strategy once about each commit that it pushes, in order. -/
theorem admissions_run (calls : List (Call σ)) (s : Sorter σ) :
    admissions (run calls s).queries = Call.commits calls := by
  induction calls generalizing s with
  | nil => rfl
  | cons c calls ih =>
    show admissions ((s.call c).queries ++ (run calls (s.call c).after).queries) = _
    rw [admissions_append, admissions_call, ih, Call.commits_cons]

end Sorter

/-! ## Rulings -/

/-- A commit that is let in is not discarded. -/
theorem Engine.resolve_ne_discarded {skips : Xid → Bool} {x : Xid} {given : Option Tso}
    {e e' : Engine} : e.resolve skips x given ≠ .ok (.discarded, e') := by
  unfold resolve
  split
  next => split <;> simp
  next =>
    split
    next => split <;> simp
    next => simp

/-- A commit is counted as discarded exactly if it is not let in. -/
theorem Engine.discarded_push_commit (skips : Xid → Bool) (admitted : Bool) (x : Xid)
    (given : Option Tso) (e : Engine) :
    (e.push skips admitted (.commit x given)).after.totals.discardedCommits =
      e.totals.discardedCommits + (!admitted).toNat := by
  cases admitted with
  | false => rfl
  | true =>
    rcases settle_cases skips true (.commit x given) e with
      ⟨refusal, h⟩ | ⟨t, hitem, -⟩ | ⟨x, given, t, tso, -, -, -, -, -, h⟩ | ⟨x, h⟩ | h
    · simp [push, h]
    · cases hitem
    · simp [push, h, book, remember]
    · simp [push, h, book, remember]
    · exact absurd h resolve_ne_discarded

namespace Sorter

variable {σ : Type} [Admission σ] {s s' : Sorter σ} {calls calls' : List (Call σ)}

/-- The commit that a call pushes, and whether it is let in: one that is not is counted as
discarded. -/
def verdict? (s : Sorter σ) (c : Call σ) : Option (Xid × Bool) :=
  c.commit?.map fun x =>
    (x, (s.call c).after.engine.totals.discardedCommits ==
      s.engine.totals.discardedCommits)

/-- The commits that a run pushes, in order, and whether they are let in. -/
def verdicts : List (Call σ) → Sorter σ → List (Xid × Bool)
  | [], _ => []
  | c :: calls, s => (s.verdict? c).toList ++ verdicts calls (s.call c).after

/-- The strategy decides alone whether a commit is let in. -/
theorem verdict?_eq (s : Sorter σ) (c : Call σ) :
    s.verdict? c = c.commit?.map fun x => (x, (Admission.judge s.strategy x).admitted) := by
  cases c with
  | push item =>
    cases item with
    | prewrite t => rfl
    | commit x given =>
      have hcount := Engine.discarded_push_commit s.policy.skips
        (Admission.judge s.strategy x).admitted x given s.engine
      have hafter : (s.call (.push (.commit x given))).after.engine =
          (s.engine.push s.policy.skips (Admission.judge s.strategy x).admitted
            (.commit x given)).after := rfl
      simp only [verdict?, Call.commit?, hafter, hcount, Option.map_some]
      cases (Admission.judge s.strategy x).admitted <;> simp
  | drain | takeSkipped | clear | setPolicy | setStrategy | setClock => rfl

/-- A strategy that is not exchanged is moved on by its own rulings only. -/
theorem strategy_call {c : Call σ} (hkeeps : c.keepsStrategy = true) (s : Sorter σ) :
    (s.call c).after.strategy = Admission.after s.strategy c.commit?.toList := by
  cases c with
  | push item => cases item <;> rfl
  | setStrategy => cases hkeeps
  | drain | takeSkipped | clear | setPolicy | setClock => rfl

/-- What a strategy rules in a run, and what becomes of it, is a matter of the commits alone. -/
theorem verdicts_eq (hkeeps : ∀ c ∈ calls, c.keepsStrategy = true) (s : Sorter σ) :
    verdicts calls s =
        (Call.commits calls).zip (Admission.decisions s.strategy (Call.commits calls)) ∧
      (run calls s).after.strategy = Admission.after s.strategy (Call.commits calls) := by
  induction calls generalizing s with
  | nil => exact ⟨rfl, rfl⟩
  | cons c calls ih =>
    obtain ⟨hc, hcalls⟩ := List.forall_mem_cons.1 hkeeps
    obtain ⟨hverdicts, hafter⟩ := ih hcalls (s.call c).after
    have hrun : (run (c :: calls) s).after = (run calls (s.call c).after).after := rfl
    rw [strategy_call hc] at hverdicts hafter
    rw [verdicts, verdict?_eq, hverdicts, hrun, hafter, Call.commits_cons]
    cases c.commit? with
    | none => exact ⟨rfl, rfl⟩
    | some x => exact ⟨rfl, rfl⟩

end Sorter

/-- A strategy that discards at random lets a commit in if the next draw reaches the share. -/
theorem Strategy.judge_random (discard : RandomDiscard) (x : Xid) :
    Admission.judge (Strategy.random discard) x =
      { admitted := decide (discard.percent.val ≤ (discard.draws discard.taken).val)
        next := .random { discard with taken := discard.taken + 1 }
        events :=
          if discard.percent.val ≤ (discard.draws discard.taken).val then []
          else [.commitDiscarded x] } := by
  show Strategy.judge (.random discard) x = _
  by_cases hreached : discard.percent.val ≤ (discard.draws discard.taken).val
  · simp [Strategy.judge, RandomDiscard.judge, hreached, Nat.not_lt.2 hreached]
  · simp [Strategy.judge, RandomDiscard.judge, hreached, Nat.not_le.1 hreached]

/-- The draws that it makes decide, one after the other. -/
theorem RandomDiscard.decisions_eq (discard : RandomDiscard) (xids : List Xid) :
    Admission.decisions (Strategy.random discard) xids =
      xids.mapIdx fun n _ =>
        decide (discard.percent.val ≤ (discard.draws (discard.taken + n)).val) := by
  induction xids generalizing discard with
  | nil => rfl
  | cons x xids ih =>
    rw [Admission.decisions, List.mapIdx_cons]
    simp only [Strategy.judge_random, ih, Nat.add_zero, Nat.add_right_comm, Nat.add_assoc]

namespace Sorter

variable {σ : Type} [Admission σ] {s s' : Sorter σ} {calls calls' : List (Call σ)}

/-- With a seeded random strategy, the draws of the seed say which commits of a run are let in. -/
theorem verdicts_of_seed {calls : List (Call Strategy)}
    (hkeeps : ∀ c ∈ calls, c.keepsStrategy = true) {s : Sorter Strategy} {percent : UInt8}
    {generator : Generator} {seed : UInt64}
    (hstrategy : s.strategy = .random (.ofSeed percent generator seed)) :
    verdicts calls s = (Call.commits calls).mapIdx fun n x =>
      (x, decide (min percent.toNat 100 ≤ (generator seed n).val)) := by
  rw [(verdicts_eq hkeeps s).1, hstrategy, RandomDiscard.decisions_eq]
  refine List.ext_getElem (by simp) fun n hn hn' => ?_
  simp [RandomDiscard.ofSeed, RandomDiscard.ofPercent]

/-- An admission strategy is asked exactly once about each commit that is pushed, and by no other
call; what it rules in a run, and what becomes of it, depends on the commits alone. So two runs of
sorters that hold the same strategy let in the same commits, if they push the same commits in the
same order, whatever else they do and whatever becomes of the commits. With a seeded random
strategy, under whichever generator, it is the share and the draws of the seed that decide. -/
theorem run_rules_on_commits (hkeeps : ∀ c ∈ calls ++ calls', c.keepsStrategy = true)
    (hstrategy : s'.strategy = s.strategy) (hcommits : Call.commits calls' = Call.commits calls) :
    (∀ c, admissions (s.call c).queries = c.commit?.toList) ∧
    (admissions (run calls s).queries = Call.commits calls ∧
      verdicts calls s =
        (Call.commits calls).zip (Admission.decisions s.strategy (Call.commits calls)) ∧
      (run calls s).after.strategy = Admission.after s.strategy (Call.commits calls)) ∧
    (verdicts calls' s' = verdicts calls s ∧
      (run calls' s').after.strategy = (run calls s).after.strategy) ∧
    ∀ (generator : Generator) (seeded : Sorter Strategy) (calls : List (Call Strategy))
      (percent : UInt8) (seed : UInt64), (∀ c ∈ calls, c.keepsStrategy = true) →
      seeded.strategy = .random (.ofSeed percent generator seed) →
      verdicts calls seeded = (Call.commits calls).mapIdx fun n x =>
        (x, decide (min percent.toNat 100 ≤ (generator seed n).val)) := by
  obtain ⟨hcalls, hcalls'⟩ := List.forall_mem_append.1 hkeeps
  obtain ⟨hverdicts, hafter⟩ := verdicts_eq hcalls s
  obtain ⟨hverdicts', hafter'⟩ := verdicts_eq hcalls' s'
  refine ⟨s.admissions_call, ⟨admissions_run calls s, hverdicts, hafter⟩, ⟨?_, ?_⟩, ?_⟩
  · rw [hverdicts', hverdicts, hstrategy, hcommits]
  · rw [hafter', hafter, hstrategy, hcommits]
  · intro generator seeded calls percent seed hkeeps hseeded
    exact verdicts_of_seed hkeeps hseeded

/-- A generator of which five draws are listed. -/
def listedDraws : Generator :=
  fun _ n => [82, 97, 79, 69, 19].getD n 0

/-- A sorter that discards some of the commits, by a seed. -/
def seededSorter : Sorter Strategy where
  limits := {}
  policy := .never
  strategy := .random (.ofSeed 79 listedDraws 1)
  clock := .still

/-- Five commits of unknown transactions. -/
def bareCommits : List (Call Strategy) :=
  [.push (.commit ⟨"a"⟩ none), .push (.commit ⟨"b"⟩ none), .push (.commit ⟨"a"⟩ none),
    .push (.commit ⟨"c"⟩ none), .push (.commit ⟨"c"⟩ none)]

/-- The same commits in a busy run. Those that are let in take effect, are dropped or are refused,
around a drain, a clear and changes of the other parties. -/
def busyCommits : List (Call Strategy) :=
  [.push (.prewrite { xid := ⟨"a"⟩ }), .push (.commit ⟨"a"⟩ (some (.ofTime 5))), .drain,
    .setPolicy (.listed (.ofList [⟨"b"⟩, ⟨"c"⟩])), .push (.commit ⟨"b"⟩ none), .clear,
    .push (.commit ⟨"a"⟩ none), .setClock (.program [7, 3] 1), .takeSkipped,
    .push (.commit ⟨"c"⟩ (some (.ofTime 9))), .push (.commit ⟨"c"⟩ none)]

theorem busyCommits_ruled_alike :
    verdicts busyCommits seededSorter = verdicts bareCommits seededSorter ∧
      verdicts bareCommits seededSorter =
        [(⟨"a"⟩, true), (⟨"b"⟩, true), (⟨"a"⟩, true), (⟨"c"⟩, false), (⟨"c"⟩, false)] := by
  have hruled := @run_rules_on_commits Strategy _ seededSorter seededSorter bareCommits busyCommits
    (by decide) rfl rfl
  refine ⟨hruled.2.2.1.1, ?_⟩
  rw [hruled.2.2.2 listedDraws seededSorter bareCommits 79 1 (by decide) rfl]
  rfl

end Sorter

end ShardMerge
