import Mathlib.Order.MinMax
import ShardMerge.Proofs.EmissionOrder

/-!
# The journal

The journal of a run lists the signals of the items accepted since the last clear, in the order in
which they were pushed. It is told by what pushes answer and count, without a look at the arrival
queue. The queue is what is left of the journal (`journal_eq`), scans take off its front only, and
the watermark is the highest timestamp of the commits that they have taken off
(`run_mirrors_journal`).
-/

namespace ShardMerge

/-- The timestamp of a commit signal. -/
def Signal.commitTso? (s : Signal) : Option Tso :=
  match s.kind with
  | .prewrite => none
  | .commit => s.tso

/-- The timestamps of the commits among some signals. -/
def commitTsos (ss : List Signal) : List Tso :=
  ss.filterMap Signal.commitTso?

theorem mem_commitTsos {ss : List Signal} {tso : Tso} :
    tso ∈ commitTsos ss ↔ ∃ x, ⟨.commit, x, some tso⟩ ∈ ss := by
  rw [commitTsos, List.mem_filterMap]
  constructor
  · rintro ⟨⟨kind, x, tso'⟩, hs, htso⟩
    cases kind with
    | prewrite => cases htso
    | commit =>
      cases (htso : tso' = some tso)
      exact ⟨x, hs⟩
  · rintro ⟨x, hs⟩
    exact ⟨_, hs, rfl⟩

/-- Raising a watermark signal by signal comes to the maximum of it and the commits. -/
theorem foldl_lift_eq_max? (watermark : Option Tso) (ss : List Signal) :
    ss.foldl Signal.lift watermark = (watermark.toList ++ commitTsos ss).max? := by
  induction ss generalizing watermark with
  | nil => cases watermark <;> rfl
  | cons s ss ih =>
    rw [List.foldl_cons, ih]
    obtain ⟨kind, x, tso⟩ := s
    cases kind with
    | prewrite => rfl
    | commit =>
      cases tso with
      | none => rfl
      | some tso =>
        cases watermark with
        | none => rfl
        | some mark =>
          have hraise : Signal.lift (some mark) ⟨.commit, x, some tso⟩ = some (max mark tso) := by
            simp only [Signal.lift, Tso.raise]
            split
            next h => exact congrArg some (max_eq_right h.le).symm
            next h => exact congrArg some (max_eq_left (not_lt.1 h)).symm
          rw [hraise]
          rfl

/-- What raising the watermark signal by signal comes to. -/
theorem highest_eq_max? (ss : List Signal) : highest ss = (commitTsos ss).max? :=
  foldl_lift_eq_max? none ss

namespace Engine

variable {limits : Limits} {e : Engine}

/-- Whether a push accepts an item: it is neither refused, nor dropped, nor discarded. -/
def accepts (skips : Xid → Bool) (admitted : Bool) (item : Item) (e : Engine) : Bool :=
  let reply := e.push skips admitted item
  reply.value.isOk && reply.after.totals.droppedCommits == e.totals.droppedCommits &&
    reply.after.totals.discardedCommits == e.totals.discardedCommits

/-- The signal of an item: a prewrite has the timestamp of its transaction, and a commit its own one
or else the one of the transaction that it names. -/
def announced (item : Item) (e : Engine) : Signal :=
  match item with
  | .prewrite t => ⟨.prewrite, t.xid, t.tso⟩
  | .commit x given => ⟨.commit, x, given.or ((e.transaction? x).bind Transaction.tso)⟩

/-- The journal after one more operation: a clear begins a new one. -/
def journalAfter (past : List Signal) (e : Engine) : Step → List Signal
  | .push skips admitted item =>
    if e.accepts skips admitted item then past ++ [e.announced item] else past
  | .drain _ _ | .takeSkipped => past
  | .clear => []

/-- The journal at the end of a run that starts with the given one. -/
def journalFrom (limits : Limits) : List Step → List Signal → Engine → List Signal
  | [], past, _ => past
  | s :: steps, past, e =>
    journalFrom limits steps (e.journalAfter past s) (e.step limits s).after

/-- The journal at the end of a run that starts with an empty engine. -/
def journal (limits : Limits) (steps : List Step) : List Signal :=
  journalFrom limits steps [] .empty

/-- What scans have taken off the journal: all that is no longer queued. -/
def taken (limits : Limits) (steps : List Step) : List Signal :=
  (journal limits steps).take ((journal limits steps).length - (reached limits steps).size)

/-! ## Accepted items -/

/-- A push brings the signal of its item into the history if it accepts the item, and counts it. -/
theorem push_signals (limits : Limits) (skips : Xid → Bool) (admitted : Bool) (item : Item)
    (e : Engine) :
    signals (e.happenings limits (.push skips admitted item)) =
        (if e.accepts skips admitted item then [e.announced item] else []) ∧
      (e.push skips admitted item).after.totals.pushed =
        e.totals.pushed + (signals (e.happenings limits (.push skips admitted item))).length := by
  rcases settle_cases skips admitted item e with
    ⟨refusal, h⟩ | ⟨t, rfl, -, h⟩ | ⟨x, given, t, tso, rfl, -, -, hknown, htimed, h⟩ |
    ⟨x, h⟩ | h
  · simp [happenings, accepts, push, h, Except.isOk, Except.toBool]
  · simp [happenings, accepts, push, h, Except.isOk, Except.toBool, book, remember, announced,
      Happening.ofSignal]
  · simp [happenings, accepts, push, h, Except.isOk, Except.toBool, book, remember, announced,
      Happening.ofSignal, transaction?, hknown, htimed]
  · simp [happenings, accepts, push, h, Except.isOk, Except.toBool, book, remember]
  · simp [happenings, accepts, push, h, Except.isOk, Except.toBool, book, remember]

/-- A drain brings no signal into the history. -/
theorem drain_signals (limits : Limits) (skips : Xid → Bool) (clock : Nat → UInt64) (e : Engine) :
    signals (e.happenings limits (.drain skips clock)) = [] := by
  refine List.filterMap_eq_nil_iff.2 fun a ha => ?_
  rcases List.mem_append.1 ha with ha | ha
  · obtain ⟨t, -, rfl⟩ := List.mem_map.1 ha
    rfl
  · obtain ⟨t, -, rfl⟩ := List.mem_map.1 ha
    rfl

/-- An operation writes into the journal what it brings into the history. -/
theorem journalAfter_signals (limits : Limits) (past : List Happening) (e : Engine) (s : Step) :
    e.journalAfter (signals past) s = signals (e.pastAfter limits past s) := by
  cases s with
  | push skips admitted item =>
    have hsignals := (push_signals limits skips admitted item e).1
    simp only [journalAfter, pastAfter, signals_append, hsignals]
    split <;> simp
  | drain skips clock =>
    simp only [journalAfter, pastAfter, signals_append, drain_signals, List.append_nil]
  | takeSkipped => simp [journalAfter, pastAfter, happenings]
  | clear => rfl

theorem journalFrom_signals (limits : Limits) (steps : List Step) (past : List Happening)
    (e : Engine) :
    journalFrom limits steps (signals past) e = signals (historyFrom limits steps past e) := by
  induction steps generalizing past e with
  | nil => rfl
  | cons s steps ih =>
    rw [journalFrom, historyFrom, journalAfter_signals limits]
    exact ih _ _

/-- The journal lists the signals of the history. -/
theorem journal_eq_signals (limits : Limits) (steps : List Step) :
    journal limits steps = signals (history limits steps) :=
  journalFrom_signals limits steps [] .empty

/-! ## Counting -/

/-- A drain counts no pushes. -/
theorem pushed_drain (limits : Limits) (skips : Xid → Bool) (clock : Nat → UInt64) (e : Engine) :
    (e.drain limits skips clock).after.totals.pushed = e.totals.pushed := by
  obtain ⟨skipped, htotals⟩ := totals_drain limits skips clock e
  rw [htotals]

/-- The signals of the history are counted. -/
theorem pushed_reached (limits : Limits) (steps : List Step) :
    (reached limits steps).totals.pushed = (signals (history limits steps)).length := by
  refine run_induction (P := fun h e => e.totals.pushed = (signals h).length) rfl ?_ steps
  intro h e s hs hcount
  rw [signals_append, List.length_append, ← hcount]
  cases s with
  | push skips admitted item => exact (push_signals limits skips admitted item e).2
  | drain skips clock => simp [drain_signals, step, Reply.map, pushed_drain]
  | takeSkipped => rfl
  | clear => exact absurd rfl hs

/-! ## What has been taken -/

/-- The journal consists of what has been taken off it and what is queued. -/
theorem journal_eq (limits : Limits) (steps : List Step) :
    journal limits steps = taken limits steps ++ (reached limits steps).queue ∧
      (reached limits steps).watermark = (commitTsos (taken limits steps)).max? := by
  obtain ⟨scanned, hsignals, hmark⟩ := mirrors_reached limits steps
  have htaken : taken limits steps = scanned := by
    simp [taken, journal_eq_signals, hsignals, size]
  rw [htaken, journal_eq_signals, hsignals, hmark, highest_eq_max?]
  exact ⟨rfl, rfl⟩

/-- What scans have taken off as a commit has been committed. -/
theorem committed_of_mem_taken {steps : List Step} {tso : Tso}
    (htso : tso ∈ commitTsos (taken limits steps)) :
    ∃ x given, .committed x given tso ∈ history limits steps := by
  obtain ⟨x, hs⟩ := mem_commitTsos.1 htso
  have hsignal := List.mem_of_mem_take hs
  rw [journal_eq_signals] at hsignal
  obtain ⟨given, own, heq, hmem⟩ := committed_of_mem_signals hsignal
  cases heq
  exact ⟨x, given, hmem⟩

/-- A move leaves a queue that ends as the one before it and the signals that it brings. -/
theorem Move.queue_suffix {e e' : Engine} {a : List Happening} (m : Move e a e') :
    e'.queue <:+ e.queue ++ signals a := by
  cases m with
  | pop head => simp [head]
  | prewrite | commit | skip | release | fetch | book => simp

theorem Moves.queue_suffix {e e' : Engine} {a : List Happening} (m : Moves e a e') :
    e'.queue <:+ e.queue ++ signals a := by
  induction m with
  | refl => simp
  | cons head _ ih =>
    rw [signals_append, ← List.append_assoc]
    exact ih.trans (List.suffix_append_self_iff.2 head.queue_suffix)

/-- Every operation but a clear leaves taken what has been taken, and never lowers the watermark. -/
theorem taken_prefix_concat (limits : Limits) (steps : List Step) {s : Step} (hs : s ≠ .clear) :
    taken limits steps <+: taken limits (steps ++ [s]) ∧
      (reached limits steps).watermark ≤ (reached limits (steps ++ [s])).watermark := by
  have hmoves := step_moves limits hs (consistent_reached limits steps)
  have hjournal : journal limits (steps ++ [s]) =
      journal limits steps ++ signals ((reached limits steps).happenings limits s) := by
    rw [journal_eq_signals, journal_eq_signals, history_concat hs, signals_append]
  have hqueue := hmoves.queue_suffix.length_le
  rw [List.length_append] at hqueue
  rw [reached_concat]
  have hbefore : taken limits steps <+: journal limits (steps ++ [s]) := by
    rw [hjournal]
    exact (List.take_prefix _ _).trans (List.prefix_append _ _)
  have hafter : taken limits (steps ++ [s]) <+: journal limits (steps ++ [s]) :=
    List.take_prefix _ _
  refine ⟨List.prefix_of_prefix_length_le hbefore hafter ?_, hmoves.watermark_le⟩
  simp only [taken, List.length_take, hjournal, List.length_append, reached_concat, size]
  omega

theorem taken_prefix_append (limits : Limits) (steps : List Step) {later : List Step}
    (hclear : .clear ∉ later) :
    taken limits steps <+: taken limits (steps ++ later) ∧
      (reached limits steps).watermark ≤ (reached limits (steps ++ later)).watermark := by
  induction later using List.reverseRecOn with
  | nil => simp
  | append_singleton later s ih =>
    rw [List.mem_append, not_or] at hclear
    obtain ⟨hbefore, hle⟩ := ih hclear.1
    have hs : s ≠ .clear := fun heq => hclear.2 (by simp [heq])
    obtain ⟨hnext, hle'⟩ := taken_prefix_concat limits (steps ++ later) hs
    rw [← List.append_assoc]
    exact ⟨hbefore.trans hnext, le_trans hle hle'⟩

/-- What a drain hands out is not above the commits that have been taken by then. -/
theorem le_max_of_mem_drain (limits : Limits) (steps : List Step) (skips : Xid → Bool)
    (clock : Nat → UInt64) {t : Transaction}
    (ht : t ∈ ((reached limits steps).drain limits skips clock).value) :
    ∃ tso mark, t.tso = some tso ∧
      (commitTsos (taken limits (steps ++ [.drain skips clock]))).max? = some mark ∧
      tso ≤ mark := by
  obtain ⟨k, -, hkey, hle⟩ := key_of_mem_drain (consistent_reached limits steps) ht
  have hmark := (journal_eq limits (steps ++ [.drain skips clock])).2
  have hnext : reached limits (steps ++ [.drain skips clock]) =
      ((reached limits steps).drain limits skips clock).after := reached_concat ..
  rw [← hnext, hmark] at hle
  cases hmax : (commitTsos (taken limits (steps ++ [.drain skips clock]))).max? with
  | none => simp [hmax] at hle
  | some mark =>
    rw [hmax, Option.some_le_some] at hle
    exact ⟨k.tso, mark, Transaction.tso_of_key? hkey, rfl, hle⟩

/-- Queue, watermark and count of pushes are functions of the journal and of how much of it has been
taken off by scans. What has been taken stays taken until the next clear, so the watermark never
goes down; only a drain or a clear changes it, and no drain hands out anything above it. -/
theorem run_mirrors_journal (limits : Limits) (steps : List Step) :
    (journal limits steps = taken limits steps ++ (reached limits steps).queue ∧
      (reached limits steps).watermark = (commitTsos (taken limits steps)).max? ∧
      (reached limits steps).totals.pushed = (journal limits steps).length ∧
      ∀ s ∈ journal limits steps, s.kind = .commit → s.tso.isSome) ∧
    (∀ later, .clear ∉ later →
      taken limits steps <+: taken limits (steps ++ later) ∧
        (reached limits steps).watermark ≤ (reached limits (steps ++ later)).watermark) ∧
    (∀ s, s ≠ .clear → (∀ skips clock, s ≠ .drain skips clock) →
      ((reached limits steps).step limits s).after.watermark =
        (reached limits steps).watermark) ∧
    ∀ skips clock, ∀ t ∈ ((reached limits steps).drain limits skips clock).value,
      ∃ tso mark, t.tso = some tso ∧
        (commitTsos (taken limits (steps ++ [.drain skips clock]))).max? = some mark ∧
        tso ≤ mark := by
  obtain ⟨hsplit, hmark⟩ := journal_eq limits steps
  refine ⟨⟨hsplit, hmark, ?_, ?_⟩, fun later => taken_prefix_append limits steps, ?_,
    fun skips clock t => le_max_of_mem_drain limits steps skips clock⟩
  · rw [journal_eq_signals]
    exact pushed_reached limits steps
  · rintro ⟨kind, x, tso⟩ hs rfl
    rw [journal_eq_signals] at hs
    obtain ⟨given, own, rfl, -⟩ := committed_of_mem_signals hs
    rfl
  · intro s hclear hdrain
    cases s with
    | push skips admitted item => exact (push_frame skips admitted item _).1
    | drain skips clock => exact absurd rfl (hdrain skips clock)
    | takeSkipped => rfl
    | clear => exact absurd rfl hclear

/-- A run in which the later commit has the lower timestamp, inherited from its prewrite, before a
drain that stops at an open prewrite. -/
def regressingRun : List Step :=
  [.push (fun _ => false) true (.prewrite { xid := ⟨"a"⟩ }),
    .push (fun _ => false) true (.prewrite { xid := ⟨"b"⟩, tso := some (.ofTime 5) }),
    .push (fun _ => false) true (.commit ⟨"a"⟩ (some (.ofTime 9))),
    .push (fun _ => false) true (.commit ⟨"b"⟩ none),
    .push (fun _ => false) true (.commit ⟨"b"⟩ none),
    .push (fun _ => false) true (.prewrite { xid := ⟨"c"⟩ })]

theorem regressingRun_mirrors_journal :
    journal {} regressingRun =
        [⟨.prewrite, ⟨"a"⟩, none⟩, ⟨.prewrite, ⟨"b"⟩, some (.ofTime 5)⟩,
          ⟨.commit, ⟨"a"⟩, some (.ofTime 9)⟩, ⟨.commit, ⟨"b"⟩, some (.ofTime 5)⟩,
          ⟨.prewrite, ⟨"c"⟩, none⟩] ∧
      (reached {} regressingRun).watermark ≤
        (reached {} (regressingRun ++ [.drain (fun _ => false) fun _ => 0])).watermark ∧
      ∃ tso mark, some (Tso.ofTime 5) = some tso ∧
        (commitTsos
          (taken {} (regressingRun ++ [.drain (fun _ => false) fun _ => 0]))).max? = some mark ∧
        tso ≤ mark :=
  ⟨by decide, ((run_mirrors_journal {} regressingRun).2.1 _ (by simp)).2,
    (run_mirrors_journal {} regressingRun).2.2.2 (fun _ => false) (fun _ => 0)
      { xid := ⟨"b"⟩, tso := some (.ofTime 5) } (by decide)⟩

end Engine

end ShardMerge
