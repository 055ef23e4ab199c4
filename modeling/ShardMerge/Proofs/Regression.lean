import ShardMerge.Proofs.Checks
import ShardMerge.Proofs.Epoch
import ShardMerge.Proofs.Reports

/-!
# Regressions

A drain compares its batch with the key of the last transaction that was handed out before it, which
stands for all batches of the epoch: a batch is in order behind others if it is in order behind the
last key of them (`emissionOrdered_append`). So a regression is reported exactly when a batch starts
below the end of the latest batch before it that holds anything, and an epoch without such a report
is one whose batches ascend when put together (`run_reports_regressions`).
-/

namespace ShardMerge

/-- Of a batch put in front of another one, only the last key matters for the other one. -/
theorem emissionOrdered_cons (previous : Option ReadyKey) (t : Transaction)
    (batch : List Transaction) :
    emissionOrdered previous (t :: batch) =
      (emissionOrdered previous [t] && emissionOrdered (t.key?.or previous) batch) := by
  cases ht : t.tso with
  | none => simp [emissionOrdered, ascendsFrom, ht]
  | some tso => simp [emissionOrdered, ascendsFrom, Transaction.key?, ht]

theorem lastKey_concat (batch : List Transaction) (t : Transaction) :
    lastKey (batch ++ [t]) = t.key? := by
  simp [lastKey, Transaction.key?]

/-- Two batches are in order together if the first is, and the second behind the last key of the
first. -/
theorem emissionOrdered_append (previous : Option ReadyKey) (batch batch' : List Transaction) :
    emissionOrdered previous (batch ++ batch') =
      (emissionOrdered previous batch && emissionOrdered ((lastKey batch).or previous) batch') := by
  induction batch using List.reverseRecOn generalizing batch' with
  | nil => simp [emissionOrdered, ascendsFrom, lastKey]
  | append_singleton batch t ih =>
    rw [List.append_assoc, List.singleton_append, ih, ih [t], emissionOrdered_cons, lastKey_concat,
      Bool.and_assoc]
    cases ht : t.tso with
    | none => simp [emissionOrdered, ascendsFrom, ht]
    | some tso => simp [Transaction.key?, ht]

/-- The last key of two batches together is the one of the second if that holds anything. -/
theorem lastKey_append {batch batch' : List Transaction} (timed : ∀ t ∈ batch', t.tso.isSome) :
    lastKey (batch ++ batch') = (lastKey batch').or (lastKey batch) := by
  rcases List.eq_nil_or_concat batch' with rfl | ⟨rest, t, rfl⟩
  · simp [lastKey]
  · obtain ⟨tso, htso⟩ := Option.isSome_iff_exists.1 (timed t (by simp))
    rw [List.concat_eq_append, ← List.append_assoc, lastKey_concat, lastKey_concat]
    simp [Transaction.key?, htso]

/-- A batch regresses behind earlier ones if it starts below the last transaction, of the given key,
of the latest of them that holds anything. -/
def Regresses (earlier : List (List Transaction)) (last : ReadyKey) (batch : List Transaction) :
    Prop :=
  ∃ before latest empties u t, earlier = before ++ latest :: empties ∧ (∀ b ∈ empties, b = []) ∧
    latest.getLast? = some u ∧ u.key? = some last ∧ batch.head? = some t ∧ t.tso < u.tso

/-- The last key of some batches is the one of the latest of them that holds anything. -/
theorem lastKey_flatten_eq_some_iff {bs : List (List Transaction)} {last : ReadyKey} :
    lastKey bs.flatten = some last ↔
      ∃ before latest empties u, bs = before ++ latest :: empties ∧ (∀ b ∈ empties, b = []) ∧
        latest.getLast? = some u ∧ u.key? = some last := by
  have hlast : lastKey bs.flatten = some last ↔
      ∃ u, bs.flatten.getLast? = some u ∧ u.key? = some last := Option.bind_eq_some_iff
  rw [hlast]
  simp only [List.getLast?_flatten, List.findSome?_eq_some_iff, List.getLast?_eq_none_iff]
  constructor
  · rintro ⟨u, ⟨empties, latest, before, hbs, hu, hempties⟩, hkey⟩
    refine ⟨before.reverse, latest, empties.reverse, u, ?_, ?_, hu, hkey⟩
    · simpa using congrArg List.reverse hbs
    · simpa using hempties
  · rintro ⟨before, latest, empties, u, rfl, hempties, hu, hkey⟩
    exact ⟨u, ⟨empties.reverse, latest, before.reverse, by simp, hu, by simpa using hempties⟩, hkey⟩

/-- Of the earlier batches, only their last key matters. -/
theorem regresses_iff {earlier : List (List Transaction)} {last : ReadyKey}
    {batch : List Transaction} :
    Regresses earlier last batch ↔
      lastKey earlier.flatten = some last ∧
        ∃ t, batch.head? = some t ∧ t.tso < some last.tso := by
  rw [lastKey_flatten_eq_some_iff]
  constructor
  · rintro ⟨before, latest, empties, u, t, hsplit, hempties, hu, hkey, ht, hlt⟩
    rw [Transaction.tso_of_key? hkey] at hlt
    exact ⟨⟨before, latest, empties, u, hsplit, hempties, hu, hkey⟩, t, ht, hlt⟩
  · rintro ⟨⟨before, latest, empties, u, hsplit, hempties, hu, hkey⟩, t, ht, hlt⟩
    rw [← Transaction.tso_of_key? hkey] at hlt
    exact ⟨before, latest, empties, u, t, hsplit, hempties, hu, hkey, ht, hlt⟩

/-- A batch in ascending order is out of order behind a key exactly if it starts below it. -/
theorem emissionOrdered_eq_false_iff {previous : Option ReadyKey} {batch : List Transaction}
    (hbatch : emissionOrdered none batch = true) :
    emissionOrdered previous batch = false ↔
      ∃ last t, previous = some last ∧ batch.head? = some t ∧ t.tso < some last.tso := by
  cases previous with
  | none => simp [hbatch]
  | some last =>
    cases batch with
    | nil => simp [emissionOrdered, ascendsFrom]
    | cons t batch =>
      cases ht : t.tso with
      | none => simp [emissionOrdered, ascendsFrom, ht] at hbatch
      | some tso =>
        have hrest : ascendsFrom (some tso) batch = true := by
          simpa [emissionOrdered, ascendsFrom, ht] using hbatch
        simp [emissionOrdered, ascendsFrom, ht, hrest]

namespace Engine

variable {limits : Limits} {e : Engine}

/-- The transactions that an operation hands out. -/
def batchOf (limits : Limits) (e : Engine) (s : Step) : List Transaction :=
  (batches [(e.step limits s).value]).flatten

/-- What an operation hands out ascends, and all of it has timestamps. -/
theorem batchOf_ordered (hc : e.Consistent) (s : Step) :
    emissionOrdered none (e.batchOf limits s) = true ∧ ∀ t ∈ e.batchOf limits s, t.tso.isSome := by
  cases s with
  | push skips admitted item => simp [batchOf, step, Reply.map, emissionOrdered, ascendsFrom]
  | drain skips clock =>
    have hordered := (drain_passes limits skips clock hc).ordered
    have htimed := (ascendsFrom_iff.1 hordered).1
    simp only [batchOf, step, Reply.map, batches_singleton_drained, List.flatten_singleton]
    exact ⟨hordered, fun t ht => (htimed t ht).1⟩
  | takeSkipped => simp [batchOf, step, Reply.map, emissionOrdered, ascendsFrom]
  | clear => simp [batchOf, step, Reply.map, batches, emissionOrdered, ascendsFrom]

/-- An operation reports a regression exactly if what it hands out is not in order behind the last
key that was handed out. -/
theorem regressed_mem_step_iff (hc : e.Consistent) (s : Step) {last : Option ReadyKey} :
    .regressed last ∈ (e.step limits s).events ↔
      last = e.lastEmitted ∧ emissionOrdered e.lastEmitted (e.batchOf limits s) = false := by
  cases s with
  | push skips admitted item =>
    have hno : .regressed last ∉ (e.push skips admitted item).events := by
      intro hmem
      rcases mem_events_push hmem with ⟨x, heq⟩ | heq
      · cases heq
      · cases heq
    simp [batchOf, step, Reply.map, emissionOrdered, ascendsFrom, hno]
  | drain skips clock =>
    simp only [batchOf, step, Reply.map, batches_singleton_drained, List.flatten_singleton]
    constructor
    · intro hmem
      cases drainReports_of_mem_events hc hmem with
      | regressed hunordered => exact ⟨rfl, hunordered⟩
    · rintro ⟨rfl, hunordered⟩
      exact regressed_mem_events limits skips clock hunordered
  | takeSkipped => simp [batchOf, step, Reply.map, takeSkipped, emissionOrdered, ascendsFrom]
  | clear => simp [batchOf, step, Reply.map, clear, batches, emissionOrdered, ascendsFrom]

/-- The last key that was handed out is the one of what an operation hands out, if that is
anything. -/
theorem lastEmitted_step {s : Step} (hs : s ≠ .clear) :
    (e.step limits s).after.lastEmitted = (lastKey (e.batchOf limits s)).or e.lastEmitted := by
  cases s with
  | push skips admitted item => exact (push_frame skips admitted item e).2.1
  | drain skips clock =>
    simp only [batchOf, step, Reply.map, batches_singleton_drained, List.flatten_singleton]
    by_cases hqueue : e.queue = []
    · rw [drain_of_queue_nil limits skips clock hqueue]
      rfl
    · rw [after_drain limits skips clock hqueue, value_drain limits skips clock hqueue]
      have hlast : (e.scanned limits skips clock).emit.after.lastEmitted = e.lastEmitted :=
        lastEmitted_scanned limits skips clock e
      simp only [deliver, hlast]
  | takeSkipped => rfl
  | clear => exact absurd rfl hs

theorem flatten_handedOut_concat (limits : Limits) (steps : List Step) (s : Step) :
    (handedOut limits (steps ++ [s])).flatten =
      (handedOut limits steps).flatten ++ (reached limits steps).batchOf limits s := by
  rw [handedOut_concat, List.flatten_append, batchOf]

/-- The last key that was handed out stands for all batches: it is the one of the batches together,
and they are in order together if no regression has been reported. -/
structure Supervised (limits : Limits) (steps : List Step) : Prop where
  last : (reached limits steps).lastEmitted = lastKey (handedOut limits steps).flatten
  timed : ∀ t ∈ (handedOut limits steps).flatten, t.tso.isSome
  reported : (∀ last, .regressed last ∉ (run limits steps .empty).events) ↔
    emissionOrdered none (handedOut limits steps).flatten = true

theorem Supervised.concat {steps : List Step} {s : Step} (hp : Supervised limits steps)
    (hs : s ≠ .clear) : Supervised limits (steps ++ [s]) := by
  have hc := consistent_reached limits steps
  have htimed : ∀ t ∈ (reached limits steps).batchOf limits s, t.tso.isSome :=
    (batchOf_ordered hc s).2
  refine ⟨?_, ?_, ?_⟩
  · rw [reached_concat, lastEmitted_step hs, flatten_handedOut_concat, lastKey_append htimed,
      hp.last]
  · rw [flatten_handedOut_concat]
    exact List.forall_mem_append.2 ⟨hp.timed, htimed⟩
  · rw [flatten_handedOut_concat, emissionOrdered_append, Option.or_none, ← hp.last,
      Bool.and_eq_true, ← hp.reported, events_run_concat]
    simp only [List.mem_append, not_or, forall_and, regressed_mem_step_iff hc, not_and,
      Bool.not_eq_false, forall_eq]

theorem supervised_epoch (limits : Limits) (steps : List Step) :
    Supervised limits (epoch steps) :=
  epoch_induction (P := Supervised limits)
    ⟨rfl, by simp [handedOut, run, batches], by simp [run, handedOut, batches, emissionOrdered,
      ascendsFrom]⟩
    (fun _ _ hs hp => hp.concat hs) steps

/-- A regression is reported exactly when a batch starts below the end of the latest batch of the
epoch before it that holds anything, with the key of that end; no other operation reports one. So an
epoch reports none exactly if its batches, put together, are in order, and that is, ascend. -/
theorem run_reports_regressions (limits : Limits) (steps : List Step) :
    (∀ s last, .regressed last ∈ ((reached limits steps).step limits s).events ↔
      ∃ key, last = some key ∧
        Regresses (handedOut limits (epoch steps)) key ((reached limits steps).batchOf limits s)) ∧
    ((∀ last, .regressed last ∉ (run limits (epoch steps) .empty).events) ↔
      emissionOrdered none (handedOut limits (epoch steps)).flatten = true) ∧
    (emissionOrdered none (handedOut limits (epoch steps)).flatten = true ↔
      (handedOut limits (epoch steps)).flatten.Pairwise fun t u => t.tso ≤ u.tso) := by
  have hp := supervised_epoch limits steps
  have hc := consistent_reached limits steps
  refine ⟨fun s last => ?_, hp.reported, ?_⟩
  · rw [regressed_mem_step_iff hc, emissionOrdered_eq_false_iff (batchOf_ordered hc s).1,
      ← (history_epoch limits steps).2, hp.last]
    simp only [regresses_iff]
    constructor
    · rintro ⟨rfl, key, t, hlast, ht, hlt⟩
      exact ⟨key, hlast, hlast, t, ht, hlt⟩
    · rintro ⟨key, rfl, hlast, t, ht, hlt⟩
      exact ⟨hlast.symm, key, t, hlast, ht, hlt⟩
  · rw [emissionOrdered, ascendsFrom_iff]
    exact and_iff_right fun t ht => ⟨hp.timed t ht, Option.none_le⟩

/-- A run in which the second transaction is committed below the first, which has left already. -/
def belatedRun : List Step :=
  [.push (fun _ => false) true (.prewrite { xid := ⟨"a"⟩ }),
    .push (fun _ => false) true (.commit ⟨"a"⟩ (some (.ofTime 10))),
    .drain (fun _ => false) (fun _ => 0),
    .drain (fun _ => false) (fun _ => 0),
    .push (fun _ => false) true (.prewrite { xid := ⟨"b"⟩ }),
    .push (fun _ => false) true (.commit ⟨"b"⟩ (some (.ofTime 5))),
    .drain (fun _ => false) (fun _ => 0)]

example :
    .regressed (some ⟨.ofTime 10, ⟨"a"⟩⟩) ∈ (run {} belatedRun .empty).events ∧
      emissionOrdered none (handedOut {} belatedRun).flatten = false := by
  decide

end Engine

end ShardMerge
