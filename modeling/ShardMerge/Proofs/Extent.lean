import ShardMerge.Proofs.Journal
import ShardMerge.Proofs.Scan

/-!
# The extent of a scan

How many signals one scan of an engine takes off its arrival queue, how often it reads the clock,
and what it reports (`Engine.scan_extent`).
-/

namespace ShardMerge

namespace Engine

/-- The milliseconds from the start of a scan to a reading; a clock that has gone back counts as not
having moved. -/
def elapsed (clock : Nat → UInt64) (n : Nat) : Nat :=
  (clock n).toNat - (clock 0).toNat

/-- A scan of an engine says and leaves what its scan of the queue says. -/
theorem scan_eq {budget : UInt64} {clock : Nat → UInt64} {e : Engine} {s : Scan}
    (h : Scan.of e.pending budget.toNat (elapsed clock) e.queue e.watermark 0 = s) :
    e.scan budget clock =
      ⟨s, { e with queue := s.remaining, watermark := s.watermark }, s.events,
        .replicate (s.readings + 1) .clock⟩ := by
  subst h
  rfl

/-- Let `m` be the number of signals before the first open prewrite. A scan takes off `k` of them,
raises the watermark to their highest commit, changes nothing else, and reads the clock once at the
start and once after each of them. If one of the first `m` readings after the start is over the
budget, then `k` is the first one that is, and the scan reports that its time is used up. Otherwise
`k` is `m`, and it reports the open prewrite that it has come to, if there is one. -/
theorem scan_extent (budget : UInt64) (clock : Nat → UInt64) (e : Engine) :
    ∃ m k,
      IsGreatest {n | n ≤ e.queue.length ∧ ∀ s ∈ e.queue.take n, ¬ s.Blocks e.pending} m ∧
      (e.scan budget clock).after =
        { e with
          queue := e.queue.drop k
          watermark := (e.watermark.toList ++ commitTsos (e.queue.take k)).max? } ∧
      (e.scan budget clock).queries = .replicate (k + 1) .clock ∧
      (IsLeast (Scan.overruns budget.toNat (elapsed clock) 1 m) k ∧
          (e.scan budget clock).events =
            [.budgetExhausted (elapsed clock k) (e.queue.drop k).length] ∨
        Scan.overruns budget.toNat (elapsed clock) 1 m = ∅ ∧ k = m ∧
          ((∃ s rest, e.queue.drop m = s :: rest ∧ s.Blocks e.pending ∧
              (e.scan budget clock).events = [.notReady s.xid]) ∨
            e.queue.drop m = [] ∧ (e.scan budget clock).events = [])) ∧
      (0 < m → 0 < k) := by
  obtain ⟨k, reason, hstops, hscan⟩ :=
    Scan.of_stops e.pending budget.toNat (elapsed clock) e.queue e.watermark 0
  rw [foldl_lift_eq_max?, Nat.zero_add] at hscan
  rw [scan_eq hscan]
  refine ⟨_, k, Scan.isGreatest_clearLength e.pending e.queue, rfl, rfl, ?_, hstops.pos⟩
  cases hstops with
  | cut first =>
    simp only [Nat.zero_add] at first ⊢
    exact Or.inl ⟨first, rfl⟩
  | blocked inTime next isOpen =>
    simp only [Nat.zero_add] at inTime
    exact Or.inr ⟨inTime, rfl, Or.inl ⟨_, _, next, isOpen, rfl⟩⟩
  | exhausted inTime all =>
    simp only [Nat.zero_add] at inTime
    exact Or.inr ⟨inTime, rfl, Or.inr ⟨all, rfl⟩⟩

/-- The reading after the last signal counts as well. -/
example : (scan 5 (fun n => 6 * n.toUInt64) { queue := [⟨.commit, ⟨"a"⟩, none⟩] }).events =
    [.budgetExhausted 6 0] := by decide

end Engine

end ShardMerge
