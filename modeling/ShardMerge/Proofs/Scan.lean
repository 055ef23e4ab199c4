import Mathlib.Order.Bounds.Basic
import ShardMerge.Proofs.Move

/-!
# Scans

What one scan of the arrival queue does, for every queue, every set of open transactions and every
clock. A scan in no hurry takes off all signals before the first open prewrite
(`Scan.clearLength`). A scan is cut short at the first reading over the budget, but it has taken a
signal off by then: the clock is read after a signal, never before the first one. The cases are told
apart by `Scan.Stops`, which follows the scan signal by signal (`Scan.of_stops`); why a scan ends and
what it leaves is read off from there.
-/

namespace ShardMerge

/-- A scan stops at the signal: it is a prewrite, and its transaction is open. -/
def Signal.Blocks (pending : List Xid) (s : Signal) : Prop :=
  s.kind = .prewrite ∧ s.xid ∈ pending

instance (pending : List Xid) (s : Signal) : Decidable (s.Blocks pending) :=
  inferInstanceAs (Decidable (s.kind = .prewrite ∧ s.xid ∈ pending))

namespace Scan

/-- The readings from the `first` to the `last` at which more time than the budget has passed. -/
def overruns (budget : Nat) (elapsed : Nat → Nat) (first last : Nat) : Set Nat :=
  {j ∈ Set.Icc first last | budget < elapsed j}

/-- The number of signals before the first one at which a scan stops. -/
def clearLength (pending : List Xid) (queue : List Signal) : Nat :=
  (queue.takeWhile fun s => ¬ s.Blocks pending).length

variable {pending : List Xid} {budget : Nat} {elapsed : Nat → Nat} {queue rest : List Signal}
  {head : Signal} {watermark : Option Tso} {n m k first last : Nat} {reason : ScanEnd}

theorem clearLength_cons_of_blocks (h : head.Blocks pending) :
    clearLength pending (head :: rest) = 0 := by
  simp [clearLength, h]

theorem clearLength_cons_of_not_blocks (h : ¬ head.Blocks pending) :
    clearLength pending (head :: rest) = clearLength pending rest + 1 := by
  simp [clearLength, h]

theorem isGreatest_clearLength (pending : List Xid) (queue : List Signal) :
    IsGreatest {n | n ≤ queue.length ∧ ∀ s ∈ queue.take n, ¬ s.Blocks pending}
      (clearLength pending queue) := by
  induction queue with
  | nil => exact ⟨by simp [clearLength], fun n hn => hn.1⟩
  | cons head rest ih =>
    by_cases hblocks : head.Blocks pending
    · rw [clearLength_cons_of_blocks hblocks]
      refine ⟨by simp, fun n hn => Nat.le_zero.2 ?_⟩
      by_contra hpos
      obtain ⟨n, rfl⟩ := Nat.exists_eq_succ_of_ne_zero hpos
      exact hn.2 head (by simp) hblocks
    · rw [clearLength_cons_of_not_blocks hblocks]
      refine ⟨⟨Nat.succ_le_succ ih.1.1, ?_⟩, ?_⟩
      · rw [List.take_succ_cons, List.forall_mem_cons]
        exact ⟨hblocks, ih.1.2⟩
      · rintro (_ | n) ⟨hlength, hclear⟩
        · exact Nat.zero_le _
        · rw [List.take_succ_cons, List.forall_mem_cons] at hclear
          exact Nat.succ_le_succ (ih.2 ⟨Nat.le_of_succ_le_succ hlength, hclear.2⟩)

theorem overruns_eq_empty_of_lt (h : last < first) : overruns budget elapsed first last = ∅ := by
  simp [overruns, Set.Icc_eq_empty_of_lt h]

theorem overruns_succ (h : ¬ budget < elapsed first) :
    overruns budget elapsed first last = overruns budget elapsed (first + 1) last := by
  ext j
  simp only [overruns, Set.mem_Icc]
  constructor
  · rintro ⟨⟨hfirst, hlast⟩, hover⟩
    have hne : first ≠ j := by
      rintro rfl
      exact h hover
    exact ⟨⟨by omega, hlast⟩, hover⟩
  · rintro ⟨⟨hfirst, hlast⟩, hover⟩
    exact ⟨⟨by omega, hlast⟩, hover⟩

/-- How a scan ends that has taken `k` signals off a queue, with `n` readings taken before, where a
scan in no hurry would take off `m`. -/
inductive Stops (pending : List Xid) (budget : Nat) (elapsed : Nat → Nat) (queue : List Signal)
    (n m : Nat) : Nat → ScanEnd → Prop where
  /-- It is cut short at the first reading over the budget. -/
  | cut {k : Nat} (first : IsLeast (overruns budget elapsed (n + 1) (n + m)) (n + k)) :
      Stops pending budget elapsed queue n m k (.cut (elapsed (n + k)))
  /-- It is in time, and comes to an open prewrite. -/
  | blocked {s : Signal} {rest : List Signal}
      (inTime : overruns budget elapsed (n + 1) (n + m) = ∅) (next : queue.drop m = s :: rest)
      (isOpen : s.Blocks pending) : Stops pending budget elapsed queue n m m (.blocked s.xid)
  /-- It is in time, and comes to the end of the queue. -/
  | exhausted (inTime : overruns budget elapsed (n + 1) (n + m) = ∅) (all : queue.drop m = []) :
      Stops pending budget elapsed queue n m m .exhausted

/-- One more signal in front, after which the scan is still in time, makes no difference. -/
theorem Stops.cons (h : Stops pending budget elapsed rest (n + 1) m k reason)
    (inTime : ¬ budget < elapsed (n + 1)) (head : Signal) :
    Stops pending budget elapsed (head :: rest) n (m + 1) (k + 1) reason := by
  have hover : overruns budget elapsed (n + 1) (n + (m + 1)) =
      overruns budget elapsed (n + 1 + 1) (n + 1 + m) := by
    rw [overruns_succ inTime, Nat.add_assoc n 1 m, Nat.add_comm m 1]
  cases h with
  | @cut k first =>
    have hnext : n + 1 + k = n + (k + 1) := by omega
    rw [← hover, hnext] at first
    rw [hnext]
    exact .cut first
  | blocked hempty next isOpen => exact .blocked (by rwa [hover]) next isOpen
  | exhausted hempty all => exact .exhausted (by rwa [hover]) all

theorem of_stops (pending : List Xid) (budget : Nat) (elapsed : Nat → Nat) (queue : List Signal)
    (watermark : Option Tso) (n : Nat) :
    ∃ k reason, Stops pending budget elapsed queue n (clearLength pending queue) k reason ∧
      Scan.of pending budget elapsed queue watermark n =
        ⟨queue.drop k, (queue.take k).foldl Signal.lift watermark, n + k, reason⟩ := by
  induction queue generalizing watermark n with
  | nil => exact ⟨0, .exhausted, .exhausted (overruns_eq_empty_of_lt n.lt_succ_self) rfl, rfl⟩
  | cons head rest ih =>
    rw [Scan.of]
    split
    next hblocks =>
      have hm : clearLength pending (head :: rest) = 0 := clearLength_cons_of_blocks hblocks
      rw [hm]
      exact ⟨0, _, .blocked (overruns_eq_empty_of_lt n.lt_succ_self) rfl hblocks, rfl⟩
    next hresolved =>
      have hm : clearLength pending (head :: rest) = clearLength pending rest + 1 :=
        clearLength_cons_of_not_blocks hresolved
      rw [hm]
      dsimp only
      split
      next hover =>
        refine ⟨1, _, .cut ⟨⟨⟨le_refl _, by omega⟩, hover⟩, fun j hj => hj.1.1⟩, rfl⟩
      next hin =>
        obtain ⟨k, reason, hstops, heq⟩ := ih (head.lift watermark) (n + 1)
        refine ⟨k + 1, reason, hstops.cons hin head, ?_⟩
        rw [Nat.add_right_comm] at heq
        exact heq

/-- A scan takes a signal off if the first one does not stop it. -/
theorem Stops.pos (h : Stops pending budget elapsed queue n m k reason) (hm : 0 < m) : 0 < k := by
  cases h with
  | @cut k first =>
    have hlater : n + 1 ≤ n + k := first.1.1.1
    omega
  | blocked | exhausted => exact hm

/-- A scan ends with an empty queue, or at an open prewrite, or when its time is used up. -/
theorem reason_cases (pending : List Xid) (budget : Nat) (elapsed : Nat → Nat)
    (queue : List Signal) (watermark : Option Tso) (n : Nat) :
    ((Scan.of pending budget elapsed queue watermark n).reason = .exhausted ∧
      (Scan.of pending budget elapsed queue watermark n).remaining = []) ∨
    (∃ x tso rest, (Scan.of pending budget elapsed queue watermark n).reason = .blocked x ∧
      (Scan.of pending budget elapsed queue watermark n).remaining = ⟨.prewrite, x, tso⟩ :: rest ∧
      x ∈ pending) ∨
    ∃ spent, (Scan.of pending budget elapsed queue watermark n).reason = .cut spent ∧
      budget < spent := by
  obtain ⟨k, reason, hstops, heq⟩ := of_stops pending budget elapsed queue watermark n
  rw [heq]
  cases hstops with
  | cut first => exact Or.inr (Or.inr ⟨_, rfl, first.1.2⟩)
  | @blocked s rest inTime next isOpen =>
    obtain ⟨kind, x, tso⟩ := s
    obtain ⟨rfl, hopen⟩ := isOpen
    exact Or.inr (Or.inl ⟨x, tso, rest, rfl, next, hopen⟩)
  | exhausted inTime all => exact Or.inl ⟨rfl, all⟩

/-- A scan takes the first signal off before it looks at the clock. -/
theorem remaining_suffix_rest {head : Signal} (rest : List Signal) (watermark : Option Tso)
    (n : Nat) (resolved : ¬ head.Blocks pending) :
    (Scan.of pending budget elapsed (head :: rest) watermark n).remaining <:+ rest := by
  obtain ⟨k, reason, hstops, heq⟩ := of_stops pending budget elapsed (head :: rest) watermark n
  rw [clearLength_cons_of_not_blocks resolved] at hstops
  obtain ⟨k, rfl⟩ := Nat.exists_eq_add_one_of_ne_zero (hstops.pos (Nat.succ_pos _)).ne'
  rw [heq]
  exact List.drop_suffix k rest

end Scan

end ShardMerge
