import ShardMerge.Proofs.Journal

/-!
# Erasing pushes without an effect

A push that is refused, dropped or discarded leaves no trace that a later operation could find: it
changes the first item and two counters at most, and two engines that differ in nothing else
(`Alike`) answer every operation alike. So a run may be replayed without such pushes, and with every
commit let in. The replay accepts every item that is left, and at each moment it answers the same
and is alike (`run_replays`).
-/

namespace ShardMerge

namespace Reply

variable {σ τ α β : Type}

/-- Calls may be chained before or after what they were made on is put into something larger. -/
theorem andThen_within {wrap : σ → τ} {next : α → σ → Reply σ β} {next' : α → τ → Reply τ β}
    (h : ∀ value after, next' value (wrap after) = (next value after).within wrap)
    (r : Reply σ α) : (r.within wrap).andThen next' = (r.andThen next).within wrap := by
  simp only [andThen, within, h]

end Reply

/-- The same operation in a run that lets every commit in. -/
def Step.admitting : Step → Step
  | .push skips _ item => .push skips true item
  | .drain skips clock => .drain skips clock
  | .takeSkipped => .takeSkipped
  | .clear => .clear

namespace Engine

variable {limits : Limits} {e e' : Engine} {skips : Xid → Bool} {admitted : Bool} {item : Item}

/-- The engine with another first item and other counts of the commits that joined no queue. -/
def noting (first : Option Signal) (dropped discarded : Nat) (e : Engine) : Engine :=
  { e with
    firstReceived := first
    totals := { e.totals with droppedCommits := dropped, discardedCommits := discarded } }

/-- Two engines differ at most in their first items and in how many commits they have counted as
dropped and as discarded. -/
def Alike (e e' : Engine) : Prop :=
  ∃ first dropped discarded, e' = e.noting first dropped discarded

theorem Alike.refl (e : Engine) : e.Alike e :=
  ⟨e.firstReceived, e.totals.droppedCommits, e.totals.discardedCommits, rfl⟩

/-- Engines stay alike when one of them notes something. -/
theorem Alike.noting_left (h : e.Alike e') (first : Option Signal) (dropped discarded : Nat) :
    (e.noting first dropped discarded).Alike e' := by
  obtain ⟨first', dropped', discarded', rfl⟩ := h
  exact ⟨first', dropped', discarded', rfl⟩

/-! ## Drains -/

section Noting

variable (first : Option Signal) (dropped discarded : Nat)

@[simp] theorem queue_noting (e : Engine) :
    (e.noting first dropped discarded).queue = e.queue := rfl

theorem setAside_noting (x : Xid) (e : Engine) :
    (e.noting first dropped discarded).setAside x =
      (e.setAside x).noting first dropped discarded := by
  unfold setAside
  by_cases hopen : x ∈ e.pending
  · have hnoting : x ∈ (e.noting first dropped discarded).pending := hopen
    rw [if_pos hopen, if_pos hnoting]
    rfl
  · have hnoting : x ∉ (e.noting first dropped discarded).pending := hopen
    rw [if_neg hopen, if_neg hnoting]

theorem skipHead_noting (skips : Xid → Bool) (e : Engine) :
    (e.noting first dropped discarded).skipHead skips =
      (e.skipHead skips).within (noting first dropped discarded) := by
  simp only [skipHead, queue_noting, setAside_noting]
  split
  next =>
    split
    next => rfl
    next => rfl
  next => rfl

theorem skipStuckHead_noting (limits : Limits) (skips : Xid → Bool) (e : Engine) :
    (e.noting first dropped discarded).skipStuckHead limits skips =
      (e.skipStuckHead limits skips).within (noting first dropped discarded) := by
  simp only [skipStuckHead, queue_noting, skipHead_noting]
  split
  next => rfl
  next => rfl

theorem scan_noting (budget : UInt64) (clock : Nat → UInt64) (e : Engine) :
    (e.noting first dropped discarded).scan budget clock =
      (e.scan budget clock).within (noting first dropped discarded) := rfl

theorem emit_noting (e : Engine) :
    (e.noting first dropped discarded).emit =
      e.emit.within (noting first dropped discarded) := rfl

/-- No drain looks at what is noted: it hands out the same and reports the same. -/
theorem drain_noting (limits : Limits) (skips : Xid → Bool) (clock : Nat → UInt64) (e : Engine) :
    (e.noting first dropped discarded).drain limits skips clock =
      (e.drain limits skips clock).within (noting first dropped discarded) := by
  simp only [drain, queue_noting, skipStuckHead_noting]
  split
  next => rfl
  next =>
    apply Reply.andThen_within
    intro _ e
    rw [scan_noting]
    apply Reply.andThen_within
    intro _ e
    rw [emit_noting]
    apply Reply.andThen_within
    intro batch e
    rfl

end Noting

/-! ## Pushes -/

/-- An accepted item is accepted by every engine that is alike, and leaves it alike. -/
theorem Alike.push (h : e.Alike e') (haccepts : e.accepts skips admitted item = true) :
    e'.accepts skips true item = true ∧
      (e'.push skips true item).value = (e.push skips admitted item).value ∧
      (e.push skips admitted item).after.Alike (e'.push skips true item).after := by
  obtain ⟨first, dropped, discarded, rfl⟩ := h
  rcases settle_cases skips admitted item e with
    ⟨refusal, h⟩ | ⟨t, rfl, hfresh, h⟩ | ⟨x, given, t, tso, rfl, -, hopen, hknown, htimed, h⟩ |
    ⟨x, h⟩ | h
  · simp [accepts, Engine.push, h, Except.isOk, Except.toBool] at haccepts
  · have h' := settle_prewrite (e := e.noting first dropped discarded) skips true hfresh
    refine ⟨?_, ?_, ?_⟩
    · simp [accepts, Engine.push, h', Except.isOk, Except.toBool, book, remember]
    · simp only [Engine.push, h, h']
    · simp only [Engine.push, h, h']
      exact ⟨_, dropped, discarded, rfl⟩
  · have h' := settle_commit (e := e.noting first dropped discarded) skips hopen hknown htimed
    refine ⟨?_, ?_, ?_⟩
    · simp [accepts, Engine.push, h', Except.isOk, Except.toBool, book, remember]
    · simp only [Engine.push, h, h']
    · simp only [Engine.push, h, h']
      exact ⟨_, dropped, discarded, rfl⟩
  · simp [accepts, Engine.push, h, book, remember] at haccepts
  · simp [accepts, Engine.push, h, book, remember] at haccepts

/-- An item that is not accepted is noted at most. -/
theorem push_of_not_accepts (haccepts : e.accepts skips admitted item = false) :
    ∃ first dropped discarded,
      (e.push skips admitted item).after = e.noting first dropped discarded := by
  rcases settle_cases skips admitted item e with
    ⟨refusal, h⟩ | ⟨t, -, -, h⟩ | ⟨x, given, t, tso, -, -, -, -, -, h⟩ | ⟨x, h⟩ | h
  · simp only [push, h]
    exact Alike.refl e
  · simp [accepts, push, h, Except.isOk, Except.toBool, book, remember] at haccepts
  · simp [accepts, push, h, Except.isOk, Except.toBool, book, remember] at haccepts
  · simp only [push, h]
    exact ⟨_, _, e.totals.discardedCommits, rfl⟩
  · simp only [push, h]
    exact ⟨_, e.totals.droppedCommits, _, rfl⟩

/-! ## Replays -/

/-- Whether an operation has an effect: every one but a push that accepts no item. -/
def affects (e : Engine) : Step → Bool
  | .push skips admitted item => e.accepts skips admitted item
  | .drain _ _ | .takeSkipped | .clear => true

/-- The operations of a run, each with the engine that it is made on. -/
def moments (limits : Limits) : List Step → Engine → List (Engine × Step)
  | [], _ => []
  | s :: steps, e => (e, s) :: moments limits steps (e.step limits s).after

/-- The moments of a run at which an operation has an effect. -/
def effective (limits : Limits) (steps : List Step) (e : Engine) : List (Engine × Step) :=
  (moments limits steps e).filter fun m => m.1.affects m.2

/-- The operations of a run that have an effect, with every commit let in. -/
def replay (limits : Limits) (steps : List Step) (e : Engine) : List Step :=
  (effective limits steps e).map fun m => m.2.admitting

/-- At two moments, the same operation has an effect and the same answer, and leaves engines that
are alike. At the second moment every commit is let in. -/
structure Repeats (limits : Limits) (m m' : Engine × Step) : Prop where
  same : m'.2 = m.2.admitting
  effective : m'.1.affects m'.2 = true
  answer : (m'.1.step limits m'.2).value = (m.1.step limits m.2).value
  alike : (m.1.step limits m.2).after.Alike (m'.1.step limits m'.2).after

/-- Engines that are alike repeat each other's operations. -/
theorem Alike.repeats (limits : Limits) (h : e.Alike e') {s : Step}
    (haffects : e.affects s = true) : Repeats limits (e, s) (e', s.admitting) := by
  cases s with
  | push skips admitted item =>
    obtain ⟨haccepts, hvalue, hafter⟩ := h.push haffects
    exact ⟨rfl, haccepts, congrArg Answer.pushed hvalue, hafter⟩
  | drain skips clock =>
    obtain ⟨first, dropped, discarded, rfl⟩ := h
    have hdrain := drain_noting first dropped discarded limits skips clock e
    refine ⟨rfl, rfl, ?_, ?_⟩
    · show Answer.drained ((e.noting first dropped discarded).drain limits skips clock).value = _
      rw [hdrain]
      rfl
    · show (e.drain limits skips clock).after.Alike
        ((e.noting first dropped discarded).drain limits skips clock).after
      rw [hdrain]
      exact ⟨first, dropped, discarded, rfl⟩
  | takeSkipped =>
    obtain ⟨first, dropped, discarded, rfl⟩ := h
    exact ⟨rfl, rfl, rfl, first, dropped, discarded, rfl⟩
  | clear => exact ⟨rfl, rfl, rfl, .refl .empty⟩

/-- An engine stays alike while another one makes an operation without an effect. -/
theorem Alike.step_left (limits : Limits) (h : e.Alike e') {s : Step}
    (haffects : e.affects s = false) : (e.step limits s).after.Alike e' := by
  cases s with
  | push skips admitted item =>
    obtain ⟨first, dropped, discarded, hafter⟩ := push_of_not_accepts haffects
    show (e.push skips admitted item).after.Alike e'
    rw [hafter]
    exact h.noting_left first dropped discarded
  | drain skips clock => cases haffects
  | takeSkipped => cases haffects
  | clear => cases haffects

theorem Alike.replays (limits : Limits) (steps : List Step) (h : e.Alike e') :
    List.Forall₂ (Repeats limits) (effective limits steps e)
        (moments limits (replay limits steps e) e') ∧
      (run limits steps e).after.Alike (run limits (replay limits steps e) e').after := by
  induction steps generalizing e e' with
  | nil => exact ⟨.nil, h⟩
  | cons s steps ih =>
    cases haffects : e.affects s with
    | true =>
      have hrepeats := h.repeats limits haffects
      obtain ⟨hmoments, hafter⟩ := ih hrepeats.alike
      have heffective : effective limits (s :: steps) e =
          (e, s) :: effective limits steps (e.step limits s).after :=
        List.filter_cons_of_pos haffects
      have hreplay : replay limits (s :: steps) e =
          s.admitting :: replay limits steps (e.step limits s).after := by
        rw [replay, heffective, List.map_cons]
        rfl
      rw [heffective, hreplay]
      exact ⟨.cons hrepeats hmoments, hafter⟩
    | false =>
      have heffective : effective limits (s :: steps) e =
          effective limits steps (e.step limits s).after :=
        List.filter_cons_of_neg (by simp [haffects])
      have hreplay : replay limits (s :: steps) e =
          replay limits steps (e.step limits s).after := by
        rw [replay, heffective]
        rfl
      rw [heffective, hreplay]
      exact ih (h.step_left limits haffects)

/-- A run can be replayed without its pushes that were refused, dropped or discarded, whatever the
admission strategy was, by a run that lets every commit in. The replay accepts every item. Each of
its batches and fetches is the same as before, and so is the engine after each of its operations, up
to the first item and the counts of dropped and discarded commits. -/
theorem run_replays (limits : Limits) (steps : List Step) :
    List.Forall₂ (Repeats limits) (effective limits steps .empty)
        (moments limits (replay limits steps .empty) .empty) ∧
      (reached limits steps).Alike (reached limits (replay limits steps .empty)) :=
  (Alike.refl .empty).replays limits steps

/-- A duplicate prewrite, a discarded commit and an excused commit are left out of the replay. -/
example :
    replay {}
        [.push (fun _ => false) true (.prewrite { xid := ⟨"a"⟩ }),
          .push (fun _ => false) true (.prewrite { xid := ⟨"a"⟩ }),
          .push (fun _ => false) false (.commit ⟨"a"⟩ (some (.ofTime 3))),
          .push (fun _ => true) true (.commit ⟨"b"⟩ none),
          .push (fun _ => true) true (.commit ⟨"a"⟩ (some (.ofTime 4))),
          .takeSkipped] .empty =
      [.push (fun _ => false) true (.prewrite { xid := ⟨"a"⟩ }),
        .push (fun _ => true) true (.commit ⟨"a"⟩ (some (.ofTime 4))),
        .takeSkipped] := by rfl

end Engine

end ShardMerge
