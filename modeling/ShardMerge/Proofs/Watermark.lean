import Mathlib.Data.List.Induction
import ShardMerge.Proofs.Steps

/-!
# Queue, watermark and history

The arrival queue and the watermark are functions of the history and of how much of it has been
scanned: the queue is the rest of its signals, and the watermark is the highest timestamp among the
commits before them. The prewrite of an open transaction is never scanned, so an open transaction
holds back whatever has a timestamp above all commits that came before it.
-/

namespace ShardMerge

/-! ## The highest commit -/

/-- A signal raises the watermark or leaves it. -/
theorem Signal.lift_cases (watermark : Option Tso) (s : Signal) :
    s.lift watermark = watermark ∨ ∃ tso, s = ⟨.commit, s.xid, some tso⟩ ∧
      s.lift watermark = some tso := by
  obtain ⟨kind, x, tso⟩ := s
  cases kind with
  | prewrite => exact Or.inl rfl
  | commit =>
    cases tso with
    | none => exact Or.inl rfl
    | some tso =>
      rcases Tso.raise_eq_or watermark tso with h | h
      · exact Or.inl h
      · exact Or.inr ⟨tso, rfl, h⟩

/-- Taking a signal off the queue never lowers the watermark. -/
theorem Signal.le_lift (watermark : Option Tso) (s : Signal) : watermark ≤ s.lift watermark := by
  unfold Signal.lift
  split
  · exact Tso.le_raise _ _
  · exact le_refl _

/-- The highest timestamp among the commits of a list of signals. -/
def highest (ss : List Signal) : Option Tso :=
  ss.foldl Signal.lift none

theorem highest_concat (ss : List Signal) (s : Signal) :
    highest (ss ++ [s]) = s.lift (highest ss) := by
  simp [highest]

/-- The highest timestamp is the one of a commit. -/
theorem mem_of_highest {ss : List Signal} {tso : Tso} (h : highest ss = some tso) :
    ∃ x, ⟨.commit, x, some tso⟩ ∈ ss := by
  induction ss using List.reverseRecOn with
  | nil => simp [highest] at h
  | append_singleton ss s ih =>
    rw [highest_concat] at h
    rcases s.lift_cases (highest ss) with hlift | ⟨tso', hs, hlift⟩
    · obtain ⟨x, hx⟩ := ih (hlift ▸ h)
      exact ⟨x, List.mem_append_left _ hx⟩
    · rw [hlift, Option.some.injEq] at h
      subst h
      exact ⟨s.xid, List.mem_append_right _ (by rw [← hs]; exact List.mem_singleton_self s)⟩

/-- No commit has a timestamp above the highest. -/
theorem le_highest {ss : List Signal} {x : Xid} {tso : Tso} (h : ⟨.commit, x, some tso⟩ ∈ ss) :
    some tso ≤ highest ss := by
  induction ss using List.reverseRecOn with
  | nil => simp at h
  | append_singleton ss s ih =>
    rw [highest_concat]
    rcases List.mem_append.1 h with h | h
    · exact le_trans (ih h) (s.le_lift _)
    · rw [← List.mem_singleton.1 h]
      exact Tso.some_le_raise _ _

/-! ## Queue and watermark -/

namespace Engine

variable {e e' : Engine} {h : List Happening}

/-- The signals of a history are those that have been scanned and those that are queued, and the
watermark is the highest timestamp among the scanned commits. -/
def Mirrors (h : List Happening) (e : Engine) : Prop :=
  ∃ scanned, signals h = scanned ++ e.queue ∧ e.watermark = highest scanned

theorem Move.mirrors {a : List Happening} (hm : Mirrors h e) (m : Move e a e') :
    Mirrors (h ++ a) e' := by
  obtain ⟨scanned, hsignals, hmark⟩ := hm
  cases m with
  | prewrite => exact ⟨scanned, by simp [hsignals], hmark⟩
  | commit => exact ⟨scanned, by simp [hsignals], hmark⟩
  | skip => exact ⟨scanned, by simp [hsignals], hmark⟩
  | @pop s rest head =>
    refine ⟨scanned ++ [s], by simp [hsignals, head], ?_⟩
    rw [highest_concat, ← hmark]
  | release => exact ⟨scanned, by simp [hsignals], hmark⟩
  | fetch => exact ⟨scanned, by simp [hsignals], hmark⟩
  | book => exact ⟨scanned, by simp [hsignals], hmark⟩

theorem mirrors_reached (limits : Limits) (steps : List Step) :
    Mirrors (history limits steps) (reached limits steps) :=
  run_invariant (P := Mirrors) ⟨[], rfl, rfl⟩ (fun _ hm m => m.mirrors hm) limits steps

/-! ## Open prewrites -/

end Engine

/-- A commit of a history has at least this timestamp. -/
def WithinCommits (h : List Happening) (tso : Tso) : Prop :=
  ∃ x given own, .committed x given own ∈ h ∧ tso ≤ own

theorem mem_signals {h : List Happening} {s : Signal} :
    s ∈ signals h ↔ ∃ a ∈ h, a.signal? = some s :=
  List.mem_filterMap

/-- A commit signal comes from a commit. -/
theorem committed_of_mem_signals {h : List Happening} {x : Xid} {tso : Option Tso}
    (hs : ⟨.commit, x, tso⟩ ∈ signals h) :
    ∃ given own, tso = some own ∧ .committed x given own ∈ h := by
  obtain ⟨a, ha, hsignal⟩ := mem_signals.1 hs
  obtain ⟨-, ⟨t, -, heq⟩ | ⟨y, given, own, rfl, heq⟩⟩ := Happening.signal?_cases hsignal
  · cases heq
  · cases heq
    exact ⟨given, own, rfl, ha⟩

namespace Engine

variable {e e' : Engine} {h : List Happening}

/-- The watermark is bounded by the commits before a point from which on all signals are queued. -/
theorem Mirrors.within_commits {before after : List Happening} (hm : Mirrors h e)
    (hsplit : h = before ++ after) (hqueued : signals after <:+ e.queue) {tso : Tso}
    (hle : some tso ≤ e.watermark) : WithinCommits before tso := by
  obtain ⟨scanned, hsignals, hmark⟩ := hm
  obtain ⟨between, hbetween⟩ := hqueued
  have hbefore : signals before = scanned ++ between := by
    rw [hsplit, signals_append, ← hbetween, ← List.append_assoc] at hsignals
    exact List.append_cancel_right hsignals
  cases hw : e.watermark with
  | none => simp [hw] at hle
  | some mark =>
    obtain ⟨x, hx⟩ := mem_of_highest (hmark ▸ hw)
    obtain ⟨given, own, heq, hmem⟩ :=
      committed_of_mem_signals (hbefore ▸ List.mem_append_left between hx)
    rw [hw, heq, Option.some_le_some] at hle
    exact ⟨x, given, own, hmem, hle⟩

/-- The prewrite of the open transaction of an identifier is the last thing that happened to it, it
and all signals after it are still queued, and what was handed out since is bounded by the commits
before it. -/
structure HeldFrom (x : Xid) (before : List Happening) (t : Transaction) (after : List Happening)
    (e : Engine) : Prop where
  own : t.xid = x
  known : e.transaction? x = some t
  last : ∀ a ∈ after, a.xid? ≠ some x
  queued : signals (.prewritten t :: after) <:+ e.queue
  bounded : ∀ u, .emitted u ∈ after → ∃ tso, u.tso = some tso ∧ WithinCommits before tso

/-- An open transaction is held from its prewrite on. -/
def Held (x : Xid) (h : List Happening) (e : Engine) : Prop :=
  ∃ before t after, h = before ++ .prewritten t :: after ∧ HeldFrom x before t after e

/-- What happens to another identifier leaves the signals since a prewrite in the queue, and as long
as they are there, what the watermark has reached is bounded. -/
theorem Held.concat {x : Xid} {a : Happening} (hh : Held x h e) (hm : Mirrors h e)
    (ha : a.xid? ≠ some x)
    (hemitted : ∀ u, a = .emitted u → ∃ tso, u.tso = some tso ∧ some tso ≤ e.watermark)
    (hknown : e'.registry.get? x = e.registry.get? x)
    (hqueue : e'.queue = e.queue ++ signals [a]) : Held x (h ++ [a]) e' := by
  obtain ⟨before, t, after, rfl, hheld⟩ := hh
  refine ⟨before, t, after ++ [a], by simp, hheld.own, hknown.trans hheld.known, ?_, ?_, ?_⟩
  · intro b hmem
    rcases List.mem_append.1 hmem with hmem | hmem
    · exact hheld.last b hmem
    · exact List.mem_singleton.1 hmem ▸ ha
  · obtain ⟨between, hbetween⟩ := hheld.queued
    refine ⟨between, ?_⟩
    rw [hqueue, ← hbetween, ← List.cons_append, signals_append, List.append_assoc]
  · intro u hmem
    rcases List.mem_append.1 hmem with hmem | hmem
    · exact hheld.bounded u hmem
    · obtain ⟨tso, htso, hle⟩ := hemitted u (List.mem_singleton.1 hmem).symm
      exact ⟨tso, htso, hm.within_commits rfl hheld.queued hle⟩

/-- Taking a signal off the arrival queue does not reach the prewrite of an open transaction: it
would have stopped the scan. -/
theorem Held.pop {x : Xid} {s : Signal} {rest : List Signal} {watermark : Option Tso}
    (hh : Held x h e) (hx : x ∈ e.pending) (head : e.queue = s :: rest)
    (resolved : ¬ (s.kind = .prewrite ∧ s.xid ∈ e.pending)) :
    Held x h { e with queue := rest, watermark } := by
  obtain ⟨before, t, after, rfl, hheld⟩ := hh
  refine ⟨before, t, after, rfl, hheld.own, hheld.known, hheld.last, ?_, hheld.bounded⟩
  have hqueued := hheld.queued
  rw [head] at hqueued
  rcases List.suffix_cons_iff.1 hqueued with heq | hrest
  · have hs : (⟨.prewrite, t.xid, t.tso⟩ : Signal) = s := (List.cons.inj heq).1
    exact absurd ⟨by rw [← hs], by rw [← hs, hheld.own]; exact hx⟩ resolved
  · exact hrest

/-- What is handed out is not above the watermark. -/
theorem Move.emitted_le {a : List Happening} (hc : e.Consistent) (m : Move e a e')
    {u : Transaction} (hu : .emitted u ∈ a) :
    ∃ tso, u.tso = some tso ∧ some tso ≤ e.watermark := by
  cases m with
  | @release k ready t least releasable known =>
    obtain rfl : u = t := by simpa using hu
    have hk : k ∈ e.ready := (ReadyQueue.mem_iff_of_least least).2 (Or.inl rfl)
    obtain ⟨t, hknown, htso⟩ := hc.ready_known hk
    cases known.symm.trans hknown
    exact ⟨k.tso, htso, ReadyQueue.releasable_iff.1 releasable⟩
  | prewrite | commit | skip | pop | fetch | book => simp at hu

/-- Every open transaction is held. -/
def Holds (h : List Happening) (e : Engine) : Prop :=
  ∀ x ∈ e.pending, Held x h e

theorem Move.holds {a : List Happening} (hc : e.Consistent) (hm : Mirrors h e) (hh : Holds h e)
    (m : Move e a e') : Holds (h ++ a) e' := by
  intro x hx
  cases m with
  | @prewrite t fresh =>
    have hget := Registry.get?_insert e.registry t.xid x t
    by_cases heq : t.xid = x
    · refine ⟨h, t, [], rfl, heq, hget.trans (if_pos heq), ?_, List.suffix_append _ _, ?_⟩
      · simp
      · simp
    · have hopen : x ∈ e.pending := by simpa [Ne.symm heq] using hx
      exact (hh x hopen).concat hm (by simpa using heq) (by simp) (hget.trans (if_neg heq)) rfl
  | @commit y t given tso isOpen known timed =>
    obtain ⟨hopen, hne⟩ := List.mem_filter.1 hx
    have hget := Registry.get?_modify e.registry y x (·.withTso tso)
    have hne : y ≠ x := by simpa using Ne.symm (of_decide_eq_true hne)
    exact (hh x hopen).concat hm (by simpa using hne) (by simp) (hget.trans (if_neg hne)) rfl
  | @skip y tso rest t head isOpen known =>
    obtain ⟨hopen, hne⟩ := List.mem_filter.1 hx
    have hget := Registry.get?_erase e.registry y x
    have hne : y ≠ x := by simpa using Ne.symm (of_decide_eq_true hne)
    have ht : t.release.xid ≠ x := by rwa [Transaction.xid_release, hc.own known]
    exact (hh x hopen).concat hm (by simpa using ht) (by simp) (hget.trans (if_neg hne))
      (List.append_nil _).symm
  | @pop s rest head resolved =>
    rw [List.append_nil]
    exact (hh x hx).pop hx head resolved
  | @release k ready u least releasable known =>
    have hk : k ∈ e.ready := (ReadyQueue.mem_iff_of_least least).2 (Or.inl rfl)
    have hne := hc.xid_ne_of_open hx hk
    have hget := Registry.get?_erase e.registry k.xid x
    have hu : u.xid ≠ x := by rwa [hc.own known]
    refine (hh x hx).concat hm (by simpa using hu) ?_ (hget.trans (if_neg hne))
      (List.append_nil _).symm
    rintro _ ⟨⟩
    exact (Move.release least releasable known).emitted_le hc (List.mem_singleton_self _)
  | fetch => exact (hh x hx).concat hm (by simp) (by simp) rfl (List.append_nil _).symm
  | book =>
    rw [List.append_nil]
    obtain ⟨before, t, after, hsplit, hheld⟩ := hh x hx
    exact ⟨before, t, after, hsplit, hheld.own, hheld.known, hheld.last, hheld.queued,
      hheld.bounded⟩

theorem holds_reached (limits : Limits) (steps : List Step) :
    Holds (history limits steps) (reached limits steps) := by
  refine (run_invariant (P := fun h e => Mirrors h e ∧ Holds h e) ?_ ?_ limits steps).2
  · exact ⟨⟨[], rfl, rfl⟩, fun x hx => by cases hx⟩
  · intro h e a e' hc hP m
    exact ⟨m.mirrors hP.1, m.holds hc hP.1 hP.2⟩

/-- An open transaction holds back whatever has a timestamp above all commits before its prewrite:
neither the watermark nor what has been handed out since that prewrite is above them, however many
commits came later. -/
theorem run_open_holds_back (limits : Limits) (steps : List Step) {x : Xid}
    (hx : x ∈ (reached limits steps).pending) :
    ∃ before t after, history limits steps = before ++ .prewritten t :: after ∧ t.xid = x ∧
      (reached limits steps).transaction? x = some t ∧
      (∀ a ∈ after, a.xid? ≠ some x) ∧
      (∀ mark, (reached limits steps).watermark = some mark → WithinCommits before mark) ∧
      ∀ u, .emitted u ∈ after → ∃ tso, u.tso = some tso ∧ WithinCommits before tso := by
  obtain ⟨before, t, after, hsplit, hheld⟩ := holds_reached limits steps x hx
  refine ⟨before, t, after, hsplit, hheld.own, hheld.known, hheld.last, ?_, hheld.bounded⟩
  intro mark hmark
  exact (mirrors_reached limits steps).within_commits hsplit hheld.queued (by rw [hmark])

/-- A run in which a transaction stays open while another one is committed behind it. -/
def overtakingRun : List Step :=
  [.push (fun _ => false) true (.prewrite { xid := ⟨"a"⟩ }),
    .push (fun _ => false) true (.commit ⟨"a"⟩ (some (.ofTime 7))),
    .push (fun _ => false) true (.prewrite { xid := ⟨"b"⟩ }),
    .push (fun _ => false) true (.prewrite { xid := ⟨"c"⟩ }),
    .push (fun _ => false) true (.commit ⟨"c"⟩ (some (.ofTime 9))),
    .drain (fun _ => false) (fun _ => 0)]

theorem overtakingRun_held_back :
    ⟨"b"⟩ ∈ (reached {} overtakingRun).pending ∧
      (reached {} overtakingRun).watermark = some (.ofTime 7) ∧
      ∃ before t after, history {} overtakingRun = before ++ .prewritten t :: after ∧
        t.xid = ⟨"b"⟩ ∧ (reached {} overtakingRun).transaction? ⟨"b"⟩ = some t ∧
        (∀ a ∈ after, a.xid? ≠ some ⟨"b"⟩) ∧
        (∀ mark, (reached {} overtakingRun).watermark = some mark → WithinCommits before mark) ∧
        ∀ u, .emitted u ∈ after → ∃ tso, u.tso = some tso ∧ WithinCommits before tso :=
  ⟨by decide, by decide, run_open_holds_back {} overtakingRun (by decide)⟩

end Engine

end ShardMerge
