import Mathlib.Data.Set.Card
import ShardMerge.Proofs.Audit
import ShardMerge.Proofs.Restart
import ShardMerge.Sorter.Live

/-!
# What a live whitelist decides

What is on a live whitelist is a matter of the last edit that names the identifier
(`Whitelist.contains_edited`); the answers to edits and the size go with it
(`Whitelist.lists_contains`). A sorter puts its question to the whitelist in the very call that
needs the answer, and decides by the edits that have been made until then, whatever it has been
told before (`Sorter.live_decides_by_edits`).
-/

namespace ShardMerge

namespace Whitelist

/-- What an edit says about an identifier: that it is on the whitelist, that it is not, or
nothing. -/
def Edit.says? (x : Xid) : Edit → Option Bool
  | insert y => if y = x then some true else none
  | erase y => if y = x then some false else none
  | replace xids => some (decide (x ∈ xids))

/-- Whether an identifier is on a whitelist that began with the given identifiers: the last edit
that says something about it decides. -/
def listed (initial : List Xid) (edits : List Edit) (x : Xid) : Bool :=
  (edits.reverse.findSome? (Edit.says? x)).getD (decide (x ∈ initial))

/-- A whitelist of which exactly the listed identifiers are members. -/
structure Lists (w : Whitelist) (listed : Xid → Bool) : Prop where
  contains : ∀ x, w.contains x = listed x
  /-- Putting an identifier on answers whether it was missing. -/
  insert : ∀ x, (w.edit (.insert x)).value = some (!listed x)
  /-- Taking an identifier off answers whether it was there. -/
  erase : ∀ x, (w.edit (.erase x)).value = some (listed x)
  size : {x | listed x = true}.encard = w.size
  isEmpty : w.isEmpty = true ↔ ∀ x, listed x = false

theorem contains_eq (w : Whitelist) (x : Xid) : w.contains x = decide (x ∈ w.xids) := by
  rw [Bool.eq_iff_iff, contains_iff, decide_eq_true_iff]

/-- An edit decides about the identifiers about which it says something, and about no others. -/
theorem contains_edit (w : Whitelist) (edit : Edit) (x : Xid) :
    (w.edit edit).after.contains x = (edit.says? x).getD (w.contains x) := by
  rw [contains_eq, contains_eq]
  cases edit with
  | insert y =>
    show decide (x ∈ (w.insert y).2.xids) = _
    rw [Edit.says?]
    split <;> simp_all [mem_insert, eq_comm]
  | erase y =>
    show decide (x ∈ (w.erase y).2.xids) = _
    rw [Edit.says?]
    split <;> simp_all [mem_erase, eq_comm]
  | replace xids =>
    show decide (x ∈ (ofList xids).xids) = _
    simp [mem_ofList, Edit.says?]

theorem contains_edited (w : Whitelist) (edits : List Edit) (x : Xid) :
    (w.edited edits).contains x =
      (edits.reverse.findSome? (Edit.says? x)).getD (w.contains x) := by
  induction edits generalizing w with
  | nil => rfl
  | cons edit edits ih =>
    have hnext : w.edited (edit :: edits) = (w.edit edit).after.edited edits := rfl
    -- Seen from the end, the first edit comes last, and counts if the others say nothing.
    rw [hnext, ih, contains_edit, List.reverse_cons, List.findSome?_append]
    cases edits.reverse.findSome? (Edit.says? x) <;> simp

/-- The last edit that says something about an identifier decides, or else the construction. -/
theorem contains_edited_ofList (initial : List Xid) (edits : List Edit) (x : Xid) :
    ((ofList initial).edited edits).contains x = listed initial edits x := by
  rw [contains_edited, contains_eq, listed]
  simp only [mem_ofList]

/-- The answers to edits and the size of a whitelist go with its members. -/
theorem lists_contains (w : Whitelist) : w.Lists w.contains where
  contains _ := rfl
  insert x := by
    show some (w.insert x).1 = _
    rw [Whitelist.insert, contains_eq]
    split <;> simp_all
  erase x := by
    show some (w.erase x).1 = _
    rw [Whitelist.erase, contains_eq]
    split <;> simp_all
  size := by
    have hmembers : {x | w.contains x = true} = ↑w.xids.toFinset := by
      ext x
      simp [contains_iff]
    rw [hmembers, Set.encard_coe_eq_coe_finsetCard, List.toFinset_card_of_nodup w.nodup]
    rfl
  isEmpty := by
    rw [Whitelist.isEmpty, List.isEmpty_iff, List.eq_nil_iff_forall_not_mem]
    refine forall_congr' fun x => ?_
    rw [contains_eq, decide_eq_false_iff_not]

end Whitelist

namespace Engine

variable {limits : Limits} {skips : Xid → Bool} {e : Engine} {x : Xid}

/-- A drain puts the question about a head that is stuck. -/
theorem asks_drain (skips : Xid → Bool) (clock : Nat → UInt64) {tso : Option Tso}
    {rest : List Signal} (long : limits.skipThreshold.toNat < e.queue.length)
    (head : e.queue = ⟨.prewrite, x, tso⟩ :: rest) :
    .skip x ∈ (e.drain limits skips clock).queries := by
  have hhead : (e.skipHead skips).queries = [.skip x] := by
    simp only [skipHead, head]
    split <;> rfl
  have hasked : (e.skipStuckHead limits skips).queries = [.skip x] := by
    rw [skipStuckHead, if_pos long, hhead]
  have hqueue : e.queue.isEmpty = false := by rw [head]; rfl
  rw [drain, hqueue]
  exact List.mem_append_left _ (hasked ▸ List.mem_singleton_self _)

/-- A drain that skips the head closes it, and adds it to what waits to be fetched. -/
theorem SkipsHead.after_drain (hx : SkipsHead limits skips e x) (clock : Nat → UInt64) :
    (e.drain limits skips clock).after.pending = e.pending.filter (· ≠ x) ∧
      (e.drain limits skips clock).after.skipped =
        e.skipped ++ (e.transaction? x).toList.map Transaction.release := by
  obtain ⟨hskipped, hpending, -⟩ := skipped_drain limits skips clock e
  rw [hskipped, hpending, hx.after_skipStuckHead, setAside, if_pos hx.isOpen]
  exact ⟨rfl, rfl⟩

/-- A drain that does not skip the head closes nothing. -/
theorem after_drain_of_not_skipsHead (hno : ∀ x, ¬ SkipsHead limits skips e x)
    (clock : Nat → UInt64) :
    (e.drain limits skips clock).after.pending = e.pending ∧
      (e.drain limits skips clock).after.skipped = e.skipped := by
  obtain ⟨hskipped, hpending, -⟩ := skipped_drain limits skips clock e
  rcases skipStuckHead_cases limits skips e with ⟨x, hx, -⟩ | ⟨heq, -⟩
  · exact absurd hx (hno x)
  · rw [hskipped, hpending, heq]
    exact ⟨rfl, rfl⟩

end Engine

namespace Sorter

variable {σ : Type} [Admission σ]

/-- A sorter whose next call excuses or skips exactly what is listed, and asks in that call. -/
structure DecidesBy (s : Sorter σ) (listed : Xid → Bool) : Prop where
  /-- A commit without a prewrite is excused and counted if it is listed, or else refused. -/
  commit : ∀ x given, s.engine.transaction? x = none →
    (Admission.judge s.strategy x).admitted = true →
      (s.push (.commit x given)).queries = [.admission x, .skip x] ∧
      if listed x then
        (s.push (.commit x given)).value = .ok () ∧
          (s.push (.commit x given)).after.engine =
            (s.engine.remember (.commit x given)).book (.dropped x)
      else
        (s.push (.commit x given)).value = .error (.unmatchedCommit x) ∧
          (s.push (.commit x given)).after.engine = s.engine
  /-- Nothing is to be decided about a commit that is not let in. -/
  discard : ∀ x given, (Admission.judge s.strategy x).admitted = false →
    (s.push (.commit x given)).queries = [.admission x] ∧
      (s.push (.commit x given)).value = .ok () ∧
      (s.push (.commit x given)).after.engine =
        (s.engine.remember (.commit x given)).book .discarded
  /-- The question about a head that is stuck is put in the drain itself. -/
  asks : ∀ x tso rest, s.limits.skipThreshold.toNat < s.engine.queue.length →
    s.engine.queue = ⟨.prewrite, x, tso⟩ :: rest → .skip x ∈ s.drain.queries
  /-- The open transaction at the head of a long queue is skipped if it is listed. -/
  skips : ∀ x, Engine.SkipsHead s.limits listed s.engine x →
    s.drain.after.engine.pending = s.engine.pending.filter (· ≠ x) ∧
      s.drain.after.engine.skipped =
        s.engine.skipped ++ (s.engine.transaction? x).toList.map Transaction.release
  /-- Otherwise nothing is skipped. -/
  keeps : (∀ x, ¬ Engine.SkipsHead s.limits listed s.engine x) →
    s.drain.after.engine.pending = s.engine.pending ∧
      s.drain.after.engine.skipped = s.engine.skipped

/-- Every sorter decides by its policy as it is at the time of the call. -/
theorem decidesBy_policy (s : Sorter σ) : s.DecidesBy s.policy.skips where
  commit x given hunknown hadmitted := by
    simp only [push, hadmitted, Engine.push_commit_of_unregistered given hunknown]
    split <;> exact ⟨rfl, rfl, rfl⟩
  discard x given hdiscarded := by
    simp only [push, hdiscarded]
    exact ⟨rfl, rfl, rfl⟩
  asks _ _ _ long head := Engine.asks_drain _ _ long head
  skips _ hx := hx.after_drain _
  keeps hno := Engine.after_drain_of_not_skipsHead hno _

/-- Only a caller who replaces the policy changes it. -/
theorem policy_call (s : Sorter σ) {c : Call σ} (hkeeps : ∀ policy, c ≠ .setPolicy policy) :
    (s.call c).after.policy = s.policy := by
  cases c with
  | push item =>
    show (s.push item).after.policy = s.policy
    rw [(s.push_eq_push_engine item).2.1]
  | setPolicy policy => exact absurd rfl (hkeeps policy)
  | drain | takeSkipped | clear | setStrategy | setClock => rfl

/-- As long as nobody replaces the policy, it is the whitelist with its edits. -/
theorem policy_run_calls {w : Whitelist} {steps : List (LiveStep σ)} {s : Sorter σ}
    (hpolicy : s.policy = .listed w) (hshared : ∀ policy, .call (.setPolicy policy) ∉ steps) :
    (run (LiveStep.calls steps w) s).after.policy =
      .listed (w.edited (LiveStep.edits steps)) := by
  induction steps generalizing w s with
  | nil => exact hpolicy
  | cons step steps ih =>
    have hlater : ∀ policy, .call (.setPolicy policy) ∉ steps :=
      fun policy hmem => hshared policy (List.mem_cons_of_mem _ hmem)
    cases step with
    | call c =>
      have hkeeps : ∀ policy, c ≠ .setPolicy policy := by
        rintro policy rfl
        exact hshared policy List.mem_cons_self
      exact ih ((s.policy_call hkeeps).trans hpolicy) hlater
    | edit change => exact ih rfl hlater

/-- A whitelist is a set, whatever it was built from and however it was edited: the last edit that
says something about an identifier decides whether that is a member, and its size and the answers to
edits go with the members. A sorter that consults it, used before and called in between in any way,
puts its questions in the calls that need the answers, and decides by the edits made until then. -/
theorem live_decides_by_edits (s : Sorter σ) (initial : List Xid) (steps : List (LiveStep σ))
    (hshared : ∀ policy, .call (.setPolicy policy) ∉ steps) :
    (∀ edits, ((Whitelist.ofList initial).edited edits).Lists (Whitelist.listed initial edits)) ∧
    (s.live (.ofList initial) steps).policy =
      .listed ((Whitelist.ofList initial).edited (LiveStep.edits steps)) ∧
    (s.live (.ofList initial) steps).DecidesBy
      (Whitelist.listed initial (LiveStep.edits steps)) := by
  have hmembers : ∀ edits, ((Whitelist.ofList initial).edited edits).contains =
      Whitelist.listed initial edits :=
    fun edits => funext (Whitelist.contains_edited_ofList initial edits)
  have hpolicy : (s.live (.ofList initial) steps).policy =
      .listed ((Whitelist.ofList initial).edited (LiveStep.edits steps)) :=
    policy_run_calls rfl hshared
  refine ⟨fun edits => hmembers edits ▸ Whitelist.lists_contains _, hpolicy, ?_⟩
  have hskips : (s.live (.ofList initial) steps).policy.skips =
      Whitelist.listed initial (LiveStep.edits steps) := by
    rw [hpolicy, ← hmembers]
    rfl
  exact hskips ▸ decidesBy_policy _

/-- Steps in which one identifier is put on the whitelist and taken off again, and a transaction is
listed that has been prewritten before. -/
def relistingSteps : List (LiveStep Strategy) :=
  [.call (.push (.commit ⟨"z"⟩ none)), .edit (.insert ⟨"z"⟩), .call (.push (.commit ⟨"z"⟩ none)),
    .edit (.erase ⟨"z"⟩), .call (.push (.prewrite { xid := ⟨"p"⟩ })),
    .edit (.replace [⟨"p"⟩, ⟨"p"⟩])]

/-- The sorter with a live whitelist after these steps. -/
def relistedSorter : Sorter Strategy :=
  listingSorter.live (.ofList [⟨"a"⟩, ⟨"a"⟩]) relistingSteps

/-- A commit that was refused, and then excused, is refused again; the head is skipped. -/
theorem relistedSorter_decides_by_edits :
    ((run (LiveStep.calls relistingSteps (.ofList [⟨"a"⟩, ⟨"a"⟩]))
        (listingSorter.withPolicy (.listed (.ofList [⟨"a"⟩, ⟨"a"⟩])))).value =
      [some (.pushed (.error (.unmatchedCommit ⟨"z"⟩))), none, some (.pushed (.ok ())), none,
        some (.pushed (.ok ())), none]) ∧
    (relistedSorter.push (.commit ⟨"z"⟩ none)).value = .error (.unmatchedCommit ⟨"z"⟩) ∧
    relistedSorter.drain.after.engine.skipped = [Transaction.release { xid := ⟨"p"⟩ }] := by
  have hshared : ∀ policy, .call (.setPolicy policy) ∉ relistingSteps := by
    simp [relistingSteps]
  obtain ⟨-, -, hdecides⟩ := live_decides_by_edits listingSorter [⟨"a"⟩, ⟨"a"⟩] _ hshared
  have hhead : Engine.SkipsHead relistedSorter.limits
      (Whitelist.listed [⟨"a"⟩, ⟨"a"⟩] (LiveStep.edits relistingSteps)) relistedSorter.engine
      ⟨"p"⟩ :=
    ⟨by decide, ⟨none, _, rfl⟩, by decide, by decide⟩
  exact ⟨by rfl, (hdecides.commit ⟨"z"⟩ none rfl rfl).2.1, (hdecides.skips ⟨"p"⟩ hhead).2⟩

end Sorter

end ShardMerge
