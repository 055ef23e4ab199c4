import Mathlib.Data.List.Nodup
import ShardMerge.Proofs.Watermark

/-!
# The order of emission

Each batch is strictly ascending by timestamp and identifier. If the pushed stream is causal, then
all batches of an epoch together are: between operations, every ready transaction has a timestamp
above the watermark, because the watermark is bounded by the commits before its prewrite
(`holds_reached`), and all that has been handed out is not above the watermark.
-/

namespace ShardMerge

/-- In a causal history, a transaction that is prewritten after a commit is itself committed above
it, if it is committed at all. -/
def Causal (h : List Happening) : Prop :=
  ∀ before t since given tso after,
    h = before ++ .prewritten t :: since ++ .committed t.xid given tso :: after →
    (∀ a ∈ since, a.xid? ≠ some t.xid) →
    ∀ x given' tso', .committed x given' tso' ∈ before → tso' < tso

/-- The beginning of a causal history is causal. -/
theorem Causal.of_append {h h' : List Happening} (hcausal : Causal (h ++ h')) : Causal h := by
  intro before t since given tso after heq
  exact hcausal before t since given tso (after ++ h') (by simp [heq])

/-- Batches ascend if all that they hold is strictly ascending, and the timestamps even from one
batch to the next. -/
structure Ascends (bs : List (List Transaction)) : Prop where
  timed : ∀ t ∈ bs.flatten, t.tso.isSome
  ascending : bs.flatten.Pairwise fun t u => t.key? < u.key?
  separate : bs.Pairwise fun b b' => ∀ t ∈ b, ∀ u ∈ b', t.tso < u.tso

/-- The timestamp decides first. -/
theorem Transaction.key?_lt_of_tso_lt {t u : Transaction} (h : t.tso < u.tso) :
    t.key? < u.key? := by
  unfold key?
  cases hu : u.tso with
  | none => simp [hu] at h
  | some b =>
    cases ht : t.tso with
    | none => simp
    | some a =>
      rw [ht, hu, Option.some_lt_some] at h
      exact Option.some_lt_some.2 (ReadyKey.lt_of_tso_lt h)

/-- No two transactions are each before the other. -/
theorem Transaction.not_key?_lt {t u : Transaction} (h : t.key? < u.key?) :
    ¬ u.key? < t.key? := by
  intro h'
  cases ht : t.key? with
  | none => simp [ht] at h'
  | some k =>
    cases hu : u.key? with
    | none => simp [hu] at h
    | some l =>
      rw [ht, hu, Option.some_lt_some] at h h'
      exact lt_asymm h h'

/-- What ascends strictly holds no transaction twice. -/
theorem nodup_of_ascending {ts : List Transaction}
    (h : ts.Pairwise fun t u => t.key? < u.key?) : ts.Nodup := by
  refine h.imp ?_
  rintro t u hlt rfl
  exact Transaction.not_key?_lt hlt hlt

/-- Lists in strict order that hold the same transactions are the same. -/
theorem eq_of_perm_of_ascending {us vs : List Transaction} (hperm : us.Perm vs)
    (hus : us.Pairwise fun t u => t.key? < u.key?) (hvs : vs.Pairwise fun t u => t.key? < u.key?) :
    us = vs :=
  hperm.eq_of_pairwise (fun _ _ _ _ h h' => absurd h' (Transaction.not_key?_lt h)) hus hvs

/-- Batches still ascend with one more that is above all of them. -/
theorem Ascends.concat {bs : List (List Transaction)} {b : List Transaction} (hbs : Ascends bs)
    (timed : ∀ u ∈ b, u.tso.isSome) (ascending : b.Pairwise fun t u => t.key? < u.key?)
    (above : ∀ t ∈ bs.flatten, ∀ u ∈ b, t.tso < u.tso) : Ascends (bs ++ [b]) := by
  have hflatten : (bs ++ [b]).flatten = bs.flatten ++ b := by simp
  refine ⟨?_, ?_, ?_⟩
  · intro t ht
    rw [hflatten] at ht
    rcases List.mem_append.1 ht with ht | ht
    · exact hbs.timed t ht
    · exact timed t ht
  · rw [hflatten, List.pairwise_append]
    refine ⟨hbs.ascending, ascending, ?_⟩
    intro t ht u hu
    exact Transaction.key?_lt_of_tso_lt (above t ht u hu)
  · rw [List.pairwise_append]
    refine ⟨hbs.separate, List.pairwise_singleton _ _, ?_⟩
    intro b' hb' b'' hb'' t ht u hu
    rw [List.mem_singleton.1 hb''] at hu
    exact above t (List.mem_flatten_of_mem hb' ht) u hu

namespace Engine

variable {limits : Limits} {e e' : Engine} {h a : List Happening} {skips : Xid → Bool}
  {clock : Nat → UInt64}

/-! ## One batch -/

/-- No move lowers the watermark. -/
theorem Move.watermark_le (m : Move e a e') : e.watermark ≤ e'.watermark := by
  cases m with
  | @pop s => exact s.le_lift _
  | prewrite | commit | skip | release | fetch | book => exact le_refl _

theorem Moves.watermark_le (m : Moves e a e') : e.watermark ≤ e'.watermark := by
  induction m with
  | refl => exact le_refl _
  | cons head _ ih => exact le_trans head.watermark_le ih

/-- The ready keys up to a watermark ascend strictly. -/
theorem Consistent.upTo_ascending (hc : e.Consistent) (watermark : Option Tso) :
    (e.ready.upTo watermark).Pairwise (· < ·) := by
  have hne : e.ready.keys.Nodup := hc.ready_nodup.of_map _
  have hlt := (e.ready.sorted.and hne).imp fun hk => lt_of_le_of_ne hk.1 hk.2
  exact hlt.sublist (List.takeWhile_sublist _)

/-- Every batch is strictly ascending. -/
theorem drain_ascending (hc : e.Consistent) :
    (e.drain limits skips clock).value.Pairwise fun t u => t.key? < u.key? := by
  by_cases hqueue : e.queue = []
  · simp [drain, hqueue]
  · have hkeys := (drain_keys limits skips clock hc hqueue).1
    rw [← List.pairwise_map (f := Transaction.key?) (R := (· < ·)), hkeys, List.pairwise_map]
    exact (hc.upTo_ascending _).imp Option.some_lt_some.2

/-! ## Ready transactions and the watermark -/

/-- Every ready transaction has a timestamp above the watermark. -/
def AwaitsWatermark (e : Engine) : Prop :=
  ∀ k ∈ e.ready, e.watermark < some k.tso

/-- In a causal history, what becomes ready is above the watermark. -/
theorem push_awaits {admitted : Bool} {item : Item} (hm : Mirrors h e) (hh : Holds h e)
    (ha : e.AwaitsWatermark)
    (hcausal : Causal (h ++ e.happenings limits (.push skips admitted item))) :
    (e.push skips admitted item).after.AwaitsWatermark := by
  rcases push_cases e skips admitted item with
    ⟨t, first, totals, rfl, hfresh, hafter⟩ |
    ⟨x, given, t, tso, first, totals, rfl, hopen, hknown, htimed, hafter⟩ |
    ⟨first, totals, hafter⟩
  · rw [hafter]
    exact ha
  · obtain ⟨before, t', since, rfl, hheld⟩ := hh x hopen
    have hnow : e.happenings limits (.push skips admitted (.commit x given)) =
        [.committed x given tso] := by
      simp [happenings, hafter, Happening.ofSignal]
    rw [hnow, ← hheld.own] at hcausal
    have hlt := hcausal before t' since given tso [] rfl (hheld.own.symm ▸ hheld.last)
    rw [hafter]
    intro k hk
    rcases ReadyQueue.mem_push.1 hk with rfl | hk
    · show e.watermark < some tso
      rw [Tso.lt_some_iff]
      intro hle
      obtain ⟨y, given', own, hmem, hle⟩ := hm.within_commits rfl hheld.queued hle
      exact absurd (hlt y given' own hmem) (not_lt.2 hle)
    · exact ha k hk
  · rw [hafter]
    exact ha

/-- A drain hands out whatever the watermark has reached. -/
theorem awaits_after_drain (limits : Limits) (skips : Xid → Bool) (clock : Nat → UInt64)
    (hc : e.Consistent) (hqueue : e.queue ≠ []) :
    (e.drain limits skips clock).after.AwaitsWatermark := by
  have hready := (drain_keys limits skips clock hc hqueue).2
  intro k hk
  rw [hready] at hk
  have hnot := ReadyQueue.not_releasable_of_mem_beyond hk
  rw [ReadyQueue.releasable_iff] at hnot
  exact Tso.lt_some_iff.2 hnot

theorem drain_awaits (hc : e.Consistent) (ha : e.AwaitsWatermark) :
    (e.drain limits skips clock).after.AwaitsWatermark := by
  by_cases hqueue : e.queue = []
  · simpa [drain, hqueue] using ha
  · exact awaits_after_drain limits skips clock hc hqueue

/-! ## All batches -/

/-- The watermark of an engine lies between what has been handed out and what is ready. -/
structure Parts (bs : List (List Transaction)) (e : Engine) : Prop where
  ascends : Ascends bs
  reached : ∀ t ∈ bs.flatten, t.tso ≤ e.watermark
  awaits : e.AwaitsWatermark

theorem parts_start : Parts [] .empty where
  ascends := ⟨by simp, .nil, .nil⟩
  reached := by simp
  awaits := fun k hk => by cases hk

/-- A drain moves the watermark and hands out what it passes. -/
theorem Parts.drain {bs : List (List Transaction)} (hp : Parts bs e) (hc : e.Consistent) :
    Parts (bs ++ [(e.drain limits skips clock).value]) (e.drain limits skips clock).after := by
  have hle := (drain_moves limits skips clock hc).watermark_le
  refine ⟨hp.ascends.concat ?_ (drain_ascending hc) ?_, ?_, drain_awaits hc hp.awaits⟩
  · intro u hu
    obtain ⟨k, -, hkey, -⟩ := key_of_mem_drain hc hu
    simp [Transaction.tso_of_key? hkey]
  · intro t ht u hu
    obtain ⟨k, hk, hkey, -⟩ := key_of_mem_drain hc hu
    rw [Transaction.tso_of_key? hkey]
    exact lt_of_le_of_lt (hp.reached t ht) (hp.awaits k hk)
  · intro t ht
    rw [List.flatten_concat, List.mem_append] at ht
    rcases ht with ht | ht
    · exact le_trans (hp.reached t ht) hle
    · obtain ⟨k, -, hkey, hreached⟩ := key_of_mem_drain hc ht
      rwa [Transaction.tso_of_key? hkey]

/-- In a causal epoch, the watermark always lies between what has been handed out and what is
ready. -/
theorem parts_reached {steps : List Step} (hclear : .clear ∉ steps)
    (hcausal : Causal (history limits steps)) :
    Parts (handedOut limits steps) (reached limits steps) := by
  induction steps using List.reverseRecOn with
  | nil => exact parts_start
  | append_singleton steps s ih =>
    rw [List.mem_append, not_or] at hclear
    have hs : s ≠ .clear := fun heq => hclear.2 (by simp [heq])
    rw [history_concat hs] at hcausal
    have hp := ih hclear.1 hcausal.of_append
    rw [handedOut_concat, reached_concat]
    cases s with
    | push skips admitted item =>
      have hle := (push_moves limits (reached limits steps) skips admitted item).watermark_le
      have hawaits := push_awaits (mirrors_reached limits steps) (holds_reached limits steps)
        hp.awaits hcausal
      simp only [step, Reply.map, batches_singleton_pushed, List.append_nil]
      exact ⟨hp.ascends, fun t ht => le_trans (hp.reached t ht) hle, hawaits⟩
    | drain skips clock => exact hp.drain (consistent_reached limits steps)
    | takeSkipped =>
      simp only [step, Reply.map, batches_singleton_tookSkipped, List.append_nil]
      exact ⟨hp.ascends, hp.reached, hp.awaits⟩
    | clear => exact absurd rfl hs

/-- If the pushed stream is causal, all that is handed out without a clear in between is strictly
ascending by timestamp and identifier, and the timestamps ascend even from one batch to the next. -/
theorem run_ascends (limits : Limits) (steps : List Step) (hclear : .clear ∉ steps)
    (hcausal : Causal (history limits steps)) : Ascends (handedOut limits steps) :=
  (parts_reached hclear hcausal).ascends

/-- A causal run in which two transactions are committed against their order, and a third one starts
after both. -/
def causalRun : List Step :=
  [.push (fun _ => false) true (.prewrite { xid := ⟨"a"⟩ }),
    .push (fun _ => false) true (.prewrite { xid := ⟨"b"⟩ }),
    .push (fun _ => false) true (.commit ⟨"b"⟩ (some (.ofTime 9))),
    .drain (fun _ => false) (fun _ => 0),
    .push (fun _ => false) true (.commit ⟨"a"⟩ (some (.ofTime 7))),
    .push (fun _ => false) true (.prewrite { xid := ⟨"c"⟩ }),
    .drain (fun _ => false) (fun _ => 0),
    .push (fun _ => false) true (.commit ⟨"c"⟩ (some (.ofTime 11))),
    .drain (fun _ => false) (fun _ => 0)]

theorem causal_causalRun : Causal (history {} causalRun) := by
  have hhistory : history {} causalRun =
      [.prewritten { xid := ⟨"a"⟩ }, .prewritten { xid := ⟨"b"⟩ },
        .committed ⟨"b"⟩ (some (.ofTime 9)) (.ofTime 9),
        .committed ⟨"a"⟩ (some (.ofTime 7)) (.ofTime 7),
        .prewritten { xid := ⟨"c"⟩ }, .emitted { xid := ⟨"a"⟩, tso := some (.ofTime 7) },
        .emitted { xid := ⟨"b"⟩, tso := some (.ofTime 9) },
        .committed ⟨"c"⟩ (some (.ofTime 11)) (.ofTime 11),
        .emitted { xid := ⟨"c"⟩, tso := some (.ofTime 11) }] := by decide
  intro before t since given tso after heq _ x given' tso' hmem
  have hown : .committed t.xid given tso ∈ history {} causalRun := by simp [heq]
  rw [hhistory] at hown heq
  rw [List.append_assoc] at heq
  simp only [List.cons_append, List.cons_eq_append_iff] at heq
  -- only the third prewrite has commits before it
  simp at heq
  rcases heq with ⟨rfl, -⟩ | ⟨_, rfl, ⟨rfl, -⟩ | ⟨rfl, rfl, -⟩⟩
  · simp at hmem
  · simp at hmem
  · simp at hown hmem
    obtain ⟨-, rfl⟩ := hown
    rcases hmem with ⟨-, -, rfl⟩ | ⟨-, -, rfl⟩
    · decide
    · decide

theorem causalRun_ascends :
    handedOut {} causalRun =
        [[], [{ xid := ⟨"a"⟩, tso := some (.ofTime 7) }, { xid := ⟨"b"⟩, tso := some (.ofTime 9) }],
          [{ xid := ⟨"c"⟩, tso := some (.ofTime 11) }]] ∧
      Ascends (handedOut {} causalRun) :=
  ⟨by decide, run_ascends {} causalRun (by simp [causalRun]) causal_causalRun⟩

end Engine

end ShardMerge
