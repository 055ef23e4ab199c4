import ShardMerge.Proofs.EmissionOrder

/-!
# The checks of a drain

What the checks of batches and indices mean: a batch ascends (`ascendsFrom_iff`), no transaction of
it is above the watermark (`withinWatermark_iff`), and what is open or ready is registered
(`registryConsistent_iff`). What a drain hands out and leaves behind passes all of them
(`Engine.drain_passes`).
-/

namespace ShardMerge

theorem not_any_lt_iff {last : Option Tso} {tso : Tso} :
    (!last.any (tso < ·)) = true ↔ last ≤ some tso := by
  cases last <;> simp

/-- A batch ascends from a timestamp on if its transactions have timestamps, none of them below that
one, in ascending order. -/
theorem ascendsFrom_iff {last : Option Tso} {batch : List Transaction} :
    ascendsFrom last batch = true ↔
      (∀ t ∈ batch, t.tso.isSome ∧ last ≤ t.tso) ∧ batch.Pairwise fun t u => t.tso ≤ u.tso := by
  induction batch generalizing last with
  | nil => simp [ascendsFrom]
  | cons t batch ih =>
    cases ht : t.tso with
    | none => simp [ascendsFrom, ht]
    | some tso =>
      simp only [ascendsFrom, ht, Bool.and_eq_true, not_any_lt_iff, ih, List.forall_mem_cons,
        List.pairwise_cons, Option.isSome_some, true_and]
      constructor
      · rintro ⟨hlast, hbatch, hpairs⟩
        refine ⟨⟨hlast, ?_⟩, fun u hu => (hbatch u hu).2, hpairs⟩
        intro u hu
        exact ⟨(hbatch u hu).1, le_trans hlast (hbatch u hu).2⟩
      · rintro ⟨⟨hlast, hbatch⟩, hfirst, hpairs⟩
        exact ⟨hlast, fun u hu => ⟨(hbatch u hu).1, hfirst u hu⟩, hpairs⟩

theorem withinWatermark_iff {batch : List Transaction} {watermark : Option Tso} :
    withinWatermark batch watermark = true ↔
      ∀ t ∈ batch, t.tso.isSome ∧ t.tso ≤ watermark := by
  rw [withinWatermark, List.all_eq_true]
  refine forall₂_congr fun t _ => ?_
  cases t.tso <;> cases watermark <;> simp

theorem registryConsistent_iff {pending : List Xid} {ready : List ReadyKey}
    {registry : Registry} :
    registryConsistent pending ready registry = true ↔
      (∀ x ∈ pending, ∃ t, registry.get? x = some t) ∧
        ∀ k ∈ ready, (∃ t, registry.get? k.xid = some t) ∧ k.xid ∉ pending := by
  simp [registryConsistent, Registry.contains, Option.isSome_iff_exists]

/-- Transactions in order have their timestamps in order. -/
theorem Transaction.tso_le_of_key?_lt {t u : Transaction} (h : t.key? < u.key?) :
    t.tso ≤ u.tso := by
  cases ht : t.tso with
  | none => exact Option.none_le
  | some a =>
    cases hu : u.tso with
    | none => simp [key?, hu] at h
    | some b =>
      rw [key?, key?, ht, hu, Option.map_some, Option.map_some, Option.some_lt_some] at h
      exact Option.some_le_some.2 (ReadyKey.tso_le_of_le (le_of_lt h))

namespace Engine

variable {e : Engine}

/-- A batch that has just been handed out, and the engine that it has left, pass the checks. -/
structure PassesChecks (batch : List Transaction) (e : Engine) : Prop where
  ordered : emissionOrdered none batch = true
  within : withinWatermark batch e.watermark = true
  registered : registryConsistent e.pending e.ready.keys e.registry = true

/-- Every drain passes the checks. -/
theorem drain_passes (limits : Limits) (skips : Xid → Bool) (clock : Nat → UInt64)
    (hc : e.Consistent) :
    PassesChecks (e.drain limits skips clock).value (e.drain limits skips clock).after := by
  have hafter := (drain_moves limits skips clock hc).consistent hc
  have hmark : ∀ t ∈ (e.drain limits skips clock).value,
      t.tso.isSome ∧ t.tso ≤ (e.drain limits skips clock).after.watermark := by
    intro t ht
    obtain ⟨k, -, hkey, hle⟩ := key_of_mem_drain hc ht
    rw [Transaction.tso_of_key? hkey]
    exact ⟨rfl, hle⟩
  refine ⟨ascendsFrom_iff.2 ⟨?_, ?_⟩, withinWatermark_iff.2 hmark,
    registryConsistent_iff.2 ⟨?_, ?_⟩⟩
  · intro t ht
    exact ⟨(hmark t ht).1, Option.none_le⟩
  · exact (drain_ascending hc).imp Transaction.tso_le_of_key?_lt
  · intro x hx
    exact hafter.open_known hx
  · intro k hk
    obtain ⟨t, ht, -⟩ := hafter.ready_known hk
    exact ⟨⟨t, ht⟩, hafter.ready_closed hk⟩

end Engine

end ShardMerge
