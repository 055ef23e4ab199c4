import ShardMerge.Proofs.Move

/-!
# Consistent indices

The open transactions, the ready keys and the registry tell the same story at every moment, also in
the middle of a drain: the registered identifiers are the open ones and the ready ones, no
identifier is both, and none is ready twice. Each move keeps this (`Move.consistent`).
-/

namespace ShardMerge

/-- What is in a queue with a least key is that key and the rest. -/
theorem ReadyQueue.mem_iff_of_least {q rest : ReadyQueue} {k : ReadyKey}
    (least : q.keys = k :: rest.keys) {k' : ReadyKey} : k' ∈ q ↔ k' = k ∨ k' ∈ rest := by
  show k' ∈ q.keys ↔ k' = k ∨ k' ∈ rest.keys
  rw [least, List.mem_cons]

namespace Engine

/-- The indices of an engine agree with each other. -/
structure Consistent (e : Engine) : Prop where
  /-- Transactions are registered under their own identifiers. -/
  own : ∀ {x t}, e.registry.get? x = some t → t.xid = x
  /-- What is registered is open or ready. -/
  open_or_ready : ∀ {x t}, e.registry.get? x = some t → x ∈ e.pending ∨ ∃ k ∈ e.ready, k.xid = x
  /-- What is open is registered. -/
  open_known : ∀ {x}, x ∈ e.pending → ∃ t, e.registry.get? x = some t
  /-- What is ready is registered with the timestamp of its key. -/
  ready_known : ∀ {k}, k ∈ e.ready → ∃ t, e.registry.get? k.xid = some t ∧ t.tso = some k.tso
  /-- What is ready is not open. -/
  ready_closed : ∀ {k}, k ∈ e.ready → k.xid ∉ e.pending
  /-- No identifier is ready twice. -/
  ready_nodup : (e.ready.keys.map ReadyKey.xid).Nodup

theorem consistent_empty : Consistent .empty where
  own h := by simp [empty] at h
  open_or_ready h := by simp [empty] at h
  open_known h := by simp [empty] at h
  ready_known h := by cases h
  ready_closed h := by cases h
  ready_nodup := by simp [empty, ReadyQueue.empty]

variable {e : Engine}

/-- What is open is not ready. -/
theorem Consistent.xid_ne_of_open (hc : e.Consistent) {x : Xid} (hx : x ∈ e.pending)
    {k : ReadyKey} (hk : k ∈ e.ready) : k.xid ≠ x := by
  rintro rfl
  exact hc.ready_closed hk hx

theorem Consistent.prewrite (hc : e.Consistent) {t : Transaction} {queue : List Signal}
    (fresh : e.registry.get? t.xid = none) :
    Consistent
      { e with
        pending := t.xid :: e.pending
        registry := e.registry.insert t.xid t
        queue } := by
  have hready : ∀ {k}, k ∈ e.ready → k.xid ≠ t.xid := by
    intro k hk heq
    obtain ⟨t', ht', _⟩ := hc.ready_known hk
    rw [heq, fresh] at ht'
    cases ht'
  constructor
  case own =>
    intro x t' h
    rw [Registry.get?_insert] at h
    grind [hc.own]
  case open_or_ready =>
    intro x t' h
    rw [Registry.get?_insert] at h
    grind [hc.open_or_ready]
  case open_known =>
    intro x h
    rw [Registry.get?_insert]
    rcases List.mem_cons.1 h with rfl | h
    · exact ⟨t, if_pos rfl⟩
    · split
      · exact ⟨t, rfl⟩
      · exact hc.open_known h
  case ready_known =>
    intro k hk
    rw [Registry.get?_insert, if_neg (hready hk).symm]
    exact hc.ready_known hk
  case ready_closed =>
    intro k hk hmem
    rcases List.mem_cons.1 hmem with heq | hmem
    · exact hready hk heq
    · exact hc.ready_closed hk hmem
  case ready_nodup => exact hc.ready_nodup

theorem Consistent.commit (hc : e.Consistent) {x : Xid} {t : Transaction} {tso : Tso}
    {queue : List Signal} (isOpen : x ∈ e.pending) (known : e.registry.get? x = some t) :
    Consistent
      { e with
        pending := e.pending.filter (· ≠ x)
        registry := e.registry.modify x (·.withTso tso)
        queue
        ready := e.ready.push ⟨tso, x⟩ } := by
  constructor
  case own =>
    intro y t' h
    rw [Registry.get?_modify] at h
    grind [hc.own, Transaction.withTso]
  case open_or_ready =>
    intro y t' h
    rw [Registry.get?_modify] at h
    by_cases hy : x = y
    · exact Or.inr ⟨⟨tso, x⟩, ReadyQueue.mem_push.2 (Or.inl rfl), hy⟩
    · rw [if_neg hy] at h
      rcases hc.open_or_ready h with hopen | ⟨k, hk, rfl⟩
      · exact Or.inl (List.mem_filter.2 ⟨hopen, by simpa using Ne.symm hy⟩)
      · exact Or.inr ⟨k, ReadyQueue.mem_push.2 (Or.inr hk), rfl⟩
  case open_known =>
    intro y h
    rw [Registry.get?_modify]
    grind [hc.open_known]
  case ready_known =>
    intro k hk
    rw [Registry.get?_modify]
    rcases ReadyQueue.mem_push.1 hk with rfl | hk
    · exact ⟨t.withTso tso, by simp [known], rfl⟩
    · rw [if_neg (hc.xid_ne_of_open isOpen hk).symm]
      exact hc.ready_known hk
  case ready_closed =>
    intro k hk hmem
    have hmem := List.mem_filter.1 hmem
    rcases ReadyQueue.mem_push.1 hk with rfl | hk
    · simp at hmem
    · exact hc.ready_closed hk hmem.1
  case ready_nodup =>
    have hperm := (e.ready.push_perm ⟨tso, x⟩).map ReadyKey.xid
    rw [hperm.nodup_iff, List.map_cons, List.nodup_cons]
    refine ⟨?_, hc.ready_nodup⟩
    intro hmem
    obtain ⟨k, hk, heq⟩ := List.mem_map.1 hmem
    exact hc.xid_ne_of_open isOpen hk heq

theorem Consistent.skip (hc : e.Consistent) {x : Xid} {skipped : List Transaction}
    (isOpen : x ∈ e.pending) :
    Consistent
      { e with
        pending := e.pending.filter (· ≠ x)
        registry := e.registry.erase x
        skipped } := by
  constructor
  case own =>
    intro y t' h
    rw [Registry.get?_erase] at h
    grind [hc.own]
  case open_or_ready =>
    intro y t' h
    rw [Registry.get?_erase] at h
    grind [hc.open_or_ready]
  case open_known =>
    intro y h
    rw [Registry.get?_erase]
    grind [hc.open_known]
  case ready_known =>
    intro k hk
    rw [Registry.get?_erase, if_neg (hc.xid_ne_of_open isOpen hk).symm]
    exact hc.ready_known hk
  case ready_closed =>
    intro k hk hmem
    exact hc.ready_closed hk (List.mem_filter.1 hmem).1
  case ready_nodup => exact hc.ready_nodup

theorem Consistent.release (hc : e.Consistent) {k : ReadyKey} {ready : ReadyQueue}
    (least : e.ready.keys = k :: ready.keys) :
    Consistent { e with registry := e.registry.erase k.xid, ready } := by
  have hiff : ∀ {k'}, k' ∈ e.ready ↔ k' = k ∨ k' ∈ ready := ReadyQueue.mem_iff_of_least least
  have hnodup := hc.ready_nodup
  rw [least, List.map_cons, List.nodup_cons] at hnodup
  have hne : ∀ {k'}, k' ∈ ready → k'.xid ≠ k.xid := by
    intro k' hk' heq
    exact hnodup.1 (List.mem_map.2 ⟨k', hk', heq⟩)
  constructor
  case own =>
    intro y t' h
    rw [Registry.get?_erase] at h
    grind [hc.own]
  case open_or_ready =>
    intro y t' h
    rw [Registry.get?_erase] at h
    by_cases hy : k.xid = y
    · simp [hy] at h
    · rw [if_neg hy] at h
      rcases hc.open_or_ready h with hopen | ⟨k', hk', rfl⟩
      · exact Or.inl hopen
      · rcases hiff.1 hk' with rfl | hk'
        · exact absurd rfl hy
        · exact Or.inr ⟨k', hk', rfl⟩
  case open_known =>
    intro y h
    rw [Registry.get?_erase, if_neg (hc.xid_ne_of_open h (hiff.2 (Or.inl rfl)))]
    exact hc.open_known h
  case ready_known =>
    intro k' hk'
    rw [Registry.get?_erase, if_neg (hne hk').symm]
    exact hc.ready_known (hiff.2 (Or.inr hk'))
  case ready_closed =>
    intro k' hk'
    exact hc.ready_closed (hiff.2 (Or.inr hk'))
  case ready_nodup => exact hnodup.2

/-- Every move keeps the indices consistent. -/
theorem Move.consistent {e' : Engine} {a : List Happening} (m : Move e a e')
    (hc : e.Consistent) : e'.Consistent := by
  cases m with
  | prewrite fresh => exact hc.prewrite fresh
  | commit isOpen known => exact hc.commit isOpen known
  | skip head isOpen => exact hc.skip isOpen
  | release least => exact hc.release least
  | pop => exact { hc with }
  | fetch => exact { hc with }
  | book => exact { hc with }

theorem Moves.consistent {e' : Engine} {a : List Happening} (m : Moves e a e')
    (hc : e.Consistent) : e'.Consistent := by
  induction m with
  | refl => exact hc
  | cons head _ ih => exact ih (head.consistent hc)

end Engine

end ShardMerge
