import ShardMerge.Proofs.Checks
import ShardMerge.Proofs.Reports

/-!
# The partition of the registry

At every moment, also in the middle of a drain, the registered identifiers are the open ones and the
ready ones, each of them once (`Partitioned`). The consistency of the indices says so up to
repetitions; that there are none is kept by each move (`Move.distinct`). A ready key is therefore
always found in the registry when it is handed out, and a skip always moves a transaction.
-/

namespace ShardMerge

namespace Engine

variable {limits : Limits} {e e' : Engine} {a : List Happening}

/-- No identifier is open twice or registered twice. -/
structure Distinct (e : Engine) : Prop where
  pending : e.pending.Nodup
  registered : e.registry.xids.Nodup

/-- Every move keeps identifiers distinct. -/
theorem Move.distinct (hc : e.Consistent) (hd : e.Distinct) (m : Move e a e') : e'.Distinct := by
  cases m with
  | @prewrite t fresh =>
    have hnew : t.xid ∉ e.registry.xids := by
      rw [Registry.mem_xids, fresh]
      simp
    have hclosed : t.xid ∉ e.pending :=
      fun hopen => hnew (Registry.mem_xids.2 (hc.open_known hopen))
    refine ⟨List.nodup_cons.2 ⟨hclosed, hd.pending⟩, ?_⟩
    rw [Registry.xids_insert]
    exact List.nodup_cons.2 ⟨hnew, hd.registered⟩
  | commit => exact ⟨hd.pending.filter _, by rw [Registry.xids_modify]; exact hd.registered⟩
  | skip =>
    exact ⟨hd.pending.filter _, by rw [Registry.xids_erase]; exact hd.registered.filter _⟩
  | release => exact ⟨hd.pending, by rw [Registry.xids_erase]; exact hd.registered.filter _⟩
  | pop => exact ⟨hd.pending, hd.registered⟩
  | fetch => exact ⟨hd.pending, hd.registered⟩
  | book => exact ⟨hd.pending, hd.registered⟩

theorem Moves.distinct (m : Moves e a e') (hc : e.Consistent) (hd : e.Distinct) : e'.Distinct := by
  induction m with
  | refl => exact hd
  | cons head _ ih => exact ih (head.consistent hc) (head.distinct hc hd)

theorem distinct_reached (limits : Limits) (steps : List Step) :
    (reached limits steps).Distinct :=
  run_invariant (P := fun _ e => e.Distinct) ⟨.nil, .nil⟩ (fun hc hd m => m.distinct hc hd) limits
    steps

/-- The registered identifiers are the open ones and the ready ones, and none of these is another
one of them. Each is registered with its own transaction, and each ready one with the timestamp of
its key. -/
structure Partitioned (e : Engine) : Prop where
  registered : e.registry.xids.Perm (e.pending ++ e.ready.keys.map ReadyKey.xid)
  distinct : (e.pending ++ e.ready.keys.map ReadyKey.xid).Nodup
  own : ∀ entry ∈ e.registry.entries, entry.2.xid = entry.1
  timed : ∀ k ∈ e.ready, ∃ t, e.transaction? k.xid = some t ∧ t.tso = some k.tso

/-- Consistent indices without repetitions are a partition. -/
theorem Consistent.partitioned (hc : e.Consistent) (hd : e.Distinct) : e.Partitioned := by
  have hdistinct : (e.pending ++ e.ready.keys.map ReadyKey.xid).Nodup := by
    refine List.nodup_append.2 ⟨hd.pending, hc.ready_nodup, ?_⟩
    rintro x hx y hy rfl
    obtain ⟨k, hk, hxid⟩ := List.mem_map.1 hy
    exact hc.xid_ne_of_open hx hk hxid
  refine ⟨(List.perm_ext_iff_of_nodup hd.registered hdistinct).2 fun x => ?_, hdistinct, ?_, ?_⟩
  · rw [Registry.mem_xids, List.mem_append, List.mem_map]
    constructor
    · rintro ⟨t, ht⟩
      exact hc.open_or_ready ht
    · rintro (hx | ⟨k, hk, rfl⟩)
      · exact hc.open_known hx
      · obtain ⟨t, ht, -⟩ := hc.ready_known hk
        exact ⟨t, ht⟩
  · intro entry hentry
    exact hc.own (Registry.get?_of_mem hd.registered hentry)
  · intro k hk
    exact hc.ready_known hk

/-! ## Keys that are not registered -/

theorem unregistered_not_mem_push (skips : Xid → Bool) (admitted : Bool) (item : Item)
    (e : Engine) (x : Xid) : .unregistered x ∉ (e.push skips admitted item).events := by
  intro hmem
  rcases mem_events_push hmem with ⟨y, heq⟩ | heq
  · cases heq
  · cases heq

/-- No drain finds a ready key that is not registered. -/
theorem unregistered_not_mem_drain (limits : Limits) (skips : Xid → Bool) (clock : Nat → UInt64)
    (hc : e.Consistent) (x : Xid) : .unregistered x ∉ (e.drain limits skips clock).events := by
  intro hmem
  cases drainReports_of_mem_events hc hmem

/-- No run finds a ready key that is not registered. -/
theorem unregistered_not_mem_run (limits : Limits) (steps : List Step) (x : Xid) :
    .unregistered x ∉ (run limits steps .empty).events := by
  induction steps using List.reverseRecOn with
  | nil => simp [run]
  | append_singleton steps s ih =>
    rw [events_run_concat, List.mem_append, not_or]
    refine ⟨ih, ?_⟩
    cases s with
    | push skips admitted item => exact unregistered_not_mem_push skips admitted item _ x
    | drain skips clock =>
      exact unregistered_not_mem_drain limits skips clock (consistent_reached limits steps) x
    | takeSkipped => simp [step, Reply.map, takeSkipped]
    | clear => simp [step, Reply.map, clear]

/-! ## The partition -/

/-- What happens to the transaction of a skip that is counted: between two engines, no skip is
counted and none is made, or one is counted and its transaction is moved from the registry to the
skipped ones. -/
inductive SkipCounted (e e' : Engine) : Prop where
  | none (counted : e'.totals.skipped = e.totals.skipped) (moved : e'.skipped = e.skipped)
  | one {t : Transaction} (known : e.transaction? t.xid = some t)
      (gone : e'.transaction? t.xid = Option.none)
      (counted : e'.totals.skipped = e.totals.skipped + 1)
      (moved : e'.skipped = e.skipped ++ [t.release])

/-- Looking at the head counts the skips that it makes. -/
theorem skipHead_counted (skips : Xid → Bool) (hc : e.Consistent) :
    SkipCounted e (e.skipHead skips).after := by
  rcases skipHead_cases skips e with ⟨x, tso, rest, -, -, hopen, heq⟩ | ⟨heq, -⟩
  · obtain ⟨t, ht⟩ := hc.open_known hopen
    obtain rfl : t.xid = x := hc.own ht
    rw [heq, setAside_of_open hopen ht]
    exact .one ht ((Registry.get?_erase _ _ _).trans (if_pos rfl)) rfl rfl
  · rw [heq]
    exact .none rfl rfl

/-- At every moment of every run, in the middle of a drain as well as between operations, the
registry is divided into open and ready transactions. So every ready key is found when it is handed
out, no skip is counted that moves no transaction, and every drain passes its checks. -/
theorem run_partitioned (limits : Limits) (steps : List Step) (skips : Xid → Bool)
    (clock : Nat → UInt64) :
    (reached limits steps).Partitioned ∧
    ((reached limits steps).scanned limits skips clock).Partitioned ∧
    (∀ x, .unregistered x ∉ (run limits steps .empty).events) ∧
    SkipCounted (reached limits steps) ((reached limits steps).skipHead skips).after ∧
    PassesChecks ((reached limits steps).drain limits skips clock).value
      ((reached limits steps).drain limits skips clock).after := by
  have hc := consistent_reached limits steps
  have hd := distinct_reached limits steps
  obtain ⟨_, -, hmoves, -⟩ := scanned_moves limits skips clock hc
  exact ⟨hc.partitioned hd, (hmoves.consistent hc).partitioned (hmoves.distinct hc hd),
    unregistered_not_mem_run limits steps, skipHead_counted skips hc,
    drain_passes limits skips clock hc⟩

end Engine

end ShardMerge
