import Mathlib.Data.List.DropRight
import ShardMerge.Proofs.Steps

/-!
# The life of a transaction

Seen from one identifier, a history is a sequence of lives. Each starts with a prewrite and ends
with the transaction being handed out, after a commit, or skipped, without one; the last life may
still be going on, and then the registry holds its transaction. What is handed out is what was
prewritten, with the timestamp of its commit; what is skipped is handed over by the next fetch and
by no other.
-/

namespace ShardMerge

/-- The finished lives of an identifier, one after the other. -/
inductive Lives (x : Xid) : List Happening → Prop where
  | nil : Lives x []
  /-- A transaction is prewritten, committed and handed out. The timestamp of the commit takes
  precedence over the one of the prewrite. -/
  | emitted {past : List Happening} {t : Transaction} {given : Option Tso} {tso : Tso}
      (before : Lives x past) (own : t.xid = x) (timed : given.or t.tso = some tso) :
      Lives x (past ++ [.prewritten t, .committed x given tso, .emitted (t.withTso tso)])
  /-- A transaction is prewritten and skipped. -/
  | skipped {past : List Happening} {t : Transaction} (before : Lives x past) (own : t.xid = x) :
      Lives x (past ++ [.prewritten t, .skipped t.release])

/-- In finished lives, a commit takes effect with its own timestamp or with the one of its prewrite.
-/
theorem Lives.timed {x y : Xid} {word : List Happening} (hl : Lives x word) {given : Option Tso}
    {tso : Tso} (hmem : .committed y given tso ∈ word) :
    ∃ t, .prewritten t ∈ word ∧ t.xid = y ∧ given.or t.tso = some tso := by
  induction hl with
  | nil => cases hmem
  | @emitted past t given' tso' before own timed ih =>
    rcases List.mem_append.1 hmem with hmem | hmem
    · obtain ⟨t', ht', htimed⟩ := ih hmem
      exact ⟨t', List.mem_append_left _ ht', htimed⟩
    · obtain ⟨rfl, rfl, rfl⟩ : y = x ∧ given = given' ∧ tso = tso' := by simpa using hmem
      exact ⟨t, by simp, own, timed⟩
  | skipped _ _ ih =>
    obtain ⟨t', ht', htimed⟩ := ih (by simpa using hmem)
    exact ⟨t', List.mem_append_left _ ht', htimed⟩

/-- Finished lives begin with a prewrite. -/
theorem Lives.exists_prewritten {x : Xid} {word : List Happening} (hl : Lives x word)
    (hne : word ≠ []) : ∃ t, .prewritten t ∈ word ∧ t.xid = x := by
  cases hl with
  | nil => exact absurd rfl hne
  | @emitted _ t _ _ _ own => exact ⟨t, by simp, own⟩
  | @skipped _ t _ own => exact ⟨t, by simp, own⟩

/-- What has happened so far in the life that an identifier leads in an engine. -/
inductive Engine.Leads (x : Xid) (e : Engine) : List Happening → Prop where
  /-- It leads none. -/
  | absent (known : e.transaction? x = none) : Leads x e []
  /-- Its transaction is open. -/
  | opened {t : Transaction} (own : t.xid = x) (isOpen : x ∈ e.pending)
      (known : e.transaction? x = some t) : Leads x e [.prewritten t]
  /-- Its transaction is ready. -/
  | ready {t : Transaction} {given : Option Tso} {tso : Tso} (own : t.xid = x)
      (timed : given.or t.tso = some tso) (isReady : ⟨tso, x⟩ ∈ e.ready)
      (known : e.transaction? x = some (t.withTso tso)) :
      Leads x e [.prewritten t, .committed x given tso]

/-- Whether the skipped transactions are fetched. -/
@[simp] def Happening.isFetch : Happening → Bool
  | fetched _ => true
  | _ => false

/-- The transaction that is skipped. -/
@[simp] def Happening.skipped? : Happening → Option Transaction
  | skipped t => some t
  | _ => none

/-- The transactions skipped since the last fetch, in order. -/
def unfetched (h : List Happening) : List Transaction :=
  (h.rtakeWhile (!·.isFetch)).filterMap Happening.skipped?

namespace Engine

variable {x : Xid} {e e' : Engine} {h now : List Happening}

/-- An engine with the same transaction of an identifier in the same place leads the same life. -/
theorem Leads.frame (hknown : e'.registry.get? x = e.registry.get? x)
    (hopen : x ∈ e.pending → x ∈ e'.pending)
    (hready : ∀ tso, ⟨tso, x⟩ ∈ e.ready → ⟨tso, x⟩ ∈ e'.ready) (hl : e.Leads x now) :
    e'.Leads x now := by
  cases hl with
  | absent known => exact .absent (hknown.trans known)
  | opened own isOpen known => exact .opened own (hopen isOpen) (hknown.trans known)
  | ready own timed isReady known => exact .ready own timed (hready _ isReady) (hknown.trans known)

/-- An identifier without a transaction leads no life. -/
theorem Leads.eq_nil (hl : e.Leads x now) (hknown : e.registry.get? x = none) : now = [] := by
  cases hl with
  | absent => rfl
  | opened _ _ known => exact absurd (hknown.symm.trans known) (by simp)
  | ready _ _ _ known => exact absurd (hknown.symm.trans known) (by simp)

/-- The life of an open transaction has only begun. -/
theorem Leads.eq_prewritten (hl : e.Leads x now) (hc : e.Consistent) (hopen : x ∈ e.pending)
    {t : Transaction} (hknown : e.registry.get? x = some t) :
    t.xid = x ∧ now = [.prewritten t] := by
  cases hl with
  | absent known => exact absurd (hknown.symm.trans known) (by simp)
  | opened own _ known =>
    cases hknown.symm.trans known
    exact ⟨own, rfl⟩
  | ready _ _ isReady => exact absurd hopen (hc.ready_closed isReady)

/-- The life of a ready transaction has come to its commit. -/
theorem Leads.eq_committed (hl : e.Leads x now) (hc : e.Consistent) {tso : Tso}
    (hready : ⟨tso, x⟩ ∈ e.ready) {t' : Transaction} (hknown : e.registry.get? x = some t') :
    ∃ t given tso, t.xid = x ∧ given.or t.tso = some tso ∧ t' = t.withTso tso ∧
      now = [.prewritten t, .committed x given tso] := by
  cases hl with
  | absent known => exact absurd (hknown.symm.trans known) (by simp)
  | opened _ isOpen => exact absurd isOpen (hc.ready_closed hready)
  | ready own timed _ known =>
    cases hknown.symm.trans known
    exact ⟨_, _, _, own, timed, rfl, rfl⟩

/-- A life begins with a prewrite. -/
theorem Leads.exists_prewritten (hl : e.Leads x now) (hne : now ≠ []) :
    ∃ t, .prewritten t ∈ now ∧ t.xid = x := by
  cases hl with
  | absent => exact absurd rfl hne
  | @opened t own => exact ⟨t, by simp, own⟩
  | @ready t _ _ own => exact ⟨t, by simp, own⟩

/-- The past of an identifier consists of finished lives and the one that it leads. -/
def LifeCycle (x : Xid) (h : List Happening) (e : Engine) : Prop :=
  ∃ past now, lifeOf x h = past ++ now ∧ Lives x past ∧ e.Leads x now

/-- What happens to another identifier does not matter. -/
theorem LifeCycle.frame {a : List Happening} (ha : lifeOf x a = [])
    (hknown : e'.registry.get? x = e.registry.get? x) (hopen : x ∈ e.pending → x ∈ e'.pending)
    (hready : ∀ tso, ⟨tso, x⟩ ∈ e.ready → ⟨tso, x⟩ ∈ e'.ready) (hl : LifeCycle x h e) :
    LifeCycle x (h ++ a) e' := by
  obtain ⟨past, now, hlife, hpast, hnow⟩ := hl
  exact ⟨past, now, by simp [hlife, ha], hpast, hnow.frame hknown hopen hready⟩

/-- A prewrite begins a life. -/
theorem LifeCycle.prewrite {t : Transaction} {queue : List Signal} (hl : LifeCycle x h e)
    (fresh : e.registry.get? t.xid = none) :
    LifeCycle x (h ++ [.prewritten t])
      { e with
        pending := t.xid :: e.pending
        registry := e.registry.insert t.xid t
        queue } := by
  have hget := Registry.get?_insert e.registry t.xid x t
  by_cases hx : t.xid = x
  · obtain ⟨past, now, hlife, hpast, hnow⟩ := hl
    have hnil : now = [] := hnow.eq_nil (hx ▸ fresh)
    refine ⟨past, [.prewritten t], ?_, hpast, ?_⟩
    · rw [lifeOf_append, hlife, hnil, lifeOf_of_eq (by simp [hx]), List.append_nil]
    · exact .opened hx (hx ▸ List.mem_cons_self) (hget.trans (if_pos hx))
  · refine hl.frame ?_ (hget.trans (if_neg hx)) (List.mem_cons_of_mem _) (fun _ => id)
    exact lifeOf_of_ne (by simpa using hx)

/-- A commit makes the transaction of a life ready. -/
theorem LifeCycle.commit {y : Xid} {t : Transaction} {given : Option Tso} {tso : Tso}
    {queue : List Signal} (hc : e.Consistent) (hl : LifeCycle x h e) (isOpen : y ∈ e.pending)
    (known : e.registry.get? y = some t) (timed : given.or t.tso = some tso) :
    LifeCycle x (h ++ [.committed y given tso])
      { e with
        pending := e.pending.filter (· ≠ y)
        registry := e.registry.modify y (·.withTso tso)
        queue
        ready := e.ready.push ⟨tso, y⟩ } := by
  have hget := Registry.get?_modify e.registry y x (·.withTso tso)
  by_cases hx : y = x
  · subst hx
    obtain ⟨past, now, hlife, hpast, hnow⟩ := hl
    obtain ⟨own, rfl⟩ := hnow.eq_prewritten hc isOpen known
    refine ⟨past, [.prewritten t, .committed y given tso], ?_, hpast, ?_⟩
    · rw [lifeOf_append, hlife, lifeOf_of_eq rfl, List.append_assoc]
      rfl
    · refine .ready own timed (ReadyQueue.mem_push.2 (Or.inl rfl)) (hget.trans ?_)
      rw [if_pos rfl, known, Option.map_some]
  · refine hl.frame ?_ (hget.trans (if_neg hx)) ?_ ?_
    · exact lifeOf_of_ne (by simpa using hx)
    · intro hopen
      exact List.mem_filter.2 ⟨hopen, by simpa using Ne.symm hx⟩
    · intro tso' hready
      exact ReadyQueue.mem_push.2 (Or.inr hready)

/-- Skipping ends the life of an open transaction. -/
theorem LifeCycle.skip {y : Xid} {t : Transaction} {skipped : List Transaction}
    (hc : e.Consistent) (hl : LifeCycle x h e) (isOpen : y ∈ e.pending)
    (known : e.registry.get? y = some t) :
    LifeCycle x (h ++ [.skipped t.release])
      { e with
        pending := e.pending.filter (· ≠ y)
        registry := e.registry.erase y
        skipped } := by
  have hy : t.xid = y := hc.own known
  have hget := Registry.get?_erase e.registry y x
  by_cases hx : y = x
  · subst hx
    obtain ⟨past, now, hlife, hpast, hnow⟩ := hl
    obtain ⟨own, rfl⟩ := hnow.eq_prewritten hc isOpen known
    refine ⟨_, [], ?_, .skipped hpast own, .absent (hget.trans (if_pos rfl))⟩
    rw [lifeOf_append, hlife, lifeOf_of_eq (by simp [own]), List.append_assoc, List.append_nil]
    rfl
  · refine hl.frame ?_ (hget.trans (if_neg hx)) ?_ (fun _ => id)
    · exact lifeOf_of_ne (by simpa [hy] using hx)
    · intro hopen
      exact List.mem_filter.2 ⟨hopen, by simpa using Ne.symm hx⟩

/-- Being handed out ends the life of a ready transaction. -/
theorem LifeCycle.release {k : ReadyKey} {ready : ReadyQueue} {t' : Transaction}
    (hc : e.Consistent) (hl : LifeCycle x h e) (least : e.ready.keys = k :: ready.keys)
    (known : e.registry.get? k.xid = some t') :
    LifeCycle x (h ++ [.emitted t'])
      { e with registry := e.registry.erase k.xid, ready } := by
  have hmem : ∀ {k'}, k' ∈ e.ready ↔ k' = k ∨ k' ∈ ready := ReadyQueue.mem_iff_of_least least
  have hk : t'.xid = k.xid := hc.own known
  have hget := Registry.get?_erase e.registry k.xid x
  by_cases hx : k.xid = x
  · subst hx
    obtain ⟨past, now, hlife, hpast, hnow⟩ := hl
    obtain ⟨t, given, tso, own, timed, rfl, rfl⟩ :=
      hnow.eq_committed hc (hmem.2 (Or.inl rfl)) known
    refine ⟨_, [], ?_, .emitted hpast own timed, .absent (hget.trans (if_pos rfl))⟩
    rw [lifeOf_append, hlife, lifeOf_of_eq (by simp [Transaction.withTso, own]),
      List.append_assoc, List.append_nil]
    rfl
  · refine hl.frame ?_ (hget.trans (if_neg hx)) id ?_
    · exact lifeOf_of_ne (by simpa [hk] using hx)
    · intro tso hready
      rcases hmem.1 hready with heq | hready
      · exact absurd (congrArg ReadyKey.xid heq).symm hx
      · exact hready

/-- Each move goes on with the life of the identifier that it is about. -/
theorem Move.lifeCycle {a : List Happening} (hc : e.Consistent) (hl : LifeCycle x h e)
    (m : Move e a e') : LifeCycle x (h ++ a) e' := by
  cases m with
  | prewrite fresh => exact hl.prewrite fresh
  | commit isOpen known timed => exact hl.commit hc isOpen known timed
  | skip head isOpen known => exact hl.skip hc isOpen known
  | release least releasable known => exact hl.release hc least known
  | pop => exact hl.frame (e := e) rfl rfl id (fun _ => id)
  | fetch => exact hl.frame (e := e) rfl rfl id (fun _ => id)
  | book => exact hl.frame (e := e) rfl rfl id (fun _ => id)

/-- At the end of every run, the past of every identifier is a life cycle. -/
theorem lifeCycle_reached (limits : Limits) (steps : List Step) (x : Xid) :
    LifeCycle x (history limits steps) (reached limits steps) :=
  run_invariant (P := LifeCycle x) ⟨[], [], rfl, .nil, .absent rfl⟩
    (fun hc hl m => m.lifeCycle hc hl) limits steps

/-- Every commit takes effect with its own timestamp or with the one of its prewrite. -/
theorem LifeCycle.timed (hl : LifeCycle x h e) {given : Option Tso} {tso : Tso}
    (hmem : .committed x given tso ∈ h) :
    ∃ t, .prewritten t ∈ h ∧ t.xid = x ∧ given.or t.tso = some tso := by
  obtain ⟨past, now, hlife, hpast, hnow⟩ := hl
  have hsub : ∀ a ∈ past ++ now, a ∈ h := fun a ha => (mem_lifeOf.1 (hlife ▸ ha)).1
  have hown : .committed x given tso ∈ past ++ now := by
    rw [← hlife]
    exact mem_lifeOf.2 ⟨hmem, rfl⟩
  rcases List.mem_append.1 hown with hown | hown
  · obtain ⟨t, ht, htimed⟩ := hpast.timed hown
    exact ⟨t, hsub _ (List.mem_append_left _ ht), htimed⟩
  · cases hnow with
    | absent => cases hown
    | opened => simp at hown
    | @ready t given' tso' own timed =>
      obtain ⟨rfl, rfl⟩ : given = given' ∧ tso = tso' := by simpa using hown
      exact ⟨t, hsub _ (by simp), own, timed⟩

/-- Nothing happens to an identifier that has not been prewritten. -/
theorem LifeCycle.prewritten_of_mem (hl : LifeCycle x h e) {a : Happening} (ha : a ∈ h)
    (hx : a.xid? = some x) : ∃ t, .prewritten t ∈ h ∧ t.xid = x := by
  obtain ⟨past, now, hlife, hpast, hnow⟩ := hl
  have hsub : ∀ b ∈ past ++ now, b ∈ h := fun b hb => (mem_lifeOf.1 (hlife ▸ hb)).1
  have hown : a ∈ past ++ now := by
    rw [← hlife]
    exact mem_lifeOf.2 ⟨ha, hx⟩
  rcases List.mem_append.1 hown with hown | hown
  · obtain ⟨t, ht, own⟩ := hpast.exists_prewritten (List.ne_nil_of_mem hown)
    exact ⟨t, hsub _ (List.mem_append_left _ ht), own⟩
  · obtain ⟨t, ht, own⟩ := hnow.exists_prewritten (List.ne_nil_of_mem hown)
    exact ⟨t, hsub _ (List.mem_append_right _ ht), own⟩

/-- A registered transaction has been prewritten. -/
theorem LifeCycle.prewritten_of_registered (hl : LifeCycle x h e) {t : Transaction}
    (hknown : e.transaction? x = some t) : ∃ t, .prewritten t ∈ h ∧ t.xid = x := by
  obtain ⟨past, now, hlife, -, hnow⟩ := hl
  have hne : now ≠ [] := by
    rintro rfl
    cases hnow with
    | absent known => exact absurd (hknown.symm.trans known) (by simp)
  obtain ⟨t, ht, own⟩ := hnow.exists_prewritten hne
  exact ⟨t, (mem_lifeOf.1 (hlife ▸ List.mem_append_right past ht)).1, own⟩

/-- An open transaction has been prewritten. -/
theorem LifeCycle.prewritten_of_open (hl : LifeCycle x h e) (hc : e.Consistent)
    (hopen : x ∈ e.pending) : ∃ t, .prewritten t ∈ h ∧ t.xid = x := by
  obtain ⟨t, hknown⟩ := hc.open_known hopen
  exact hl.prewritten_of_registered hknown

/-! ## Fetching the skipped transactions -/

end Engine

theorem unfetched_concat (h : List Happening) (a : Happening) :
    unfetched (h ++ [a]) = if a.isFetch then [] else unfetched h ++ a.skipped?.toList := by
  unfold unfetched
  rw [List.rtakeWhile_concat]
  cases a <;> simp

namespace Engine

/-- Fetches are complete: each hands over what was skipped since the one before, and what was
skipped since the last one is still there. -/
structure Fetches (h : List Happening) (e : Engine) : Prop where
  waiting : e.skipped = unfetched h
  fetched : ∀ before ts after, h = before ++ .fetched ts :: after → ts = unfetched before

variable {e e' : Engine} {h : List Happening}

/-- A happening that is no fetch leaves the fetches before it alone. -/
theorem Fetches.concat {a : Happening} (hf : Fetches h e)
    (hfetch : ∀ ts, a = .fetched ts → ts = e.skipped)
    (hskipped : e'.skipped = unfetched (h ++ [a])) :
    Fetches (h ++ [a]) e' := by
  refine ⟨hskipped, ?_⟩
  intro before ts after heq
  rcases List.eq_nil_or_concat after with rfl | ⟨after, b, rfl⟩
  · obtain ⟨rfl, ha⟩ := List.append_inj' heq rfl
    exact (hfetch ts (by simpa using ha)).trans hf.waiting
  · rw [List.concat_eq_append, ← List.cons_append, ← List.append_assoc] at heq
    exact hf.fetched before ts after (List.append_inj' heq rfl).1

theorem Move.fetches {a : List Happening} (hf : Fetches h e) (m : Move e a e') :
    Fetches (h ++ a) e' := by
  have hwaiting := hf.waiting
  cases m with
  | prewrite => exact hf.concat (by simp) (by simp [unfetched_concat, hwaiting])
  | commit => exact hf.concat (by simp) (by simp [unfetched_concat, hwaiting])
  | skip => exact hf.concat (by simp) (by simp [unfetched_concat, hwaiting])
  | release => exact hf.concat (by simp) (by simp [unfetched_concat, hwaiting])
  | fetch => exact hf.concat (by simp) (by simp [unfetched_concat])
  | pop => rw [List.append_nil]; exact ⟨hwaiting, hf.fetched⟩
  | book => rw [List.append_nil]; exact ⟨hwaiting, hf.fetched⟩

/-- At the end of every run, the fetches are complete. -/
theorem fetches_reached (limits : Limits) (steps : List Step) :
    Fetches (history limits steps) (reached limits steps) :=
  run_invariant (P := Fetches) ⟨rfl, by simp⟩ (fun _ hf m => m.fetches hf) limits steps

/-- A life cycle is the beginning of a sequence of finished lives. -/
theorem LifeCycle.prefix_lives {x : Xid} (hl : LifeCycle x h e) :
    ∃ word, Lives x word ∧ lifeOf x h <+: word := by
  obtain ⟨past, now, hlife, hpast, hnow⟩ := hl
  rw [hlife]
  cases hnow with
  | absent => exact ⟨past, hpast, by simp⟩
  | opened own => exact ⟨_, .skipped hpast own, by simp⟩
  | ready own timed => exact ⟨_, .emitted hpast own timed, by simp⟩

/-- Every transaction is handed out or skipped at most once, as it was prewritten and with the
timestamp of its commit, and the registry holds it from its prewrite until then. Each fetch hands
over what was skipped since the fetch before it; what was skipped since the last one waits for the
next. -/
theorem run_exactly_once (limits : Limits) (steps : List Step) :
    (∀ x, (∃ word, Lives x word ∧ lifeOf x (history limits steps) <+: word) ∧
      ∃ past now, lifeOf x (history limits steps) = past ++ now ∧ Lives x past ∧
        (reached limits steps).Leads x now) ∧
    (∀ before ts after, history limits steps = before ++ .fetched ts :: after →
      ts = unfetched before) ∧
    (reached limits steps).skipped = unfetched (history limits steps) := by
  have hlife := lifeCycle_reached limits steps
  have hfetches := fetches_reached limits steps
  exact ⟨fun x => ⟨(hlife x).prefix_lives, hlife x⟩, hfetches.fetched, hfetches.waiting⟩

/-- A run in which a transaction is skipped, fetched and pushed again while another one is handed
out. -/
def skippingRun : List Step :=
  [.push (fun _ => false) true (.prewrite { xid := ⟨"a"⟩ }),
    .push (fun _ => false) true (.prewrite { xid := ⟨"b"⟩ }),
    .push (fun _ => false) true (.commit ⟨"b"⟩ (some (.ofTime 7))),
    .drain (· = ⟨"a"⟩) (fun _ => 0),
    .takeSkipped,
    .push (fun _ => false) true (.prewrite { xid := ⟨"a"⟩ }),
    .takeSkipped]

theorem skippingRun_exactly_once :
    history ⟨0, 500⟩ skippingRun =
        [.prewritten { xid := ⟨"a"⟩ }, .prewritten { xid := ⟨"b"⟩ },
          .committed ⟨"b"⟩ (some (.ofTime 7)) (.ofTime 7),
          .skipped (Transaction.release { xid := ⟨"a"⟩ }),
          .emitted { xid := ⟨"b"⟩, tso := some (.ofTime 7) }] ++
          .fetched [Transaction.release { xid := ⟨"a"⟩ }] ::
            [.prewritten { xid := ⟨"a"⟩ }, .fetched []] ∧
      [Transaction.release { xid := ⟨"a"⟩ }] = unfetched
        [.prewritten { xid := ⟨"a"⟩ }, .prewritten { xid := ⟨"b"⟩ },
          .committed ⟨"b"⟩ (some (.ofTime 7)) (.ofTime 7),
          .skipped (Transaction.release { xid := ⟨"a"⟩ }),
          .emitted { xid := ⟨"b"⟩, tso := some (.ofTime 7) }] :=
  ⟨by decide, (run_exactly_once ⟨0, 500⟩ skippingRun).2.1 _ _
    [.prewritten { xid := ⟨"a"⟩ }, .fetched []] (by decide)⟩

end Engine

end ShardMerge
