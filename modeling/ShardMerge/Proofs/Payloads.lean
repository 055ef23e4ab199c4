import ShardMerge.Proofs.LifeCycle

/-!
# The payloads of skipped transactions

A transaction is built from its identifier by any number of edits in any order (`Transaction.build`),
and the release of it is one of them. Releasing a transaction once more leaves it alone, also if it
has been given a payload in between. So what is skipped still holds the last payload that it was
given after its first release, if there is one (`Transaction.payload_release_build`); otherwise the
skip has taken its payload away. All else it has from its prewrite (`Engine.run_releases_skipped`).
-/

namespace ShardMerge

/-- One call of those that build a transaction. -/
inductive Edit where
  | tso (tso : Tso)
  | payload (bytes : List UInt8)
  | source (source : String)
  | release
deriving DecidableEq

/-- The payload that an edit gives. -/
def Edit.payload? : Edit → Option (List UInt8)
  | payload bytes => some bytes
  | tso _ | source _ | release => none

/-- The last payload that is given after the first release. -/
def latePayload? (edits : List Edit) : Option (List UInt8) :=
  ((edits.dropWhile (· ≠ .release)).filterMap Edit.payload?).getLast?

namespace Transaction

/-- The transaction after an edit. -/
def edit (t : Transaction) : Edit → Transaction
  | .tso tso => t.withTso tso
  | .payload bytes => t.withPayload bytes
  | .source source => t.withSource source
  | .release => t.release

/-- The transaction that is built from an identifier. -/
def build (x : Xid) (edits : List Edit) : Transaction :=
  edits.foldl edit (ofXid x)

/-- Every transaction can be built. -/
theorem exists_build (t : Transaction) : ∃ edits, build t.xid edits = t := by
  obtain ⟨x, tso, payload, source, released⟩ := t
  -- the payload comes last, where no release takes it away
  refine ⟨tso.toList.map .tso ++ source.toList.map .source ++
    (if released then [.release] else []) ++ [.payload payload], ?_⟩
  cases tso <;> cases source <;> cases released <;> rfl

variable {t : Transaction} {edits : List Edit}

theorem release_of_released (h : t.released = true) : t.release = t := by
  rw [release, if_pos h]

theorem payload_release_of_not_released (h : t.released = false) : t.release.payload = [] := by
  simp [release, h]

/-- Only a release makes a transaction released. -/
theorem released_edit (t : Transaction) (a : Edit) :
    (t.edit a).released = (t.released || a = .release) := by
  cases a <;> simp [edit, withTso, withPayload, withSource]

theorem released_foldl_edit (h : t.released = true) :
    (edits.foldl edit t).released = true := by
  induction edits generalizing t with
  | nil => exact h
  | cons a edits ih => exact ih (by simp [released_edit, h])

/-- Once a transaction is released, an edit changes the payload only by giving one. -/
theorem payload_edit (h : t.released = true) (a : Edit) :
    (t.edit a).payload = a.payload?.getD t.payload := by
  cases a with
  | release => rw [edit, release_of_released h]; rfl
  | tso | payload | source => rfl

/-- A released transaction holds the last payload that it is given. -/
theorem payload_foldl_edit (h : t.released = true) :
    (edits.foldl edit t).payload = (edits.filterMap Edit.payload?).getLast?.getD t.payload := by
  induction edits using List.reverseRecOn with
  | nil => rfl
  | append_singleton edits a ih =>
    rw [List.foldl_append, List.foldl_cons, List.foldl_nil, payload_edit (released_foldl_edit h), ih,
      List.filterMap_append]
    cases ha : a.payload? <;> simp [ha]

/-- A release leaves the last payload that was given after the first release. -/
theorem payload_release_foldl_edit (h : t.released = false) :
    (edits.foldl edit t).release.payload = (latePayload? edits).getD [] := by
  induction edits generalizing t with
  | nil => exact payload_release_of_not_released h
  | cons a edits ih =>
    by_cases ha : a = .release
    · subst ha
      have hdrop : latePayload? (.release :: edits) = (edits.filterMap Edit.payload?).getLast? := by
        simp [latePayload?, Edit.payload?]
      have hreleased : t.release.released = true := t.released_release
      show (edits.foldl edit t.release).release.payload = _
      rw [release_of_released (released_foldl_edit hreleased), payload_foldl_edit hreleased,
        payload_release_of_not_released h, hdrop]
    · have hdrop : latePayload? (a :: edits) = latePayload? edits := by
        simp [latePayload?, ha]
      rw [List.foldl_cons, ih (by simp [released_edit, h, ha]), hdrop]

theorem payload_release_build (x : Xid) (edits : List Edit) :
    (build x edits).release.payload = (latePayload? edits).getD [] :=
  payload_release_foldl_edit rfl

/-- What is left of a transaction when it has been skipped. -/
structure Leaves (t u : Transaction) : Prop where
  released : u.released = true
  xid : u.xid = t.xid
  tso : u.tso = t.tso
  source : u.source = t.source
  built : ∃ edits, build t.xid edits = t
  /-- Of the payloads given while it was built, the last one after a release is left, if any. -/
  payload : ∀ edits, build t.xid edits = t → u.payload = (latePayload? edits).getD []

theorem leaves_release (t : Transaction) : t.Leaves t.release where
  released := t.released_release
  xid := t.xid_release
  tso := t.tso_release
  source := t.source_release
  built := t.exists_build
  payload edits hbuild := by rw [← payload_release_build, hbuild]

end Transaction

variable {x : Xid} {h : List Happening} {t u : Transaction}

/-- In finished lives, a skip directly follows the prewrite of what is skipped. -/
theorem Lives.skipped_follows {word : List Happening} (hl : Lives x word)
    (hmem : .skipped u ∈ word) : ∃ t, u = t.release ∧ [.prewritten t, .skipped u] <:+: word := by
  induction hl with
  | nil => cases hmem
  | emitted _ _ _ ih =>
    obtain ⟨t, hu, hfollows⟩ := ih (by simpa using hmem)
    exact ⟨t, hu, hfollows.trans (List.prefix_append _ _).isInfix⟩
  | @skipped past t _ _ ih =>
    rcases List.mem_append.1 hmem with hmem | hmem
    · obtain ⟨t', hu, hfollows⟩ := ih hmem
      exact ⟨t', hu, hfollows.trans (List.prefix_append _ _).isInfix⟩
    · obtain rfl : u = t.release := by simpa using hmem
      exact ⟨t, rfl, (List.suffix_append _ _).isInfix⟩

namespace Engine

variable {e : Engine}

/-- In the life of its identifier, a skip directly follows the prewrite of what is skipped. -/
theorem LifeCycle.skipped_follows (hl : LifeCycle u.xid h e) (hmem : .skipped u ∈ h) :
    ∃ t, u = t.release ∧ [.prewritten t, .skipped u] <:+: lifeOf u.xid h := by
  obtain ⟨past, now, hlife, hpast, hnow⟩ := hl
  have hown : .skipped u ∈ past ++ now := hlife ▸ mem_lifeOf.2 ⟨hmem, rfl⟩
  have hmem : .skipped u ∈ past := by
    cases hnow <;> simpa using hown
  obtain ⟨t, hu, hfollows⟩ := hpast.skipped_follows hmem
  exact ⟨t, hu, hlife ▸ hfollows.trans (List.prefix_append _ _).isInfix⟩

theorem skipped_of_mem_unfetched (hu : u ∈ unfetched h) : .skipped u ∈ h := by
  obtain ⟨a, ha, hskipped⟩ := List.mem_filterMap.1 hu
  cases a with
  | skipped u' =>
    cases hskipped
    exact (List.rtakeWhile_suffix _ _).subset ha
  | prewritten | committed | emitted | fetched => cases hskipped

/-- Whatever a run hands over as skipped is released, and as it was given with its prewrite but for
the payload. Of that it holds what was given after the first release. -/
theorem run_releases_skipped (limits : Limits) (steps : List Step) :
    ∀ u ∈ (reached limits steps).takeSkipped.value,
      ∃ t, (∃ skips admitted, .push skips admitted (.prewrite t) ∈ steps) ∧
        [.prewritten t, .skipped u] <:+: lifeOf u.xid (history limits steps) ∧ t.Leaves u := by
  intro u hu
  have hwaiting : u ∈ unfetched (history limits steps) := (fetches_reached limits steps).waiting ▸ hu
  obtain ⟨t, rfl, hfollows⟩ := (lifeCycle_reached limits steps u.xid).skipped_follows
    (skipped_of_mem_unfetched hwaiting)
  have hmem : .prewritten t ∈ history limits steps :=
    (mem_lifeOf.1 (hfollows.subset List.mem_cons_self)).1
  exact ⟨t, pushed_of_prewritten hmem, hfollows, t.leaves_release⟩

/-- A run in which a transaction that is built by the given edits is skipped. -/
def buildingRun (edits : List Edit) : List Step :=
  [.push (fun _ => false) true (.prewrite (.build ⟨"a"⟩ edits)),
    .drain (· = ⟨"a"⟩) fun _ => 0]

theorem buildingRun_releases_skipped :
    ∃ t, (∃ skips admitted, .push skips admitted (.prewrite t) ∈
        buildingRun [.payload [1], .source "s"]) ∧
      [.prewritten t, .skipped { xid := ⟨"a"⟩, source := some "s", released := true }] <:+:
        lifeOf ⟨"a"⟩ (history ⟨0, 500⟩ (buildingRun [.payload [1], .source "s"])) ∧
      t.Leaves { xid := ⟨"a"⟩, source := some "s", released := true } :=
  run_releases_skipped ⟨0, 500⟩ (buildingRun [.payload [1], .source "s"])
    { xid := ⟨"a"⟩, source := some "s", released := true } (by decide)

/-- A transaction that was given its payload after a release still holds it when it has been
skipped. -/
theorem not_forall_payload_nil :
    ¬ ∀ (limits : Limits) (steps : List Step),
      ∀ u ∈ (reached limits steps).takeSkipped.value,
        u.released = true ∧ u.payload = [] ∧
          ∃ t, [.prewritten t, .skipped u] <:+: lifeOf u.xid (history limits steps) ∧
            u.xid = t.xid ∧ u.tso = t.tso ∧ u.source = t.source := by
  intro hnil
  have hempty := (hnil ⟨0, 500⟩ (buildingRun [.release, .payload [1]])
    { xid := ⟨"a"⟩, payload := [1], released := true } (by decide)).2.1
  exact absurd hempty (by decide)

end Engine

end ShardMerge
