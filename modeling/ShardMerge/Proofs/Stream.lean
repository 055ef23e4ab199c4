import ShardMerge.Proofs.LifeCycle

/-!
# Streams of whole transactions

A stream brings each of its transactions in two items, a prewrite and later a commit, interleaved in
any way with those of other transactions (`CausalStream`). A run that feeds a stream neither
discards one of its commits nor skips one of its transactions (`Feeds`). Then every item is
accepted, and no transaction is skipped (`fed_reached`).
-/

namespace ShardMerge

/-- A transaction with the timestamp that its commit brings. -/
structure TwoPhase where
  /-- The transaction as it is prewritten. -/
  prewrite : Transaction
  /-- The timestamp that comes with its commit. -/
  given : Option Tso
deriving DecidableEq

namespace TwoPhase

/-- The identifier of the transaction. -/
def xid (p : TwoPhase) : Xid :=
  p.prewrite.xid

/-- The timestamp with which the transaction takes effect: its commit takes precedence. -/
def tso (p : TwoPhase) : Option Tso :=
  p.given.or p.prewrite.tso

/-- The transaction as it has to be handed out. -/
def outcome (p : TwoPhase) : Transaction :=
  { p.prewrite with tso := p.tso }

end TwoPhase

/-- A stream of items that brings whole transactions. -/
structure CausalStream (ts : List TwoPhase) (items : List Item) : Prop where
  /-- The transactions have different identifiers. -/
  distinct : (ts.map TwoPhase.xid).Nodup
  /-- Each is prewritten once and committed once, in this order. -/
  paired : ∀ p ∈ ts,
    items.filter (·.xid = p.xid) = [.prewrite p.prewrite, .commit p.xid p.given]
  /-- There are no other items. -/
  only : ∀ i ∈ items, ∃ p ∈ ts, p.xid = i.xid
  /-- Each has a timestamp. -/
  timed : ∀ p ∈ ts, p.tso.isSome
  /-- What is prewritten after a commit takes effect above it. -/
  causal : ∀ p ∈ ts, ∀ q ∈ ts,
    List.Sublist [.commit p.xid p.given, .prewrite q.prewrite] items → p.tso < q.tso

namespace CausalStream

variable {ts : List TwoPhase} {items done : List Item}

/-- The transactions of a stream are told apart by their identifiers. -/
theorem eq_of_xid (hs : CausalStream ts items) {p q : TwoPhase} (hp : p ∈ ts) (hq : q ∈ ts)
    (hxid : p.xid = q.xid) : p = q := by
  have hpair := hs.paired p hp
  rw [hxid, hs.paired q hq] at hpair
  cases p
  cases q
  simp_all

theorem exists_of_prewrite (hs : CausalStream ts items) {t : Transaction}
    (hi : .prewrite t ∈ items) : ∃ p ∈ ts, p.prewrite = t := by
  obtain ⟨p, hp, hxid⟩ := hs.only _ hi
  have hmem : .prewrite t ∈ items.filter (·.xid = p.xid) :=
    List.mem_filter.2 ⟨hi, decide_eq_true hxid.symm⟩
  rw [hs.paired p hp] at hmem
  have heq : t = p.prewrite := by simpa using hmem
  exact ⟨p, hp, heq.symm⟩

theorem exists_of_commit (hs : CausalStream ts items) {x : Xid} {given : Option Tso}
    (hi : .commit x given ∈ items) : ∃ p ∈ ts, p.xid = x ∧ p.given = given := by
  obtain ⟨p, hp, hxid⟩ := hs.only _ hi
  have hmem : .commit x given ∈ items.filter (·.xid = p.xid) :=
    List.mem_filter.2 ⟨hi, decide_eq_true hxid.symm⟩
  rw [hs.paired p hp] at hmem
  simp only [List.mem_cons, reduceCtorEq, List.not_mem_nil, or_false, false_or,
    Item.commit.injEq] at hmem
  exact ⟨p, hp, hmem.1.symm, hmem.2.symm⟩

/-- The next item of a stream prewrites a transaction of which nothing has come, or commits one of
which only the prewrite has come. -/
theorem next_cases (hs : CausalStream ts items) {i : Item} (hfront : done ++ [i] <+: items) :
    ∃ p ∈ ts, (i = .prewrite p.prewrite ∧ done.filter (·.xid = p.xid) = []) ∨
      (i = .commit p.xid p.given ∧ done.filter (·.xid = p.xid) = [.prewrite p.prewrite]) := by
  obtain ⟨p, hp, hxid⟩ := hs.only i (hfront.subset (by simp))
  have hpart : done.filter (·.xid = p.xid) ++ [i] <+:
      [.prewrite p.prewrite, .commit p.xid p.given] := by
    have hfilter := hfront.filter (·.xid = p.xid)
    rw [hs.paired p hp, List.filter_append] at hfilter
    simpa [hxid] using hfilter
  refine ⟨p, hp, ?_⟩
  rcases hdone : done.filter (·.xid = p.xid) with _ | ⟨a, _ | ⟨b, rest⟩⟩
  · rw [hdone] at hpart
    exact Or.inl ⟨by simpa using hpart, hdone⟩
  · rw [hdone] at hpart
    obtain ⟨rfl, rfl⟩ : a = .prewrite p.prewrite ∧ i = .commit p.xid p.given := by
      simpa using hpart
    exact Or.inr ⟨rfl, hdone⟩
  · rw [hdone] at hpart
    have hle := hpart.length_le
    simp at hle

end CausalStream

/-! ## Accepted items -/

/-- The item that is accepted. -/
def Happening.item? : Happening → Option Item
  | prewritten t => some (.prewrite t)
  | committed x given _ => some (.commit x given)
  | skipped _ | emitted _ | fetched _ => none

namespace Happening

variable {t : Transaction} {x : Xid} {given : Option Tso} {tso : Tso} {ts : List Transaction}

@[simp] theorem item?_prewritten : (prewritten t).item? = some (.prewrite t) := rfl

@[simp] theorem item?_committed : (committed x given tso).item? = some (.commit x given) := rfl

@[simp] theorem item?_skipped : (skipped t).item? = none := rfl

@[simp] theorem item?_emitted : (emitted t).item? = none := rfl

@[simp] theorem item?_fetched : (fetched ts).item? = none := rfl

end Happening

/-- The items that a history has accepted. -/
def accepted (h : List Happening) : List Item :=
  h.filterMap Happening.item?

@[simp] theorem accepted_nil : accepted [] = [] :=
  rfl

@[simp] theorem accepted_cons (a : Happening) (h : List Happening) :
    accepted (a :: h) = a.item?.toList ++ accepted h := by
  cases hi : a.item? <;> simp [accepted, hi]

theorem mem_accepted {h : List Happening} {i : Item} :
    i ∈ accepted h ↔ ∃ a ∈ h, a.item? = some i :=
  List.mem_filterMap

@[simp] theorem accepted_append (h h' : List Happening) :
    accepted (h ++ h') = accepted h ++ accepted h' :=
  List.filterMap_append

/-- The items of one identifier are those of its life. -/
theorem accepted_lifeOf (x : Xid) (h : List Happening) :
    accepted (lifeOf x h) = (accepted h).filter (·.xid = x) := by
  induction h with
  | nil => rfl
  | cons a h ih =>
    have hone : accepted (lifeOf x [a]) = a.item?.toList.filter (·.xid = x) := by
      by_cases hx : a.xid? = some x
      · rw [lifeOf_of_eq hx]
        cases a <;> simp_all [Item.xid]
      · rw [lifeOf_of_ne hx]
        cases a <;> simp_all [Item.xid]
    have hcons : lifeOf x (a :: h) = lifeOf x [a] ++ lifeOf x h := lifeOf_append x [a] h
    rw [hcons, accepted_cons, accepted_append, List.filter_append, ih, hone]

namespace Lives

variable {x : Xid} {past : List Happening}

/-- A finished life has brought items. -/
theorem eq_nil (hl : Lives x past) (hnone : accepted past = []) : past = [] := by
  cases hl with
  | nil => rfl
  | emitted => simp at hnone
  | skipped => simp at hnone

/-- Without skips, no life is over before its commit. -/
theorem eq_nil_of_prewrite (hl : Lives x past) (hskipped : ∀ u, .skipped u ∉ past)
    {t : Transaction} {rest : List Item} (hitems : accepted past ++ rest = [.prewrite t]) :
    past = [] := by
  cases hl with
  | nil => rfl
  | emitted => simp [List.append_eq_cons_iff] at hitems
  | @skipped _ t' => exact absurd (by simp) (hskipped t'.release)

/-- Without skips, the life of a prewrite and a commit ends with the transaction being handed out.
-/
theorem eq_of_pair (hl : Lives x past) (hskipped : ∀ u, .skipped u ∉ past) {t : Transaction}
    {given : Option Tso} (hitems : accepted past = [.prewrite t, .commit x given]) :
    ∃ tso, given.or t.tso = some tso ∧
      past = [.prewritten t, .committed x given tso, .emitted (t.withTso tso)] := by
  cases hl with
  | nil => simp at hitems
  | @emitted past t' given' tso before own timed =>
    have hpair : accepted past ++ [.prewrite t', .commit x given'] =
        [] ++ [.prewrite t, .commit x given] := by simpa using hitems
    obtain ⟨hnil, hpair⟩ := List.append_inj' hpair rfl
    cases hpair
    rw [before.eq_nil hnil]
    exact ⟨tso, timed, rfl⟩
  | @skipped _ t' => exact absurd (by simp) (hskipped t'.release)

end Lives

/-! ## Feeding a stream -/

/-- The items that a run pushes. -/
def pushes (steps : List Step) : List Item :=
  steps.filterMap fun
    | .push _ _ item => some item
    | _ => none

/-- An operation that neither discards a commit nor skips one of the given transactions. A clear is
none of these. -/
def Step.Plain (ts : List TwoPhase) : Step → Prop
  | .push _ admitted item => item.kind = .commit → admitted = true
  | .drain skips _ => ∀ p ∈ ts, skips p.xid = false
  | .takeSkipped => True
  | .clear => False

/-- A run that pushes a stream, and otherwise drains at any points with any clock. -/
structure Feeds (ts : List TwoPhase) (steps : List Step) : Prop where
  stream : CausalStream ts (pushes steps)
  plain : ∀ s ∈ steps, s.Plain ts

namespace Engine

variable {limits : Limits} {e : Engine} {h : List Happening} {ts : List TwoPhase}
  {items : List Item} {skips : Xid → Bool}

/-- As long as no transaction has been skipped, the next item of a stream is accepted. -/
theorem push_accepts (limits : Limits) (skips : Xid → Bool) (hs : CausalStream ts items) {i : Item}
    (hfront : accepted h ++ [i] <+: items) (hskipped : ∀ u, .skipped u ∉ h)
    (hl : ∀ x, LifeCycle x h e) {admitted : Bool} (hadmitted : i.kind = .commit → admitted = true) :
    (e.push skips admitted i).value = .ok () ∧
      ∃ a, e.happenings limits (.push skips admitted i) = [a] ∧ a.item? = some i := by
  obtain ⟨p, hp, hnext⟩ := hs.next_cases hfront
  obtain ⟨past, now, hlife, hpast, hnow⟩ := hl p.xid
  have hskipped : ∀ u, .skipped u ∉ past := by
    intro u hu
    have hmem : .skipped u ∈ lifeOf p.xid h := by
      rw [hlife]
      exact List.mem_append_left _ hu
    exact hskipped u (mem_lifeOf.1 hmem).1
  have haccepted := accepted_lifeOf p.xid h
  rw [hlife, accepted_append] at haccepted
  rcases hnext with ⟨rfl, hnone⟩ | ⟨rfl, hone⟩
  · rw [hnone, List.append_eq_nil_iff] at haccepted
    cases hnow with
    | absent known =>
      obtain ⟨hvalue, first, totals, hafter⟩ := push_prewrite skips admitted known
      exact ⟨hvalue, .prewritten p.prewrite, by simp [happenings, hafter, Happening.ofSignal], rfl⟩
    | opened => simp at haccepted
    | ready => simp at haccepted
  · rw [hone] at haccepted
    have hnil := hpast.eq_nil_of_prewrite hskipped haccepted
    rw [hnil, accepted_nil, List.nil_append] at haccepted
    cases hnow with
    | absent => simp at haccepted
    | @opened t own isOpen known =>
      obtain rfl : t = p.prewrite := by simpa using haccepted
      obtain ⟨tso, htso⟩ := Option.isSome_iff_exists.1 (hs.timed p hp)
      obtain ⟨hvalue, first, totals, hafter⟩ := push_commit skips isOpen known htso
      rw [hadmitted rfl]
      exact ⟨hvalue, .committed p.xid p.given tso,
        by simp [happenings, hafter, Happening.ofSignal], rfl⟩
    | ready => simp at haccepted

/-- Plain operations skip no transaction that the history has accepted. -/
theorem not_skipped_of_plain (limits : Limits) (clock : Nat → UInt64) (hs : CausalStream ts items)
    (haccepted : ∀ i ∈ accepted h, i ∈ items) (hc : e.Consistent) (hl : ∀ x, LifeCycle x h e)
    (hplain : ∀ p ∈ ts, skips p.xid = false) (u : Transaction) :
    .skipped u ∉ e.happenings limits (.drain skips clock) := by
  intro hu
  obtain ⟨hopen, hskips⟩ := skips_of_skipped hc hu
  obtain ⟨t, ht, hxid⟩ := (hl u.xid).prewritten_of_open hc hopen
  obtain ⟨p, hp, rfl⟩ := hs.exists_of_prewrite (haccepted _ (mem_accepted.2 ⟨_, ht, rfl⟩))
  rw [← hxid, show p.prewrite.xid = p.xid from rfl, hplain p hp] at hskips
  cases hskips

/-- A drain accepts no item. -/
theorem accepted_drain (clock : Nat → UInt64) :
    accepted (e.happenings limits (.drain skips clock)) = [] := by
  refine List.filterMap_eq_nil_iff.2 fun a ha => ?_
  rcases List.mem_append.1 ha with ha | ha
  · obtain ⟨u, -, rfl⟩ := List.mem_map.1 ha
    rfl
  · obtain ⟨u, -, rfl⟩ := List.mem_map.1 ha
    rfl

/-- A plain operation accepts the item of the stream that it pushes, and skips none of the stream's
transactions. -/
theorem step_accepts (limits : Limits) (hs : CausalStream ts items) {s : Step} (hplain : s.Plain ts)
    (hfront : accepted h ++ pushes [s] <+: items) (hskipped : ∀ u, .skipped u ∉ h)
    (hc : e.Consistent) (hl : ∀ x, LifeCycle x h e) :
    accepted (e.happenings limits s) = pushes [s] ∧ (∀ u, .skipped u ∉ e.happenings limits s) ∧
      ∀ r, (e.step limits s).value = .pushed r → r = .ok () := by
  cases s with
  | push skips admitted i =>
    obtain ⟨hvalue, a, ha, hitem⟩ := push_accepts limits skips hs hfront hskipped hl hplain
    rw [ha]
    refine ⟨by simp [hitem, pushes], ?_, ?_⟩
    · intro u hu
      obtain rfl := List.mem_singleton.1 hu
      cases hitem
    · rintro r ⟨⟩
      exact hvalue
  | drain skips clock =>
    have haccepted : ∀ i ∈ accepted h, i ∈ items := fun i hi =>
      hfront.subset (List.mem_append_left _ hi)
    have hnone := not_skipped_of_plain limits clock hs haccepted hc hl hplain
    exact ⟨accepted_drain clock, hnone, by simp [step, Reply.map]⟩
  | takeSkipped => exact ⟨rfl, by simp [happenings], by simp [step, Reply.map]⟩
  | clear => exact hplain.elim

/-- Every item of a stream is accepted, and no transaction of it is skipped. -/
theorem fed_reached (limits : Limits) (hs : CausalStream ts items) {steps : List Step}
    (hfront : pushes steps <+: items) (hplain : ∀ s ∈ steps, s.Plain ts) :
    accepted (history limits steps) = pushes steps ∧
      (∀ u, .skipped u ∉ history limits steps) ∧
      ∀ r, .pushed r ∈ (run limits steps .empty).value → r = .ok () := by
  induction steps using List.reverseRecOn with
  | nil => exact ⟨rfl, by simp [history, historyFrom], by simp [run]⟩
  | append_singleton steps s ih =>
    have hpushes : pushes (steps ++ [s]) = pushes steps ++ pushes [s] := List.filterMap_append
    rw [hpushes] at hfront
    obtain ⟨haccepted, hskipped, hok⟩ := ih ((List.prefix_append _ _).trans hfront)
      fun s hmem => hplain s (List.mem_append_left _ hmem)
    have hlast : s.Plain ts := hplain s (by simp)
    have hclear : s ≠ .clear := by
      rintro rfl
      exact hlast
    obtain ⟨haccepted', hskipped', hok'⟩ := step_accepts limits hs hlast (haccepted ▸ hfront)
      hskipped (consistent_reached limits steps) (lifeCycle_reached limits steps)
    rw [history_concat hclear, value_run_concat, hpushes]
    refine ⟨by rw [accepted_append, haccepted, haccepted'], ?_, ?_⟩
    · intro u hu
      rcases List.mem_append.1 hu with hu | hu
      · exact hskipped u hu
      · exact hskipped' u hu
    · intro r hr
      rcases List.mem_append.1 hr with hr | hr
      · exact hok r hr
      · exact hok' r (List.mem_singleton.1 hr).symm

end Engine

end ShardMerge
